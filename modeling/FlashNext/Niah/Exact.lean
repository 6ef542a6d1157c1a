import FlashNext.Niah.Build
import FlashNext.Posix.Overwrite
import FlashNext.Spans.Tiling

/-!
# Exact cases

A case that is built has the number of tokens it was asked to have.  Between the two parts of the
template stands filler, with every needle at its depth and nowhere else.  The splices keep the
length and leave alone what they do not write, and the last checks look at the prompt itself.
-/

namespace FlashNext
namespace Niah

open Py (Str Value str)
open Text (Bytes)
open Spans (Apart)

@[simp] theorem require_ok {ok : Bool} {message : List Part} {u : Unit} :
    require ok message = .ok u ↔ ok = true := by
  rw [require, Effect.reject_ok, Bool.not_eq_false']

@[simp] theorem requireValue_ok {ok : Bool} {message : List Part} {u : Unit} :
    requireValue ok message = .ok u ↔ ok = true := by
  rw [requireValue, Effect.reject_ok, Bool.not_eq_false']

/-! ## Filler -/

theorem getElem?_copies {one : List Int} {copies i : Nat} (h : i < copies * one.length) :
    (List.replicate copies one).flatten[i]? = one[i % one.length]? := by
  induction copies generalizing i with
  | zero => omega
  | succ copies ih =>
    rw [List.replicate_succ, List.flatten_cons]
    by_cases hi : i < one.length
    · rw [List.getElem?_append_left hi, Nat.mod_eq_of_lt hi]
    · rw [Nat.add_mul, Nat.one_mul] at h
      rw [List.getElem?_append_right (by omega), ih (by omega), ← Nat.mod_eq_sub_mod (by omega)]

theorem size_le_copies {length : Nat} (h : 0 < length) (size : Nat) :
    size ≤ (size / length + 2) * length := by
  have hdiv := Nat.div_add_mod size length
  have hmod := Nat.mod_lt size h
  rw [Nat.add_mul, Nat.mul_comm (size / length)]
  omega

theorem length_tile {one : List Int} (h : one ≠ []) (size : Nat) : (tile one size).length = size := by
  have hle := size_le_copies (List.length_pos_iff.mpr h) size
  rw [tile, List.length_take, List.length_flatten, List.map_replicate, List.sum_replicate_nat]
  omega

theorem getElem?_tile {one : List Int} (h : one ≠ []) {size i : Nat} (hi : i < size) :
    (tile one size)[i]? = one[i % one.length]? := by
  have hle := size_le_copies (List.length_pos_iff.mpr h) size
  rw [tile, List.getElem?_take_of_lt hi, getElem?_copies (by omega)]

theorem buildFiller_ok {tokenizer : Tokenizer} {sentence : Str} {size : Nat} {body : List Int}
    (h : buildFiller tokenizer sentence size = .ok body) :
    tokenizer.encode sentence ≠ [] ∧ body = tile (tokenizer.encode sentence) size := by
  simp only [buildFiller, Effect.bind_ok, require_ok, Effect.pure_ok, Bool.not_eq_true',
    List.isEmpty_eq_false_iff] at h
  obtain ⟨_, hne, rfl⟩ := h
  exact ⟨hne, rfl⟩

/-! ## Splices -/

section

variable {body ids : List Int} {start stop : Nat}

theorem setSlice_eq (hlength : start + ids.length = stop) (hstop : stop ≤ body.length) :
    setSlice body start stop ids = Posix.overwrite 0 body ids start := by
  rw [Posix.overwrite_eq (by omega), hlength, setSlice]

theorem length_setSlice (hlength : start + ids.length = stop) (hstop : stop ≤ body.length) :
    (setSlice body start stop ids).length = body.length := by
  rw [setSlice_eq hlength hstop, Posix.length_overwrite (by omega)]
  omega

/-- What a splice does not write stays. -/
theorem getElem?_setSlice (hlength : start + ids.length = stop) (hstop : stop ≤ body.length)
    {i : Nat} (hi : ¬ (start ≤ i ∧ i < stop)) : (setSlice body start stop ids)[i]? = body[i]? := by
  rw [setSlice_eq hlength hstop, Posix.getElem?_overwrite (by omega), if_neg (by omega)]

end

/-! ## The loop over the needles -/

/-- What holds of the body after the needles of `specs`. -/
structure Spliced (front : Nat) (nTarget : Int) (filler : List Int) (specs : List (ℚ × List Int))
    (placed : Placed) : Prop where
  length : placed.body.length = filler.length
  offsets : List.Forall₂ (fun (spec : ℚ × List Int) (offset : Nat) =>
    truncate (spec.1 * nTarget) = offset ∧ front ≤ offset ∧
      offset + spec.2.length ≤ front + filler.length) specs placed.offsets
  occupied : placed.occupied.map (fun span => (front + span.1, front + span.2)) =
    List.zipWith (fun ids offset => (offset, offset + ids.length)) (specs.map (·.2)) placed.offsets
  apart : placed.occupied.Pairwise Apart
  rest : ∀ i, (∀ span ∈ placed.occupied, ¬ (span.1 ≤ i ∧ i < span.2)) →
    placed.body[i]? = filler[i]?

section

variable {front : Nat} {nTarget : Int} {filler : List Int}

theorem spliced_nil : Spliced front nTarget filler [] ⟨filler, [], []⟩ :=
  ⟨rfl, .nil, rfl, .nil, fun _ _ => rfl⟩

/-- One round keeps the invariant. -/
theorem Spliced.place {specs : List (ℚ × List Int)} {placed placed' : Placed} {spec : ℚ × List Int}
    (h : Spliced front nTarget filler specs placed)
    (hplace : placeNeedle front nTarget placed spec = .ok placed') :
    Spliced front nTarget filler (specs ++ [spec]) placed' := by
  simp only [placeNeedle, Effect.bind_ok, require_ok, Effect.pure_ok, decide_eq_true_eq,
    Bool.not_eq_true', List.any_eq_false] at hplace
  obtain ⟨_, ⟨hfront, hnonempty, hinside⟩, _, hapart, rfl⟩ := hplace
  have hlength := h.length
  generalize hoffset : truncate (spec.1 * nTarget) = offset at *
  have hstart : (offset - front).toNat + spec.2.length =
      (offset - front + spec.2.length).toNat := by omega
  have hstop : (offset - front + spec.2.length).toNat ≤ placed.body.length := by omega
  have hcount : (specs.map (·.2)).length = placed.offsets.length := by
    rw [List.length_map]
    exact h.offsets.length_eq
  refine ⟨?_, ?_, ?_, ?_, ?_⟩
  · exact (length_setSlice hstart hstop).trans hlength
  · refine List.rel_append h.offsets (.cons ⟨?_, ?_, ?_⟩ .nil)
    · rw [hoffset]
      omega
    · omega
    · omega
  · rw [List.map_append, List.map_append, h.occupied, List.zipWith_append hcount]
    simp only [List.map_cons, List.map_nil, List.zipWith_cons_cons, List.zipWith_nil_left,
      List.append_cancel_left_eq, List.cons.injEq, Prod.mk.injEq, and_true]
    omega
  · rw [List.pairwise_append]
    refine ⟨h.apart, List.pairwise_singleton _ _, ?_⟩
    intro span hspan other hother
    rw [List.mem_singleton.mp hother]
    have := hapart span hspan
    unfold Apart
    dsimp only
    omega
  · intro i hi
    rw [List.forall_mem_append] at hi
    have hout := hi.2 _ (List.mem_singleton_self _)
    rw [getElem?_setSlice hstart hstop hout]
    exact h.rest i hi.1

/-- The whole loop keeps it. -/
theorem Spliced.run {done specs : List (ℚ × List Int)} {placed placed' : Placed}
    (h : Spliced front nTarget filler done placed)
    (hrun : specs.foldlM (placeNeedle front nTarget) placed = .ok placed') :
    Spliced front nTarget filler (done ++ specs) placed' := by
  induction specs generalizing done placed with
  | nil =>
    obtain rfl := Except.ok.inj hrun
    rwa [List.append_nil]
  | cons spec specs ih =>
    rw [List.foldlM_cons, Effect.bind_ok] at hrun
    obtain ⟨next, hnext, hrun⟩ := hrun
    rw [List.append_cons]
    exact ih (h.place hnext) hrun

end

/-! ## The prompt -/

theorem mem_occurrences {ids pattern : List Int} {i : Nat} :
    i ∈ occurrences ids pattern ↔
      i + pattern.length ≤ ids.length ∧ window ids i pattern.length = pattern := by
  rw [occurrences, List.mem_filter, List.mem_range, beq_iff_eq]
  refine and_congr_left fun _ => ?_
  omega

theorem eq_of_mem_occurrences {ids pattern : List Int} {i j : Nat}
    (h : (occurrences ids pattern).length = 1) (hi : i ∈ occurrences ids pattern)
    (hj : j ∈ occurrences ids pattern) : i = j := by
  obtain ⟨k, hk⟩ := List.length_eq_one_iff.mp h
  rw [hk, List.mem_singleton] at hi hj
  exact hi.trans hj.symm

/-- What a list of tokens consists of around an occurrence. -/
theorem eq_of_window {ids pattern : List Int} {i : Nat} (h : window ids i pattern.length = pattern) :
    ids = ids.take i ++ pattern ++ ids.drop (i + pattern.length) := by
  have hdrop : ids.drop i = pattern ++ ids.drop (i + pattern.length) := by
    conv_rhs => rw [← List.drop_drop]
    rw [window] at h
    conv_lhs => rw [← List.take_append_drop pattern.length (ids.drop i), h]
  rw [List.append_assoc, ← hdrop, List.take_append_drop]

/-- What the prompt is made of. -/
structure Assembled (tokenizer : Tokenizer) (system query : Str) (specs : List (ℚ × List Int))
    (nTarget : Int) (promptIds : List Int) (offsets : List Nat) (front back : List Int)
    (placed : Placed) : Prop where
  template : ∃ rendered, tokenizer.applyChatTemplate (messages system query) = .str rendered ∧
    tokenizer.encode rendered = front ++ tokenizer.encode slot ++ back ∧
    occurrences (tokenizer.encode rendered) (tokenizer.encode slot) = [front.length]
  filler : tokenizer.encode fillerSentence ≠ []
  spliced : Spliced front.length nTarget
    (tile (tokenizer.encode fillerSentence) placed.body.length) specs placed
  prompt : promptIds = front ++ placed.body ++ back
  length : (promptIds.length : Int) = nTarget
  offsets : offsets = placed.offsets

theorem encodeWithPositions_ok {tokenizer : Tokenizer} {system query : Str}
    {specs : List (ℚ × List Int)} {nTarget : Int} {promptIds : List Int} {offsets : List Nat}
    {text : Str}
    (h : encodeWithPositions tokenizer system specs query nTarget = .ok (promptIds, offsets, text)) :
    ∃ front back placed,
      Assembled tokenizer system query specs nTarget promptIds offsets front back placed := by
  simp only [encodeWithPositions, Effect.bind_ok, Effect.orRaise_ok, require_ok, Effect.pure_ok,
    beq_iff_eq, decide_eq_true_eq] at h
  obtain ⟨rendered, hrendered, _, _, _, hstarts, _, _, filler, hfiller, placed, hplaced, _, hlength,
    heq⟩ := h
  simp only [Prod.mk.injEq] at heq
  obtain ⟨hprompt, hoffsets, _⟩ := heq
  obtain ⟨start, hstart⟩ := List.length_eq_one_iff.mp hstarts
  rw [hstart, List.headD_cons] at hfiller hplaced hlength hprompt
  obtain ⟨hone, rfl⟩ := buildFiller_ok hfiller
  have hmem : start ∈ occurrences (tokenizer.encode rendered) (tokenizer.encode slot) := by
    rw [hstart]
    exact List.mem_singleton_self _
  obtain ⟨hinside, hwindow⟩ := mem_occurrences.mp hmem
  have hspliced := spliced_nil.run hplaced
  rw [List.nil_append] at hspliced
  have hsize := hspliced.length
  rw [length_tile hone] at hsize
  have hfront : ((tokenizer.encode rendered).take start).length = start := by
    rw [List.length_take]
    omega
  refine ⟨_, _, placed, ⟨rendered, ?_, eq_of_window hwindow, ?_⟩, hone, ?_, hprompt.symm, ?_,
    hoffsets.symm⟩
  · exact Value.asStr?_eq_some.mp hrendered
  · rw [hstart, hfront]
  · rw [hsize]
    exact hspliced
  · rw [← hprompt]
    exact hlength

/-! ## The case -/

def Needle.length (needle : Needle) : Nat := needle.tokenIds.length

/-- The needle with its place in the prompt. -/
def Needle.at (placed : Needle × Nat) : Needle := { placed.1 with startOffset := placed.2 }

/-- A needle before it has a place. -/
def unplaced (tokenizer : Tokenizer) (code : Str) : Needle :=
  ⟨code, needleText code, tokenizer.encode (needleText code), -1⟩

theorem encodeNeedle_ok {tokenizer : Tokenizer} {caseId code : Str} {needle : Needle}
    (h : encodeNeedle tokenizer caseId code = .ok needle) :
    needle = unplaced tokenizer code ∧ tokenizer.encode (needleText code) ≠ [] := by
  simp only [encodeNeedle, Effect.bind_ok, require_ok, Effect.pure_ok, Bool.not_eq_true',
    List.isEmpty_eq_false_iff] at h
  obtain ⟨_, hne, rfl⟩ := h
  exact ⟨rfl, hne⟩

theorem checkSlot_ok {caseId : Str} {promptIds : List Int} {placed : Needle × Nat} {u : Unit}
    (h : checkSlot caseId promptIds placed = .ok u) :
    window promptIds placed.2 placed.1.length = placed.1.tokenIds ∧
      (occurrences promptIds placed.1.tokenIds).length = 1 := by
  simp only [checkSlot, Effect.bind_ok, require_ok, beq_iff_eq] at h
  obtain ⟨_, hwindow, honce⟩ := h
  exact ⟨hwindow, honce⟩

/-- What `buildCase` goes through when it returns a case. -/
structure Built (tokenizer : Tokenizer) (n : Int) (depths : List ℚ) (codes : List Str)
    (query system : Str) (case : BuiltCase) (offsets : List Nat) : Prop where
  lengths : codes.length = depths.length
  distinct : codes.Nodup
  inside : ∀ depth ∈ depths, 0 < depth ∧ depth < 1
  encodes : ∀ code ∈ codes, tokenizer.encode (needleText code) ≠ []
  prompt : ∃ text, encodeWithPositions tokenizer system
    (depths.zip ((codes.map (unplaced tokenizer)).map Needle.tokenIds)) query n =
      .ok (case.promptIds, offsets, text)
  slots : ∀ placed ∈ (codes.map (unplaced tokenizer)).zip offsets,
    window case.promptIds placed.2 placed.1.length = placed.1.tokenIds ∧
      (occurrences case.promptIds placed.1.tokenIds).length = 1
  needles : case.needles = ((codes.map (unplaced tokenizer)).zip offsets).map Needle.at

section

variable {sha256 : Bytes → Str} {tokenizer : Tokenizer} {caseId query system : Str} {n : Int}
  {depths : List ℚ} {codes : List Str} {case : BuiltCase}

theorem buildCase_built
    (h : buildCase sha256 tokenizer caseId n depths codes query system = .ok case) :
    ∃ offsets, Built tokenizer n depths codes query system case offsets := by
  simp only [buildCase, Effect.bind_ok, requireValue_ok, Effect.pure_ok, Effect.forM_ok,
    decide_eq_true_eq, Bool.and_eq_true, beq_iff_eq] at h
  obtain ⟨_, ⟨_, hlengths⟩, _, hcodes, _, _, _, hdepths, needles, hneedles, ⟨promptIds, offsets, text⟩,
    hprompt, _, _, _, hslots, _, _, _, _, rfl⟩ := h
  have hmap : needles = codes.map (unplaced tokenizer) :=
    Effect.mapM_eq_map (fun _ _ hneedle => (encodeNeedle_ok hneedle).1) hneedles
  subst hmap
  refine ⟨offsets, hlengths, hcodes, hdepths, ?_, ⟨text, hprompt⟩, ?_, rfl⟩
  · intro code hcode
    have hall := Effect.mapM_ok.mp hneedles
    rw [List.forall₂_map_right_iff, List.forall₂_same] at hall
    exact (encodeNeedle_ok (hall code hcode)).2
  · intro placed hplaced
    exact checkSlot_ok (hslots placed hplaced)

end

/-- Depths and placed needles, of what holds of the tokens and the places. -/
theorem forall₂_at {R : ℚ → List Int → Nat → Prop} {depths : List ℚ} {needles : List Needle}
    {offsets : List Nat} (hlength : needles.length = depths.length)
    (h : List.Forall₂ (fun (spec : ℚ × List Int) (offset : Nat) => R spec.1 spec.2 offset)
      (depths.zip (needles.map Needle.tokenIds)) offsets) :
    List.Forall₂ (fun depth (needle : Needle) => ∃ offset : Nat, needle.startOffset = offset ∧
      R depth needle.tokenIds offset) depths ((needles.zip offsets).map Needle.at) := by
  induction depths generalizing needles offsets with
  | nil =>
    rw [List.length_eq_zero_iff.mp hlength]
    exact .nil
  | cons depth depths ih =>
    cases needles with
    | nil => cases hlength
    | cons needle needles =>
      obtain ⟨offset, offsets', hR, hrest, rfl⟩ := List.forall₂_cons_left_iff.mp h
      exact .cons ⟨offset, rfl, hR⟩ (ih (Nat.succ.inj hlength) hrest)

/-- The spans of placed needles. -/
theorem zipWith_spans {depths : List ℚ} {needles : List Needle} {offsets : List Nat}
    (hlength : needles.length = depths.length) :
    List.zipWith (fun (ids : List Int) (offset : Nat) => (offset, offset + ids.length))
      ((depths.zip (needles.map Needle.tokenIds)).map (·.2)) offsets =
      (needles.zip offsets).map fun placed => (placed.2, placed.2 + placed.1.length) := by
  rw [List.map_snd_zip (by rw [List.length_map]; omega), List.zipWith_map_left, List.zip,
    List.map_zipWith]
  rfl

/-- An exact case: `body` stands between `front` and `back`, which are what the template has
around its placeholder. -/
structure ExactCase (tokenizer : Tokenizer) (n : Int) (depths : List ℚ) (codes : List Str)
    (query system : Str) (case : BuiltCase) (front body back : List Int) : Prop where
  size : (case.promptIds.length : Int) = n
  prompt : case.promptIds = front ++ body ++ back
  template : ∃ rendered, tokenizer.applyChatTemplate (messages system query) = .str rendered ∧
    tokenizer.encode rendered = front ++ tokenizer.encode slot ++ back ∧
    occurrences (tokenizer.encode rendered) (tokenizer.encode slot) = [front.length]
  codes : case.needles.map Needle.code = codes
  tokens : ∀ needle ∈ case.needles,
    needle.tokenIds = tokenizer.encode (needleText needle.code) ∧ needle.tokenIds ≠ []
  offsets : List.Forall₂ (fun depth (needle : Needle) =>
    needle.startOffset = truncate (depth * n)) depths case.needles
  inside : ∀ needle ∈ case.needles, (front.length : Int) ≤ needle.startOffset ∧
    needle.startOffset + needle.length ≤ front.length + body.length
  stands : ∀ needle ∈ case.needles, ∀ i : Nat, i + needle.length ≤ case.promptIds.length →
    (window case.promptIds i needle.length = needle.tokenIds ↔ (i : Int) = needle.startOffset)
  apart : case.needles.Pairwise fun (a b : Needle) =>
    a.startOffset + (a.length : Int) ≤ b.startOffset ∨
      b.startOffset + (b.length : Int) ≤ a.startOffset
  filler : tokenizer.encode fillerSentence ≠ [] ∧ ∀ i, i < body.length →
    (∀ needle ∈ case.needles, ¬ (needle.startOffset ≤ (front.length + i : Nat) ∧
      ((front.length + i : Nat) : Int) < needle.startOffset + needle.length)) →
    body[i]? = (tokenizer.encode fillerSentence)[i % (tokenizer.encode fillerSentence).length]?

theorem buildCase_parts {sha256 : Bytes → Str} {tokenizer : Tokenizer} {caseId query system : Str}
    {n : Int} {depths : List ℚ} {codes : List Str} {case : BuiltCase}
    (h : buildCase sha256 tokenizer caseId n depths codes query system = .ok case) :
    ∃ front body back, ExactCase tokenizer n depths codes query system case front body back := by
  obtain ⟨offsets, hbuilt⟩ := buildCase_built h
  obtain ⟨text, hprompt⟩ := hbuilt.prompt
  obtain ⟨front, back, placed, hassembled⟩ := encodeWithPositions_ok hprompt
  have hspliced := hassembled.spliced
  have hneedles : (codes.map (unplaced tokenizer)).length = depths.length := by
    rw [List.length_map, hbuilt.lengths]
  have hfiller : (tile (tokenizer.encode fillerSentence) placed.body.length).length =
      placed.body.length := length_tile hassembled.filler _
  have hspecs := forall₂_at (R := fun depth ids offset => truncate (depth * n) = (offset : Int) ∧
    front.length ≤ offset ∧ offset + ids.length ≤ front.length +
      (tile (tokenizer.encode fillerSentence) placed.body.length).length) hneedles
    hspliced.offsets
  rw [← hassembled.offsets, ← hbuilt.needles, hfiller] at hspecs
  have hplaces := Effect.forall₂_exists_left hspecs
  have hat : ∀ needle ∈ case.needles,
      ∃ p ∈ (codes.map (unplaced tokenizer)).zip offsets, Needle.at p = needle := by
    intro needle hneedle
    rw [hbuilt.needles] at hneedle
    exact List.mem_map.mp hneedle
  have hoffsets : (codes.map (unplaced tokenizer)).length ≤ offsets.length := by
    have hcount := hspliced.offsets.length_eq
    rw [List.length_zip, List.length_map, hneedles, ← hassembled.offsets] at hcount
    omega
  have hspans := hspliced.occupied
  rw [zipWith_spans hneedles, ← hassembled.offsets] at hspans
  have hapart : (((codes.map (unplaced tokenizer)).zip offsets).map fun p =>
      (p.2, p.2 + p.1.length)).Pairwise Apart := by
    rw [← hspans]
    exact Spans.pairwise_shift _ hspliced.apart
  refine ⟨front, placed.body, back, hassembled.length, hassembled.prompt, hassembled.template,
    ?_, ?_, ?_, ?_, ?_, ?_, hassembled.filler, ?_⟩
  · have hfst : ((codes.map (unplaced tokenizer)).zip offsets).map Prod.fst =
        codes.map (unplaced tokenizer) := List.map_fst_zip hoffsets
    have hcodes : case.needles.map Needle.code =
        (((codes.map (unplaced tokenizer)).zip offsets).map Prod.fst).map Needle.code := by
      rw [hbuilt.needles, List.map_map, List.map_map]
      rfl
    rw [hcodes, hfst, List.map_map]
    exact List.map_id _
  · intro needle hneedle
    obtain ⟨p, hp, rfl⟩ := hat needle hneedle
    obtain ⟨code, hcode, hcodeEq⟩ := List.mem_map.mp (List.of_mem_zip hp).1
    show p.1.tokenIds = tokenizer.encode (needleText p.1.code) ∧ p.1.tokenIds ≠ []
    rw [← hcodeEq]
    exact ⟨rfl, hbuilt.encodes code hcode⟩
  · refine hspecs.imp fun _ _ hspec => ?_
    obtain ⟨_, hstart, hdepth, _⟩ := hspec
    exact hstart.trans hdepth.symm
  · intro needle hneedle
    obtain ⟨_, _, offset, hstart, _, hfront, hstop⟩ := hplaces needle hneedle
    rw [hstart, Needle.length]
    omega
  · intro needle hneedle i hi
    obtain ⟨p, hp, rfl⟩ := hat needle hneedle
    obtain ⟨_, _, offset, hstart, _, _, hstop⟩ := hplaces (Needle.at p) hneedle
    obtain ⟨hwindow, honce⟩ := hbuilt.slots p hp
    have hlength : case.promptIds.length =
        front.length + placed.body.length + back.length := by
      rw [hassembled.prompt, List.length_append, List.length_append]
    have hoffset : p.2 = offset := Int.ofNat.inj hstart
    have hmem : p.2 ∈ occurrences case.promptIds p.1.tokenIds := by
      refine mem_occurrences.mpr ⟨?_, hwindow⟩
      have htokens : (Needle.at p).tokenIds.length = p.1.tokenIds.length := rfl
      omega
    constructor
    · intro hother
      have hmem' : i ∈ occurrences case.promptIds p.1.tokenIds := mem_occurrences.mpr ⟨hi, hother⟩
      exact congrArg Int.ofNat (eq_of_mem_occurrences honce hmem' hmem)
    · intro heq
      obtain rfl : i = p.2 := Int.ofNat.inj heq
      exact hwindow
  · rw [hbuilt.needles, List.pairwise_map]
    refine (List.pairwise_map.mp hapart).imp ?_
    intro p q hpq
    have hp : (Needle.at p).startOffset = p.2 := rfl
    have hq : (Needle.at q).startOffset = q.2 := rfl
    have hp' : (Needle.at p).length = p.1.length := rfl
    have hq' : (Needle.at q).length = q.1.length := rfl
    unfold Apart at hpq
    dsimp only at hpq
    omega
  · intro i hi hout
    rw [hspliced.rest i, getElem?_tile hassembled.filler hi]
    intro span hspan hin
    have hmem := List.mem_map_of_mem (f := fun span : Nat × Nat =>
      (front.length + span.1, front.length + span.2)) hspan
    rw [hspans] at hmem
    obtain ⟨p, hp, heq⟩ := List.mem_map.mp hmem
    rw [Prod.mk.injEq] at heq
    have hneedle : Needle.at p ∈ case.needles := by
      rw [hbuilt.needles]
      exact List.mem_map_of_mem hp
    have hstart : (Needle.at p).startOffset = p.2 := rfl
    have hlength : (Needle.at p).length = p.1.length := rfl
    exact hout _ hneedle (by omega)

/-- Every case that is built is exact. -/
theorem buildCase_exact {sha256 : Bytes → Str} {tokenizer : Tokenizer} {caseId query system : Str}
    {n : Int} {depths : List ℚ} {codes : List Str} {case : BuiltCase}
    (h : buildCase sha256 tokenizer caseId n depths codes query system = .ok case) :
    ∃ front body back, ExactCase tokenizer n depths codes query system case front body back :=
  buildCase_parts h

/-! ## A case with its needles in the other order -/

/-- A token for every character, and a template of one character around the messages. -/
def plainTokenizer : Tokenizer where
  encode text := text.map Int.ofNat
  decode ids := ids.map Int.toNat
  applyChatTemplate _ := .str [60, 0, 62]

def needleIds (code : String) : List Int := plainTokenizer.encode (needleText (str code))

def swappedIds : List Int :=
  [60] ++ setSlice (setSlice (tile (plainTokenizer.encode fillerSentence) 118) 59 94
    (needleIds "A")) 11 46 (needleIds "B") ++ [62]

/-- The second needle stands before the first. -/
def swappedCase : BuiltCase where
  caseId := str "swapped"
  nTokens := swappedIds.length
  depths := [1 / 2, 1 / 10]
  needles := [⟨str "A", needleText (str "A"), needleIds "A", 60⟩,
    ⟨str "B", needleText (str "B"), needleIds "B", 12⟩]
  promptIds := swappedIds
  renderedTextSha256 := []
  promptSha256 := []
  responseStartsInThinking :=
    decide (Py.rfind thinkClose (plainTokenizer.decode swappedIds) <
      Py.rfind thinkOpen (plainTokenizer.decode swappedIds))

theorem encodeWithPositions_swapped :
    encodeWithPositions plainTokenizer [] [(1 / 2, needleIds "A"), (1 / 10, needleIds "B")] [] 120 =
      .ok (swappedIds, [60, 12], plainTokenizer.decode swappedIds) := by
  decide +kernel

theorem checkSlots_swapped :
    ([(unplaced plainTokenizer (str "A"), 60), (unplaced plainTokenizer (str "B"), 12)] :
      List (Needle × Nat)).forM (checkSlot (str "swapped") swappedIds) = .ok () := by
  decide +kernel

theorem slotSpans_swapped :
    slotSpans [(unplaced plainTokenizer (str "A"), 60), (unplaced plainTokenizer (str "B"), 12)] =
      [(12, 47), (60, 95)] :=
  Spans.mergeSort_eq (by decide) (by decide)

theorem buildCase_swapped :
    buildCase (fun _ => []) plainTokenizer (str "swapped") 120 [1 / 2, 1 / 10] [str "A", str "B"]
      [] [] = .ok swappedCase := by
  simp only [buildCase, Effect.bind_ok, Effect.pure_ok]
  refine ⟨(), by decide, (), by decide, (), by decide, (),
    by decide +kernel, [unplaced plainTokenizer (str "A"), unplaced plainTokenizer (str "B")], rfl,
    _, encodeWithPositions_swapped, (), ?_, (), checkSlots_swapped, (), by decide +kernel, (), ?_,
    ?_⟩
  · show checkSpans _ (slotSpans [(unplaced plainTokenizer (str "A"), 60),
      (unplaced plainTokenizer (str "B"), 12)]) = _
    rw [slotSpans_swapped]
    rfl
  · rw [requireValue_ok]
    have hsmall : ∀ id ∈ swappedIds, id.natAbs < 10 ^ 9 := by decide +kernel
    exact List.all_eq_true.mpr fun id hid => Py.fits_of_lt (hsmall id hid)
  · rfl

theorem buildCase_exact_swapped :
    ∃ front body back, ExactCase plainTokenizer 120 [1 / 2, 1 / 10] [str "A", str "B"] [] []
      swappedCase front body back :=
  buildCase_exact buildCase_swapped

end Niah
end FlashNext
