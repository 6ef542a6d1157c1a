import FlashNext.Effect.Check
import FlashNext.Qsa.Packed
import Mathlib.Data.List.Sort

/-!
# The rows of sparse indices

The indexer expands selected blocks to positions, and the draft steps of speculative decoding
reuse the row of the last accepted token with the positions drafted since.  `expand_gapless` and
`lookup_gapless_iff` say which of these rows keep their selected entries in front.
-/

namespace FlashNext
namespace Qsa

/-! ## The expansion of blocks -/

/-- A row of blocks as wide as the budget asks for. -/
def blockTopk (compressRatio tokenTopk : Nat) : Nat :=
  (tokenTopk + compressRatio - 1) / compressRatio

/-- `torch_expand_qsa_block_indices`, of one row. -/
def torchExpandQsaBlockIndices (compressRatio tokenTopk : Nat) (blocks : List Int)
    (queryPosition sequenceLength : Int) : List Int :=
  let finalTopk := tokenTopk + compressRatio - 1
  let expanded := (blocks.flatMap fun block : Int => (List.range compressRatio).map fun offset : Nat =>
    if 0 ≤ block then block * compressRatio + offset else -1).take tokenTopk
  let expanded := expanded.map fun position =>
    if 0 ≤ position ∧ position < sequenceLength then position else -1
  let visibleTokens := queryPosition + 1
  let tailStart := visibleTokens / compressRatio * compressRatio
  let tailCount := visibleTokens - tailStart
  let tail := (List.range (compressRatio - 1)).map fun offset : Nat =>
    if offset < tailCount ∧ tailStart + offset < sequenceLength then tailStart + offset else -1
  let result := expanded ++ tail
  let keyed := result.zipIdx.map fun entry =>
    (if 0 ≤ entry.1 then entry.2 else entry.2 + finalTopk, entry.1)
  (keyed.insertionSort fun a b => a.1 ≤ b.1).map (·.2)

/-- `_expand_qsa_block_indices_kernel`, of one row. -/
def tritonExpandQsaBlockIndices (compressRatio tokenTopk : Nat) (blocks : List Int)
    (queryPosition sequenceLength : Int) : List Int :=
  let validBlockCount := blocks.countP fun block => decide (0 ≤ block)
  let validTokenCount := min (validBlockCount * compressRatio) tokenTopk
  let visibleTokens := queryPosition + 1
  let tailStart := visibleTokens / compressRatio * compressRatio
  let tailCount := visibleTokens - tailStart
  (List.range (tokenTopk + compressRatio - 1)).map fun col =>
    let block := if col < tokenTopk ∧ col / compressRatio < blocks.length then
      blocks.getD (col / compressRatio) (-1) else -1
    let expanded := block * compressRatio + (col % compressRatio : Nat)
    let tailOffset : Int := col - validTokenCount
    if (col < tokenTopk ∧ 0 ≤ block ∧ 0 ≤ expanded ∧ expanded < sequenceLength) ∧
        col < validTokenCount then expanded
    else if 0 ≤ tailOffset ∧ tailOffset < compressRatio - 1 ∧ tailOffset < tailCount ∧
        tailStart + tailOffset < sequenceLength then tailStart + tailOffset
    else -1

/-- `expand_qsa_block_indices`, of one row. -/
def expandQsaBlockIndices (isCuda : Bool) (compressRatio tokenTopk : Nat) (blocks : List Int)
    (queryPosition sequenceLength : Int) : Except String (List Int) :=
  if blocks.length ≠ blockTopk compressRatio tokenTopk then .error "expected block indices"
  else if isCuda then
    .ok (tritonExpandQsaBlockIndices compressRatio tokenTopk blocks queryPosition sequenceLength)
  else
    .ok (torchExpandQsaBlockIndices compressRatio tokenTopk blocks queryPosition sequenceLength)

/-! ## The rows shared by the draft steps -/

/-- `QSAMTPSharedSparseIndices`. -/
structure SharedSparseIndices where
  layerIds : List Nat
  tailWidth : Nat
  tokenTopk : Nat
  indices : Nat → Nat → List Int
  capturedLen : Nat → Nat → Int

/-- Rows that nothing was captured for attend to the first token. -/
def SharedSparseIndices.init (layerIds : List Nat) (tokenTopk tailWidth : Nat) :
    SharedSparseIndices where
  layerIds := layerIds
  tailWidth := tailWidth
  tokenTopk := tokenTopk
  indices _ _ := List.replicate (tokenTopk + tailWidth) 0
  capturedLen _ _ := 1

/-- One row of a capture: the request, its expanded row and its length. -/
abbrev Captured := Nat × List Int × Int

/-- `index_copy_` of the rows of a capture to the front of the request's row. -/
def copyRow (s : SharedSparseIndices) (slot : Nat) (row : Captured) : SharedSparseIndices :=
  let (request, topkIndices, capturedLen) := row
  let kept := (s.indices slot request).drop topkIndices.length
  { s with
    indices := Function.update s.indices slot
      (Function.update (s.indices slot) request (topkIndices ++ kept))
    capturedLen := Function.update s.capturedLen slot
      (Function.update (s.capturedLen slot) request capturedLen) }

def SharedSparseIndices.capture (s : SharedSparseIndices) (rows : List Captured) (layerId : Nat) :
    Except String SharedSparseIndices := do
  let slot ← Effect.orRaise (s.layerIds.idxOf? layerId) "KeyError"
  return rows.foldl (fun s row => copyRow s slot row) s

def SharedSparseIndices.tail (s : SharedSparseIndices) (slot request : Nat)
    (currentPosition : Int) : List Int :=
  (List.range s.tailWidth).map fun offset : Nat =>
    let position := s.capturedLen slot request + offset
    if position ≤ currentPosition then position else -1

/-- `lookup`, of one request. -/
def SharedSparseIndices.lookup (s : SharedSparseIndices) (request : Nat) (currentPosition : Int)
    (layerId : Nat) : Except String (List Int) := do
  let slot ← Effect.orRaise (s.layerIds.idxOf? layerId) "KeyError"
  return (s.indices slot request).take ((s.indices slot request).length - s.tailWidth) ++
    s.tail slot request currentPosition

/-! ## Rows without gaps -/

section Front

variable {β : Type} {p : β → Bool} {xs ys : List β}

/-- The kept values are in front when a value is kept exactly before some place. -/
theorem filter_prefix_of_front {m : Nat} (h : ∀ i x, xs[i]? = some x → (p x = true ↔ i < m)) :
    xs.filter p <+: xs := by
  induction xs generalizing m with
  | nil => exact List.prefix_refl _
  | cons x xs ih =>
    cases m with
    | zero =>
      have hnone : (x :: xs).filter p = [] := by
        rw [List.filter_eq_nil_iff]
        intro y hy hp
        obtain ⟨i, hi⟩ := List.getElem?_of_mem hy
        exact absurd ((h i y hi).mp hp) (Nat.not_lt_zero i)
      rw [hnone]
      exact List.nil_prefix
    | succ m =>
      have hx : p x = true := (h 0 x rfl).mpr (Nat.succ_pos m)
      rw [List.filter_cons_of_pos hx, List.prefix_cons_inj]
      refine ih (m := m) fun i y hy => ?_
      rw [h (i + 1) y hy, Nat.succ_lt_succ_iff]

theorem countP_front {m : Nat} (h : ∀ i x, xs[i]? = some x → (p x = true ↔ i < m)) :
    xs.countP p = min m xs.length := by
  induction xs generalizing m with
  | nil => rw [List.countP_nil, List.length_nil, Nat.min_zero]
  | cons x xs ih =>
    rw [List.countP_cons, List.length_cons]
    cases m with
    | zero =>
      have hrest := ih (m := 0) fun i y hy => ⟨fun hp => absurd ((h (i + 1) y hy).mp hp) (by omega),
        fun hi => absurd hi (Nat.not_lt_zero i)⟩
      have hx : ¬ p x = true := fun hp => absurd ((h 0 x rfl).mp hp) (Nat.lt_irrefl 0)
      rw [hrest, if_neg hx]
      omega
    | succ m =>
      have hrest := ih (m := m) fun i y hy => by rw [h (i + 1) y hy, Nat.succ_lt_succ_iff]
      have hx : p x = true := (h 0 x rfl).mpr (Nat.succ_pos m)
      rw [hrest, if_pos hx]
      omega

/-- The kept values of a sorted row are in front when every value before a kept one is kept. -/
theorem filter_prefix_of_sorted {r : β → β → Prop} (hsorted : xs.Pairwise r)
    (hdown : ∀ a b, r a b → p b = true → p a = true) : xs.filter p <+: xs := by
  induction xs with
  | nil => exact List.prefix_refl _
  | cons x xs ih =>
    rw [List.pairwise_cons] at hsorted
    by_cases hx : p x = true
    · rw [List.filter_cons_of_pos hx, List.prefix_cons_inj]
      exact ih hsorted.2
    · have hnone : (x :: xs).filter p = [] := by
        rw [List.filter_cons_of_neg hx, List.filter_eq_nil_iff]
        exact fun y hy hp => hx (hdown x y (hsorted.1 y hy) hp)
      rw [hnone]
      exact List.nil_prefix

/-- Of two rows, one after the other, the first is full or the second keeps nothing. -/
theorem filter_prefix_append : (xs ++ ys).filter p <+: xs ++ ys ↔
    (xs.filter p = xs ∧ ys.filter p <+: ys) ∨ (xs.filter p <+: xs ∧ ys.filter p = []) := by
  rw [List.filter_append]
  constructor
  · intro h
    have hxs : xs.filter p <+: xs :=
      List.prefix_of_prefix_length_le ((List.prefix_append _ _).trans h) (List.prefix_append _ _)
        (List.length_filter_le _ _)
    by_cases hfull : xs.filter p = xs
    · rw [hfull, List.prefix_append_right_inj] at h
      exact .inl ⟨hfull, h⟩
    · refine .inr ⟨hxs, ?_⟩
      cases hys : ys.filter p with
      | nil => rfl
      | cons y kept =>
        -- the first kept value of `ys` would stand at a place of `xs` that keeps nothing
        obtain ⟨rest, hrest⟩ := hxs
        cases rest with
        | nil => exact absurd (by rw [List.append_nil] at hrest; exact hrest) hfull
        | cons x rest =>
          have hkept : (x :: rest).filter p = [] := by
            have hfilter := congrArg (List.filter p) hrest
            rw [List.filter_append, List.filter_filter] at hfilter
            simpa only [Bool.and_self, List.append_right_eq_self] using hfilter
          rw [hys, ← hrest, List.append_assoc, hrest, List.prefix_append_right_inj,
            List.cons_append, List.cons_prefix_cons] at h
          have hy : p y = true := (List.mem_filter.mp (hys ▸ List.mem_cons_self)).2
          have hx : x ∈ (x :: rest).filter p := List.mem_filter.mpr ⟨List.mem_cons_self, h.1 ▸ hy⟩
          rw [hkept] at hx
          exact absurd hx List.not_mem_nil
  · rintro (⟨hxs, hys⟩ | ⟨hxs, hys⟩)
    · rw [hxs, List.prefix_append_right_inj]
      exact hys
    · rw [hys, List.append_nil]
      exact hxs.trans (List.prefix_append _ _)

end Front

/-- The row of a lookup is gapless when the captured part is full or nothing was drafted after
it, and each part is gapless on its own. -/
theorem lookup_gapless_iff {s : SharedSparseIndices} {request length : Nat} {position : Int}
    {layerId : Nat} {row : List Int} (h : s.lookup request position layerId = .ok row) :
    ∃ slot, s.layerIds.idxOf? layerId = some slot ∧
      ((IndexRow.Gapless ⟨row, length, request⟩) ↔
        let captured := (s.indices slot request).take
          ((s.indices slot request).length - s.tailWidth)
        let drafted := s.tail slot request position
        (captured.filter (isValid length) = captured ∧
          drafted.filter (isValid length) <+: drafted) ∨
        (captured.filter (isValid length) <+: captured ∧
          drafted.filter (isValid length) = [])) := by
  simp only [SharedSparseIndices.lookup, Effect.bind_ok, Effect.pure_ok, Effect.orRaise_ok] at h
  obtain ⟨slot, hslot, rfl⟩ := h
  exact ⟨slot, hslot, filter_prefix_append⟩

/-- The positions drafted since the capture are gapless. -/
theorem tail_prefix {s : SharedSparseIndices} {slot request length : Nat} {position : Int}
    (hcaptured : 0 ≤ s.capturedLen slot request) (hposition : position < length) :
    (s.tail slot request position).filter (isValid length) <+: s.tail slot request position := by
  refine filter_prefix_of_front (m := (position + 1 - s.capturedLen slot request).toNat) ?_
  intro i x hx
  rw [SharedSparseIndices.tail, List.getElem?_map, Option.map_eq_some_iff] at hx
  obtain ⟨offset, hoffset, rfl⟩ := hx
  obtain ⟨_, hi⟩ := List.getElem?_eq_some_iff.mp hoffset
  rw [List.getElem_range] at hi
  subst hi
  dsimp only
  rw [isValid, decide_eq_true_eq]
  split <;> omega

/-- The kernel keeps every selected entry in front where the blocks are: blocks of complete groups
first, padding after them. -/
theorem tritonExpand_gapless {compressRatio tokenTopk length request n : Nat} {blocks : List Int}
    {queryPosition : Int} (hratio : 0 < compressRatio)
    (hfront : ∀ i block, blocks[i]? = some block → (0 ≤ block ↔ i < n))
    (hcomplete : ∀ block ∈ blocks, 0 ≤ block → (block + 1) * compressRatio ≤ length)
    (hquery : 0 ≤ queryPosition) :
    IndexRow.Gapless ⟨tritonExpandQsaBlockIndices compressRatio tokenTopk blocks queryPosition
      length, length, request⟩ := by
  rw [IndexRow.Gapless, IndexRow.selected]
  dsimp only [tritonExpandQsaBlockIndices]
  generalize hcount : blocks.countP (fun block => decide (0 ≤ block)) = count
  have hn : count = min n blocks.length := by
    rw [← hcount]
    exact countP_front fun i block hi => by rw [decide_eq_true_eq]; exact hfront i block hi
  have htailStart := Int.ediv_mul_le (queryPosition + 1) (b := compressRatio) (by omega)
  have htailPos : 0 ≤ (queryPosition + 1) / compressRatio * compressRatio :=
    Int.mul_nonneg (Int.ediv_nonneg (by omega) (by omega)) (by omega)
  generalize (queryPosition + 1) / (compressRatio : Int) * compressRatio = tailStart at *
  generalize hkept : min (count * compressRatio) tokenTopk = kept
  refine filter_prefix_of_front (m := kept + (min (compressRatio - 1 : Int)
    (min (queryPosition + 1 - tailStart) (length - tailStart))).toNat) ?_
  intro col x hx
  rw [List.getElem?_map, Option.map_eq_some_iff] at hx
  obtain ⟨col', hcol', rfl⟩ := hx
  obtain ⟨hlt, hcol⟩ := List.getElem?_eq_some_iff.mp hcol'
  rw [List.getElem_range] at hcol
  subst hcol
  rw [List.length_range] at hlt
  by_cases hblock : col < kept
  · -- a position of a block that was selected
    have hdiv : col / compressRatio < count := by
      rw [Nat.div_lt_iff_lt_mul hratio]
      omega
    have hget : blocks[col / compressRatio]? = some (blocks.getD (col / compressRatio) (-1)) := by
      rw [List.getD_eq_getElem _ _ (by omega), List.getElem?_eq_getElem (by omega)]
    generalize blocks.getD (col / compressRatio) (-1) = block at hget
    have hpos := (hfront _ _ hget).mpr (by omega)
    have hend := hcomplete block (List.mem_of_getElem? hget) hpos
    have hmod := Nat.mod_lt col hratio
    have hlow : 0 ≤ block * (compressRatio : Int) := Int.mul_nonneg hpos (by omega)
    rw [Int.add_mul, Int.one_mul] at hend
    rw [if_pos (c := col < tokenTopk ∧ col / compressRatio < blocks.length) (by omega)]
    rw [if_pos (by omega), isValid, decide_eq_true_eq]
    omega
  · rw [if_neg fun h => hblock h.2, isValid, decide_eq_true_eq]
    split <;> omega

theorem torchExpand_gapless {compressRatio tokenTopk length request : Nat} {blocks : List Int}
    {queryPosition : Int} (hratio : 0 < compressRatio) :
    IndexRow.Gapless ⟨torchExpandQsaBlockIndices compressRatio tokenTopk blocks queryPosition
      length, length, request⟩ := by
  rw [IndexRow.Gapless, IndexRow.selected]
  dsimp only [torchExpandQsaBlockIndices]
  generalize hexpanded : ((blocks.flatMap fun block : Int => (List.range compressRatio).map fun offset : Nat =>
    if 0 ≤ block then block * compressRatio + offset else -1).take tokenTopk).map
      (fun position => if 0 ≤ position ∧ position < (length : Int) then position else -1) = expanded
  generalize htail : (List.range (compressRatio - 1)).map (fun offset : Nat =>
    if (offset : Int) < queryPosition + 1 - (queryPosition + 1) / compressRatio * compressRatio ∧
      (queryPosition + 1) / compressRatio * compressRatio + offset < (length : Int) then
        (queryPosition + 1) / compressRatio * compressRatio + (offset : Int) else -1) = tail
  have hlength : (expanded ++ tail).length ≤ tokenTopk + compressRatio - 1 := by
    rw [← hexpanded, ← htail]
    simp only [List.length_append, List.length_map, List.length_take, List.length_range]
    omega
  have hbound : ∀ position ∈ expanded ++ tail, 0 ≤ position → position < length := by
    intro position hposition hpos
    rw [List.mem_append, ← hexpanded, ← htail, List.mem_map, List.mem_map] at hposition
    rcases hposition with ⟨p, -, rfl⟩ | ⟨offset, -, rfl⟩
    · split at hpos
      · next h =>
        rw [if_pos h]
        exact h.2
      · omega
    · split at hpos
      · next h =>
        rw [if_pos h]
        exact h.2
      · omega
  generalize expanded ++ tail = result at hlength hbound
  generalize hkeyed : (result.zipIdx.map fun entry => (if 0 ≤ entry.1 then entry.2
    else entry.2 + (tokenTopk + compressRatio - 1), entry.1)) = keyed
  have hkeys : ∀ entry ∈ keyed, isValid length entry.2 =
      decide (entry.1 < tokenTopk + compressRatio - 1) := by
    intro entry hentry
    rw [← hkeyed, List.mem_map] at hentry
    obtain ⟨⟨position, i⟩, hmem, rfl⟩ := hentry
    have hi := List.mem_zipIdx_iff_getElem?.mp hmem
    obtain ⟨hlt, -⟩ := List.getElem?_eq_some_iff.mp hi
    have hvalid := hbound position (List.mem_of_getElem? hi)
    dsimp only at hlt ⊢
    rw [isValid, decide_eq_decide]
    split <;> omega
  rw [List.filter_map]
  refine List.IsPrefix.map _ ?_
  have hsame : (keyed.insertionSort fun a b => a.1 ≤ b.1).filter (isValid length ∘ (·.2)) =
      (keyed.insertionSort fun a b => a.1 ≤ b.1).filter
        fun entry => decide (entry.1 < tokenTopk + compressRatio - 1) :=
    List.filter_congr fun entry hentry => hkeys entry
      ((List.perm_insertionSort _ keyed).mem_iff.mp hentry)
  rw [hsame]
  refine filter_prefix_of_sorted (List.pairwise_insertionSort _ keyed) fun a b hab hb => ?_
  rw [decide_eq_true_eq] at hb ⊢
  omega

/-! ## A row with a gap -/

/-- The row of a first draft step after a capture at position 2: one complete block of two, a
budget of two blocks and three drafted positions. -/
def draftRow : Except String (List Int) := do
  let row ← expandQsaBlockIndices true 2 4 [0, -1] 2 3
  let s ← (SharedSparseIndices.init [0] 5 3).capture [(1, row, 3)] 0
  s.lookup 1 3 0

theorem draftRow_eq : draftRow = .ok [0, 1, 2, -1, -1, 3, -1, -1] := rfl

/-- The decode of that row, at position 3 of its request. -/
def draftBatch : Batch where
  topk := 8
  rows := [⟨[0, 1, 2, -1, -1, 3, -1, -1], 4, 1⟩]
  width := by simp

theorem draft_not_packed : ¬ ∀ (batch : Batch) (reqToToken : Nat → Nat → Nat) (heads dim : Nat)
    (pool : KvPool Nat) (f : Floats ℚ Nat) (nvfp4Pool : Nvfp4Pool ℚ),
    (∀ r ∈ batch.rows, draftRow = .ok r.indices) →
    Packs batch reqToToken heads dim pool f nvfp4Pool := by
  intro h
  have hpacks := h draftBatch (fun _ position => position) 1 1 ⟨id, id⟩
    ⟨id, (· * ·), fun _ => 0⟩ ⟨fun _ => 0, fun _ => 0, fun _ => 0, fun _ => 0, 0, 0⟩
    (by simp [draftBatch, draftRow_eq])
  have hgapless := (compactKv_holds_iff Nat.one_pos Nat.one_pos).mp hpacks.bf16
    ⟨[0, 1, 2, -1, -1, 3, -1, -1], 4, 1⟩ (List.mem_singleton.mpr rfl)
  exact absurd hgapless (by unfold IndexRow.Gapless; decide)

end Qsa
end FlashNext
