import FlashNext.Ngram.Context
import FlashNext.Tensor.Ragged

/-!
# The places of the tokens

A layout puts each token behind the start of its row (`Rows.Placed.place`), and each token of a
request stands in the request's row (`Rows.Placed.found`).
-/

namespace FlashNext
namespace Ngram

open Effect
open Tensor (cumsum searchsortedRight)

theorem getD_map_range {α : Type} {f : Nat → α} {n i : Nat} {d : α} (h : i < n) :
    ((List.range n).map f).getD i d = f i := by
  have hlen : i < ((List.range n).map f).length := by
    rw [List.length_map, List.length_range]
    exact h
  rw [List.getD_eq_getElem _ _ hlen, List.getElem_map, List.getElem_range]

theorem getD_range {n i : Nat} (h : i < n) : (List.range n).getD i 0 = i := by
  have hlen : i < (List.range n).length := by
    rw [List.length_range]
    exact h
  rw [List.getD_eq_getElem _ _ hlen, List.getElem_range]

/-- Where the tokens stand: `extent` of each row from its start on. -/
structure Rows.Placed (rows : Rows) (start extent : Nat → Nat) (n : Nat) : Prop where
  reqs : rows.reqIndices.length = n
  offsets : rows.tokenOffsets.length = n
  place : ∀ p < n, start (rows.reqIndices.getD p 0) + rows.tokenOffsets.getD p 0 = p
  found : ∀ r < rows.lengths.length, ∀ t < extent r, start r + t < n ∧
    rows.reqIndices.getD (start r + t) 0 = r ∧ rows.tokenOffsets.getD (start r + t) 0 = t

/-! ## Rows of one width -/

theorem fixedRows_placed {lengths : List Nat} {width n : Nat} (hwidth : 0 < width)
    (hn : lengths.length * width = n) :
    (fixedRows lengths width n).Placed (· * width) (fun _ => width) n where
  reqs := by rw [fixedRows, List.length_map, List.length_range]
  offsets := by rw [fixedRows, List.length_map, List.length_range]
  place p hp := by
    rw [fixedRows, getD_map_range hp, getD_map_range hp]
    have hle : p / width * width ≤ p := Nat.div_mul_le_self p width
    omega
  found r hr t ht := by
    have hr : r < lengths.length := hr
    have hlt : r * width + t < n := by
      have hle : (r + 1) * width ≤ lengths.length * width := Nat.mul_le_mul_right width hr
      rw [Nat.succ_mul] at hle
      omega
    have hdiv : (r * width + t) / width = r := by
      rw [Nat.mul_comm, Nat.mul_add_div hwidth, Nat.div_eq_of_lt ht, Nat.add_zero]
    refine ⟨hlt, ?_, ?_⟩
    · rw [fixedRows, getD_map_range hlt, hdiv]
    · rw [fixedRows, getD_map_range hlt, hdiv, Nat.add_sub_cancel_left]

theorem decodeRows_placed (n : Nat) : (decodeRows n).Placed (· * 1) (fun _ => 1) n where
  reqs := by rw [decodeRows, List.length_range]
  offsets := by rw [decodeRows, List.length_replicate]
  place p hp := by
    rw [decodeRows, getD_range hp, List.getD_replicate _ hp, Nat.mul_one, Nat.add_zero]
  found r hr t ht := by
    have hr : r < n := by
      have hlen : r < (List.replicate n 1).length := hr
      rwa [List.length_replicate] at hlen
    have ht : t = 0 := by omega
    rw [ht, Nat.mul_one, Nat.add_zero, decodeRows]
    exact ⟨hr, getD_range hr, List.getD_replicate _ hr⟩

/-! ## Rows of their own lengths -/

section

variable {lengths : List Nat} {p r : Nat}

theorem getD_queryStartLoc (hr : r < lengths.length) :
    (0 :: cumsum lengths).getD r 0 = (lengths.take r).sum := by
  cases r with
  | zero => rfl
  | succ r =>
    have hlen : r < (cumsum lengths).length := by
      rw [Tensor.length_cumsum]
      exact Nat.lt_of_succ_lt hr
    rw [List.getD_cons_succ, List.getD_eq_getElem _ _ hlen, Tensor.getElem_cumsum]

theorem searchsortedRight_queryStartLoc :
    searchsortedRight (0 :: cumsum lengths) p - 1 = searchsortedRight (cumsum lengths) p := by
  have hzero : decide (p < 0) = false := decide_eq_false (Nat.not_lt_zero p)
  rw [searchsortedRight, List.findIdx_cons, hzero]
  exact Nat.add_sub_cancel _ 1

theorem searchsortedRight_of_le (h : lengths.sum ≤ p) :
    searchsortedRight (cumsum lengths) p = lengths.length := by
  have hlen : (cumsum lengths).length = lengths.length := Tensor.length_cumsum
  rw [← hlen]
  refine List.findIdx_eq_length.mpr fun stop hstop => decide_eq_false (Nat.not_lt.mpr ?_)
  obtain ⟨i, hi, rfl⟩ := List.getElem_of_mem hstop
  rw [Tensor.getElem_cumsum]
  have hle : (lengths.take (i + 1)).sum ≤ lengths.sum :=
    (List.take_sublist _ _).sum_le_sum fun _ _ => Nat.zero_le _
  omega

/-- The row of a token starts no later than the token. -/
theorem start_le (hlengths : lengths ≠ []) :
    (lengths.take (min (searchsortedRight (cumsum lengths) p) (lengths.length - 1))).sum ≤ p := by
  have hpos := List.length_pos_iff.mpr hlengths
  by_cases hsum : p < lengths.sum
  · obtain ⟨i, hi, hlow, hhigh⟩ := Tensor.exists_row hsum
    rw [Tensor.searchsortedRight_cumsum hi hlow hhigh, Nat.min_eq_left (by omega)]
    exact hlow
  · have hsum := Nat.le_of_not_lt hsum
    rw [searchsortedRight_of_le hsum, Nat.min_eq_right (by omega)]
    have hle : (lengths.take (lengths.length - 1)).sum ≤ lengths.sum :=
      (List.take_sublist _ _).sum_le_sum fun _ _ => Nat.zero_le _
    omega

end

theorem extendRows_placed {fb : ForwardBatch} {text : String} {n : Nat} {rows : Rows}
    (h : extendRows fb text n = .ok rows) (hsum : rows.lengths.sum ≤ n) :
    rows.Placed (fun r => (rows.lengths.take r).sum) (fun r => rows.lengths.getD r 0) n := by
  unfold extendRows at h
  split at h
  · cases h
  · next lengths hlengths =>
    simp only [bind_ok, pure_ok, require_ok, searchsortedRight_queryStartLoc] at h
    obtain ⟨-, hrows, rfl⟩ := h
    have hnonempty : 0 < n → lengths ≠ [] := by
      intro hn hnil
      rw [hnil] at hrows
      simp only [List.isEmpty_nil, Bool.not_true, Bool.or_false, beq_iff_eq] at hrows
      omega
    have hreq : ∀ {p}, p < n → (lengths.take (min (searchsortedRight (cumsum lengths) p)
        (lengths.length - 1))).sum ≤ p ∧
        (0 :: cumsum lengths).getD (min (searchsortedRight (cumsum lengths) p)
          (lengths.length - 1)) 0 =
        (lengths.take (min (searchsortedRight (cumsum lengths) p) (lengths.length - 1))).sum := by
      intro p hp
      have hne := hnonempty (Nat.zero_lt_of_lt hp)
      have hpos := List.length_pos_iff.mpr hne
      exact ⟨start_le hne, getD_queryStartLoc (by omega)⟩
    refine ⟨?_, ?_, fun p hp => ?_, fun r hr t ht => ?_⟩
    · rw [List.length_map, List.length_range]
    · rw [List.length_map, List.length_range]
    · obtain ⟨hle, hstart⟩ := hreq hp
      rw [getD_map_range hp, getD_map_range hp, getD_map_range hp, hstart]
      exact Nat.add_sub_cancel' hle
    · have hr : r < lengths.length := hr
      have ht : t < lengths.getD r 0 := ht
      have hhigh : (lengths.take (r + 1)).sum = (lengths.take r).sum + lengths.getD r 0 :=
        Tensor.sum_take_succ_getD lengths r
      have hle : (lengths.take (r + 1)).sum ≤ lengths.sum :=
        (List.take_sublist _ _).sum_le_sum fun _ _ => Nat.zero_le _
      have hsum : lengths.sum ≤ n := hsum
      have hlt : (lengths.take r).sum + t < n := by omega
      have hrow : min (searchsortedRight (cumsum lengths) ((lengths.take r).sum + t))
          (lengths.length - 1) = r := by
        rw [Tensor.searchsortedRight_cumsum hr (Nat.le_add_right _ t) (by omega),
          Nat.min_eq_left (by omega)]
      refine ⟨hlt, ?_, ?_⟩
      · rw [getD_map_range hlt, hrow]
      · rw [getD_map_range hlt, getD_map_range hlt, hrow, getD_queryStartLoc hr,
          Nat.add_sub_cancel_left]

/-! ## Layouts -/

/-- The position at which a row starts among the tokens. -/
def Layout.start (l : Layout) (r : Nat) : Nat :=
  match l.mode with
  | .extend _ => (l.lengths.take r).sum
  | _ => r * l.rowWidth

/-- How many positions behind the start belong to a row. -/
def Layout.extent (l : Layout) (r : Nat) : Nat :=
  match l.mode with
  | .extend _ => l.lengths.getD r 0
  | _ => l.rowWidth

/-- All tokens of an extension are there. -/
def Layout.Covered (l : Layout) : Prop :=
  match l.mode with
  | .extend _ => l.lengths.sum ≤ l.processedTokens
  | _ => True

/-- The tokens of a request. -/
def Layout.request {α : Type} (l : Layout) (xs : List α) (r : Nat) : List α :=
  (xs.drop (l.start r)).take (min (l.lengths.getD r 0) l.rowWidth)

/-- What is known of the layout of a pass. -/
structure Layout.Laid (l : Layout) : Prop where
  slots : l.stateIndices.length = l.lengths.length
  placed : l.Covered → l.toRows.Placed l.start l.extent l.processedTokens
  processed_le : l.processedTokens ≤ l.physicalTokens
  valid : l.Covered → ∀ p < l.processedTokens, l.validTokens.getD p false =
    decide (l.tokenOffsets.getD p 0 < l.lengths.getD (l.reqIndices.getD p 0) 0)
  valid_length : l.Covered → l.validTokens.length = l.processedTokens
  verify : l.mode = .targetVerify → l.lengths.length * l.rowWidth = l.processedTokens
  decode : l.mode = .decode → l.toRows = decodeRows l.processedTokens
  fast : l.useDecodeFastPath = true → l.mode = .decode

section

variable {E : Setting} {fb : ForwardBatch} {mode : ForwardMode} {fast : Bool} {rows : Rows}
  {n physical : Nat} {slots : List Nat}

theorem processedTokenCount_le (h : processedTokenCount fb physical = .ok n) : n ≤ physical := by
  unfold processedTokenCount at h
  split at h
  · exact Nat.le_of_eq (Except.ok.inj h).symm
  · split at h
    · next hbound =>
      obtain rfl := Except.ok.inj h
      omega
    · cases h

theorem whereOrZero_ok {mask : List Bool} {values out : List Nat}
    (h : whereOrZero mask values = .ok out) : out.length = values.length := by
  unfold whereOrZero at h
  split at h
  · next hlen =>
    obtain rfl := Except.ok.inj h
    rw [List.length_zipWith, hlen, Nat.min_self]
  · cases h

theorem stateIndicesOf_length (h : stateIndicesOf fb mode fast rows n = .ok slots) :
    slots.length = rows.lengths.length := by
  unfold stateIndicesOf at h
  simp only [bind_ok, require_ok, beq_iff_eq] at h
  obtain ⟨-, hlen, h⟩ := h
  split at h
  · split at h
    · exact (whereOrZero_ok h).trans hlen
    · obtain rfl := pure_ok.mp h
      exact hlen
  · obtain ⟨valid, -, h⟩ := bind_ok.mp h
    exact (whereOrZero_ok h).trans hlen

theorem verifyRows_ok (h : verifyRows fb n = .ok rows) :
    0 < rows.rowWidth ∧ rows.lengths.length * rows.rowWidth = n ∧
      rows = fixedRows rows.lengths rows.rowWidth n := by
  unfold verifyRows at h
  split at h
  · cases h
  · next spec hspec =>
    simp only [bind_ok, pure_ok, require_ok, Bool.and_eq_true, decide_eq_true_eq, beq_iff_eq] at h
    obtain ⟨-, ⟨hpos, hmod⟩, -, hlen, rfl⟩ := h
    refine ⟨?_, ?_, rfl⟩
    · show 0 < spec.draftTokenNum.toNat
      omega
    · rw [fixedRows, hlen]
      exact Nat.div_mul_cancel (Nat.dvd_of_mod_eq_zero hmod)

theorem getD_zipWith_valid {rows : Rows} {n p : Nat} (hreqs : rows.reqIndices.length = n)
    (hoffsets : rows.tokenOffsets.length = n) (hp : p < n) :
    (validTokensOf false rows n).getD p false =
      decide (rows.tokenOffsets.getD p 0 < rows.lengths.getD (rows.reqIndices.getD p 0) 0) := by
  have hr : p < rows.reqIndices.length := hreqs.symm ▸ hp
  have ho : p < rows.tokenOffsets.length := hoffsets.symm ▸ hp
  have hz : p < (validTokensOf false rows n).length := by
    rw [validTokensOf, if_neg Bool.false_ne_true, List.length_zipWith]
    exact Nat.lt_min.mpr ⟨hr, ho⟩
  rw [List.getD_eq_getElem _ _ hz, List.getD_eq_getElem _ _ ho, List.getD_eq_getElem _ _ hr]
  simp only [validTokensOf, Bool.false_eq_true, if_false, List.getElem_zipWith]

theorem valid_of_placed {rows : Rows} {start extent : Nat → Nat} {n : Nat} {fast : Bool}
    (h : rows.Placed start extent n) (hfast : fast = true → rows = decodeRows n) :
    (∀ p < n, (validTokensOf fast rows n).getD p false =
      decide (rows.tokenOffsets.getD p 0 < rows.lengths.getD (rows.reqIndices.getD p 0) 0)) ∧
      (validTokensOf fast rows n).length = n := by
  cases fast with
  | false =>
    refine ⟨fun p hp => getD_zipWith_valid h.reqs h.offsets hp, ?_⟩
    rw [validTokensOf, if_neg Bool.false_ne_true, List.length_zipWith, h.reqs, h.offsets,
      Nat.min_self]
  | true =>
    obtain rfl := hfast rfl
    rw [validTokensOf, if_pos rfl]
    refine ⟨fun p hp => ?_, List.length_replicate⟩
    rw [List.getD_replicate _ hp, decodeRows, List.getD_replicate _ hp, getD_range hp,
      List.getD_replicate _ hp]
    rfl

/-- What `_prepare_ple_batch` builds is laid. -/
theorem layoutOf_laid {l : Layout} (h : layoutOf E fb physical = .ok (some l)) : l.Laid := by
  unfold layoutOf at h
  simp only [bind_ok, require_ok] at h
  obtain ⟨-, -, -, -, -, -, h⟩ := h
  split at h
  · cases pure_ok.mp h
  · next hidle =>
    simp only [bind_ok, pure_ok, Option.some.injEq] at h
    obtain ⟨n, hn, rows, hrows, slots, hslots, rfl⟩ := h
    have hle := processedTokenCount_le hn
    have hlen := stateIndicesOf_length hslots
    have hfast : (E.enablePleFusion && decide (pleForwardMode fb = .decode)) = true →
        pleForwardMode fb = .decode := by
      rw [Bool.and_eq_true, decide_eq_true_eq]
      exact And.right
    unfold rowsOf at hrows
    cases hmode : pleForwardMode fb with
    | idle => exact absurd hmode hidle
    | decode =>
      rw [hmode] at hrows
      obtain rfl := Except.ok.inj hrows
      have hplaced := decodeRows_placed n
      have hvalid : ∀ fast, _ := fun fast : Bool =>
        valid_of_placed hplaced fun _ : fast = true => rfl
      exact {
        slots := hlen
        placed := fun _ => hplaced
        processed_le := hle
        valid := fun _ => (hvalid _).1
        valid_length := fun _ => (hvalid _).2
        verify := fun h => by cases h
        decode := fun _ => rfl
        fast := fun _ => rfl }
    | targetVerify =>
      rw [hmode] at hrows
      obtain ⟨hpos, htotal, hrows⟩ := verifyRows_ok hrows
      have hplaced : rows.Placed (· * rows.rowWidth) (fun _ => rows.rowWidth) n := by
        have hfixed := fixedRows_placed hpos htotal
        rw [← hrows] at hfixed
        exact hfixed
      have hslow : ∀ {fast : Bool}, (fast = true → pleForwardMode fb = .decode) →
          fast = true → rows = decodeRows n := by
        intro fast hfast h
        rw [hmode] at hfast
        cases hfast h
      have hvalid := valid_of_placed hplaced (hslow hfast)
      rw [hmode] at hvalid
      exact {
        slots := hlen
        placed := fun _ => hplaced
        processed_le := hle
        valid := fun _ => hvalid.1
        valid_length := fun _ => hvalid.2
        verify := fun _ => htotal
        decode := fun h => by cases h
        fast := fun h => by
          rw [hmode] at hfast
          exact hfast h }
    | extend text =>
      rw [hmode] at hrows
      have hplaced := extendRows_placed hrows
      have hslow : ∀ {fast : Bool}, (fast = true → pleForwardMode fb = .decode) →
          fast = true → rows = decodeRows n := by
        intro fast hfast h
        rw [hmode] at hfast
        cases hfast h
      have hvalid := fun hsum => valid_of_placed (hplaced hsum) (hslow hfast)
      rw [hmode] at hvalid
      exact {
        slots := hlen
        placed := hplaced
        processed_le := hle
        valid := fun h => (hvalid h).1
        valid_length := fun h => (hvalid h).2
        verify := fun h => by cases h
        decode := fun h => by cases h
        fast := fun h => by
          rw [hmode] at hfast
          exact hfast h }

theorem layoutOf_physical {l : Layout} (h : layoutOf E fb physical = .ok (some l)) :
    l.physicalTokens = physical := by
  unfold layoutOf at h
  simp only [bind_ok] at h
  obtain ⟨-, -, -, -, -, -, h⟩ := h
  split at h
  · cases pure_ok.mp h
  · simp only [bind_ok, pure_ok, Option.some.injEq] at h
    obtain ⟨n, -, rows, -, slots, -, rfl⟩ := h
    rfl

end

end Ngram
end FlashNext
