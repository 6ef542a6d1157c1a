import FlashNext.Qsa.Select
import FlashNext.Tensor.Compact

/-!
# The expansion of the selected blocks

For a query the selection returns as many of the visible blocks as fit, in any order, and padding.
Both expansions make the same row of it: the tokens of the blocks, the tokens behind the last
complete group, and padding (`torchExpand_eq`, `tritonExpand_eq`).
-/

namespace FlashNext
namespace Qsa

open Tensor (cumsum)

/-! ## The selection -/

/-- `build_qsa_row_ranges`, of one query: where the row starts and ends. -/
def buildQsaRowRange (compressRatio : Nat) (sequenceLengths : List Nat) (queryPosition sequence : Nat) :
    Nat × Nat :=
  let compressedLengths := sequenceLengths.map (· / compressRatio)
  let rowStart := (0 :: cumsum compressedLengths).getD sequence 0
  let visibleBlocks := (queryPosition + 1) / compressRatio
  (rowStart, rowStart + min visibleBlocks (compressedLengths.getD sequence 0))

/-- `qsa_fast_topk` of one row, where `topk` stands for the indices of `torch.topk`. -/
def qsaFastTopk {α : Type} (topk : List α → Nat → List Nat) (logits : List α) (range : Nat × Nat)
    (blockTopk : Nat) : List Int :=
  let length := range.2 - range.1
  let width := min length blockTopk
  let kept := topk ((logits.drop range.1).take length) width
  kept.map (fun block : Nat => (block : Int)) ++ List.replicate (blockTopk - width) (-1)

/-- The blocks that can be selected for a query: as many of the complete groups up to its position
as the row has room for, each once. -/
structure Selectable (compressRatio blockTopk queryPosition : Nat) (blocks : List Nat) : Prop where
  nodup : blocks.Nodup
  visible : ∀ block ∈ blocks, block < (queryPosition + 1) / compressRatio
  full : blocks.length = min ((queryPosition + 1) / compressRatio) blockTopk

/-- The row of a selection. -/
def blockRow (blockTopk : Nat) (blocks : List Nat) : List Int :=
  blocks.map (fun block : Nat => (block : Int)) ++ List.replicate (blockTopk - blocks.length) (-1)

/-- The positions of the row: the tokens of the blocks and those behind the last complete group. -/
def positions (compressRatio queryPosition : Nat) (blocks : List Nat) : List Nat :=
  (blocks.flatMap fun block => (List.range compressRatio).map fun offset =>
    block * compressRatio + offset) ++
  (List.range ((queryPosition + 1) % compressRatio)).map fun offset =>
    (queryPosition + 1) / compressRatio * compressRatio + offset

/-- The row of both expansions. -/
def expandedRow (compressRatio blockTopk queryPosition : Nat) (blocks : List Nat) : List Int :=
  (positions compressRatio queryPosition blocks).map (fun position : Nat => (position : Int)) ++
    List.replicate (blockTopk * compressRatio + compressRatio - 1 -
      (positions compressRatio queryPosition blocks).length) (-1)

variable {r k p L : Nat} {blocks : List Nat}

/-! ## What can be selected -/

theorem buildQsaRowRange_length {sequenceLengths : List Nat} {sequence : Nat}
    (hsequence : sequenceLengths[sequence]? = some L) (hp : p < L) :
    (buildQsaRowRange r sequenceLengths p sequence).2 -
      (buildQsaRowRange r sequenceLengths p sequence).1 = (p + 1) / r := by
  have hcompressed : (sequenceLengths.map (· / r)).getD sequence 0 = L / r := by
    rw [List.getD_eq_getElem?_getD, List.getElem?_map, hsequence]
    rfl
  have hvisible : (p + 1) / r ≤ L / r := Nat.div_le_div_right hp
  unfold buildQsaRowRange
  dsimp only
  rw [hcompressed, Nat.min_eq_left hvisible, Nat.add_sub_cancel_left]

/-- The reference selects what can be selected, where `torch.topk` returns different places. -/
theorem qsaFastTopk_selectable {α : Type} {topk : List α → Nat → List Nat} {logits : List α}
    {sequenceLengths : List Nat} {sequence : Nat}
    (hsequence : sequenceLengths[sequence]? = some L) (hp : p < L)
    (hlogits : (buildQsaRowRange r sequenceLengths p sequence).2 ≤ logits.length)
    (htopk : ∀ row width, width ≤ row.length → (topk row width).length = width ∧
      (topk row width).Nodup ∧ ∀ block ∈ topk row width, block < row.length) :
    ∃ blocks, Selectable r k p blocks ∧
      qsaFastTopk topk logits (buildQsaRowRange r sequenceLengths p sequence) k =
        blockRow k blocks := by
  have hlength := buildQsaRowRange_length (r := r) hsequence hp
  have hrow : ((logits.drop (buildQsaRowRange r sequenceLengths p sequence).1).take
      ((p + 1) / r)).length = (p + 1) / r := by
    rw [List.length_take, List.length_drop]
    omega
  obtain ⟨hcount, hnodup, hbound⟩ := htopk _ (min ((p + 1) / r) k)
    (Nat.le_trans (Nat.min_le_left _ _) (Nat.le_of_eq hrow.symm))
  refine ⟨_, ⟨hnodup, fun block hblock => ?_, hcount⟩, ?_⟩
  · rw [← hrow]
    exact hbound block hblock
  · unfold qsaFastTopk blockRow
    dsimp only
    rw [hlength, hcount]

/-! ## The positions -/

theorem length_positions (r p : Nat) (blocks : List Nat) :
    (positions r p blocks).length = blocks.length * r + (p + 1) % r := by
  rw [positions, Tensor.flatMap_range (fun block offset => block * r + offset) 0,
    List.length_append, List.length_map, List.length_map, List.length_range, List.length_range]

theorem mem_positions {q : Nat} : q ∈ positions r p blocks ↔
    (∃ block ∈ blocks, block * r ≤ q ∧ q < (block + 1) * r) ∨
      (r * ((p + 1) / r) ≤ q ∧ q ≤ p) := by
  have hsplit := Nat.div_add_mod (p + 1) r
  rw [positions, List.mem_append, List.mem_flatMap]
  refine or_congr ?_ ?_
  · refine exists_congr fun block => and_congr_right fun _ => ?_
    rw [List.mem_map, Nat.succ_mul]
    constructor
    · rintro ⟨offset, hoffset, rfl⟩
      have hoffset := List.mem_range.mp hoffset
      omega
    · rintro ⟨hlow, hhigh⟩
      exact ⟨q - block * r, List.mem_range.mpr (by omega), by omega⟩
  · rw [List.mem_map, Nat.mul_comm ((p + 1) / r) r]
    constructor
    · rintro ⟨offset, hoffset, rfl⟩
      have hoffset := List.mem_range.mp hoffset
      omega
    · rintro ⟨hlow, hhigh⟩
      exact ⟨q - r * ((p + 1) / r), List.mem_range.mpr (by omega), by omega⟩

theorem positions_le (h : Selectable r k p blocks) :
    ∀ q ∈ positions r p blocks, q ≤ p := by
  intro q hq
  rcases mem_positions.mp hq with ⟨block, hblock, -, hhigh⟩ | ⟨-, hhigh⟩
  · have hvisible : (block + 1) * r ≤ (p + 1) / r * r :=
      Nat.mul_le_mul_right r (h.visible block hblock)
    have hgroups := Nat.div_mul_le_self (p + 1) r
    omega
  · exact hhigh

theorem positions_nodup (h : Selectable r k p blocks) : (positions r p blocks).Nodup := by
  rw [positions, List.nodup_append]
  refine ⟨List.nodup_flatMap.mpr ⟨fun block _ => ?_, ?_⟩, ?_, ?_⟩
  · refine List.Nodup.map (fun x y hxy => ?_) List.nodup_range
    exact Nat.add_left_cancel hxy
  · refine h.nodup.imp fun {a b} hab => ?_
    -- Different blocks share no token.
    intro q ha hb
    obtain ⟨x, hx, rfl⟩ := List.mem_map.mp ha
    obtain ⟨y, hy, heq⟩ := List.mem_map.mp hb
    have hx := List.mem_range.mp hx
    have hy := List.mem_range.mp hy
    have hdiv : ∀ block offset : Nat, offset < r → (block * r + offset) / r = block := by
      intro block offset hoffset
      rw [Nat.mul_comm, Nat.mul_add_div (Nat.zero_lt_of_lt hoffset), Nat.div_eq_of_lt hoffset,
        Nat.add_zero]
    have hsame : (b * r + y) / r = (a * r + x) / r := congrArg (· / r) heq
    rw [hdiv b y hy, hdiv a x hx] at hsame
    exact hab hsame.symm
  · refine List.Nodup.map (fun x y hxy => ?_) List.nodup_range
    exact Nat.add_left_cancel hxy
  · intro q hq q' hq' heq
    obtain ⟨block, hblock, hq⟩ := List.mem_flatMap.mp hq
    obtain ⟨x, hx, rfl⟩ := List.mem_map.mp hq
    obtain ⟨y, hy, rfl⟩ := List.mem_map.mp hq'
    have hx := List.mem_range.mp hx
    have hbelow : (block + 1) * r ≤ (p + 1) / r * r :=
      Nat.mul_le_mul_right r (h.visible block hblock)
    rw [Nat.succ_mul] at hbelow
    omega

/-- Where all visible blocks fit, all positions up to the query are there. -/
theorem mem_positions_of_fits (hr : 0 < r) (h : Selectable r k p blocks)
    (hfits : (p + 1) / r ≤ k) {q : Nat} : q ∈ positions r p blocks ↔ q ≤ p := by
  refine ⟨positions_le h q, fun hq => mem_positions.mpr ?_⟩
  by_cases htail : r * ((p + 1) / r) ≤ q
  · exact .inr ⟨htail, hq⟩
  · refine .inl ⟨q / r, ?_, Nat.div_mul_le_self q r, ?_⟩
    · have hall : (List.range ((p + 1) / r)).Perm blocks := by
        have hsubset : blocks ⊆ List.range ((p + 1) / r) :=
          fun block hblock => List.mem_range.mpr (h.visible block hblock)
        have hlength : (List.range ((p + 1) / r)).length ≤ blocks.length := by
          rw [List.length_range, h.full, Nat.min_eq_left hfits]
        exact ((List.subperm_of_subset h.nodup hsubset).perm_of_length_le hlength).symm
      refine hall.mem_iff.mp (List.mem_range.mpr ?_)
      rw [Nat.div_lt_iff_lt_mul hr, Nat.mul_comm]
      omega
    · rw [Nat.succ_mul]
      exact Nat.lt_div_mul_add hr

/-! ## The two expansions -/

/-- The tokens of the blocks, in the order of the selection. -/
def blockTokens (r : Nat) (blocks : List Nat) : List Nat :=
  blocks.flatMap fun block => (List.range r).map fun offset => block * r + offset

/-- The tokens behind the last complete group. -/
def tailTokens (r p : Nat) : List Nat :=
  (List.range ((p + 1) % r)).map fun offset => (p + 1) / r * r + offset

theorem length_blockTokens (r : Nat) (blocks : List Nat) :
    (blockTokens r blocks).length = blocks.length * r := by
  rw [blockTokens, Tensor.flatMap_range (fun block offset => block * r + offset) 0,
    List.length_map, List.length_range]

/-- Every token of the row is one of the sequence. -/
theorem positions_lt (hp : p < L) (h : Selectable r k p blocks) :
    ∀ q ∈ blockTokens r blocks ++ tailTokens r p, q < L := fun q hq =>
  Nat.lt_of_le_of_lt (positions_le h q hq) hp

theorem expand_blockRow (r k : Nat) (blocks : List Nat) :
    ((blockRow k blocks).flatMap fun block : Int => (List.range r).map fun offset : Nat =>
      if 0 ≤ block then block * r + offset else -1) =
      (blockTokens r blocks).map (fun q : Nat => (q : Int)) ++
        List.replicate ((k - blocks.length) * r) (-1) := by
  rw [blockRow, List.flatMap_append, List.flatMap_map, blockTokens, List.map_flatMap]
  congr 1
  · refine List.flatMap_congr fun block _ => ?_
    rw [List.map_map]
    refine List.map_congr_left fun offset _ => ?_
    rw [if_pos (Int.natCast_nonneg block)]
    exact (Int.natCast_add _ _).symm
  · have hpadding : (List.range r).map (fun offset : Nat =>
        if (0 : Int) ≤ -1 then (-1 : Int) * r + offset else -1) = List.replicate r (-1) := by
      rw [List.map_congr_left fun offset _ => if_neg (by decide), List.map_const', List.length_range]
    rw [List.flatMap_replicate, hpadding, List.flatten_replicate_replicate]

/-- The tail of the reference: the tokens behind the last complete group, and padding. -/
theorem expand_tail (hr : 0 < r) (hp : p < L) :
    ((List.range (r - 1)).map fun offset : Nat =>
      if (offset : Int) < (p : Int) + 1 - ((p : Int) + 1) / r * r ∧
        ((p : Int) + 1) / r * r + offset < (L : Int) then ((p : Int) + 1) / r * r + offset else -1) =
      (tailTokens r p).map (fun q : Nat => (q : Int)) ++
        List.replicate (r - 1 - (p + 1) % r) (-1) := by
  have hstart : ((p : Int) + 1) / r * r = (((p + 1) / r * r : Nat) : Int) := by
    rw [Int.natCast_mul, Int.natCast_ediv, Int.natCast_add]
    rfl
  have hsplit := Nat.div_add_mod' (p + 1) r
  have hmod := Nat.mod_lt (p + 1) hr
  have hrange : r - 1 = (p + 1) % r + (r - 1 - (p + 1) % r) := by omega
  rw [hstart, tailTokens, List.map_map]
  generalize (p + 1) / r * r = start at hsplit ⊢
  generalize (p + 1) % r = count at hsplit hmod hrange ⊢
  rw [hrange, List.range_add, List.map_append, List.map_map, Nat.add_sub_cancel_left]
  congr 1
  · refine List.map_congr_left fun offset hoffset => ?_
    have hoffset := List.mem_range.mp hoffset
    rw [if_pos (by omega)]
    exact (Int.natCast_add _ _).symm
  · refine List.eq_replicate_iff.mpr ⟨by rw [List.length_map, List.length_range], fun q hq => ?_⟩
    obtain ⟨offset, -, rfl⟩ := List.mem_map.mp hq
    refine if_neg (c := ((count + offset : Nat) : Int) < (p : Int) + 1 - (start : Nat) ∧
      ((start : Nat) : Int) + ((count + offset : Nat) : Int) < L) ?_
    omega

theorem keyed_eq_places (width : Nat) (result : List Int) :
    (result.zipIdx.map fun entry => (if 0 ≤ entry.1 then entry.2 else entry.2 + width, entry.1)) =
      Tensor.places (fun position => decide (0 ≤ position)) width result := by
  unfold Tensor.places
  simp only [decide_eq_true_eq]

/-- The reference: the tokens of the blocks are valid, so is the tail, and the sort puts both in
front of the padding. -/
theorem torchExpand_eq (hr : 0 < r) (hp : p < L) (h : Selectable r k p blocks) :
    torchExpandQsaBlockIndices r (k * r) (blockRow k blocks) p L = expandedRow r k p blocks := by
  have hm : blocks.length ≤ k := by
    rw [h.full]
    exact Nat.min_le_right _ _
  have hwidth : blocks.length * r + (k - blocks.length) * r = k * r := by
    rw [← Nat.add_mul, Nat.add_sub_cancel' hm]
  have hmod := Nat.mod_lt (p + 1) hr
  have hexpanded : (((blockTokens r blocks).map (fun q : Nat => (q : Int)) ++
      List.replicate ((k - blocks.length) * r) (-1)).take (k * r)).map
        (fun position => if 0 ≤ position ∧ position < (L : Int) then position else -1) =
      (blockTokens r blocks).map (fun q : Nat => (q : Int)) ++
        List.replicate ((k - blocks.length) * r) (-1) := by
    rw [List.take_of_length_le (by
      rw [List.length_append, List.length_map, List.length_replicate, length_blockTokens, hwidth])]
    refine (List.map_congr_left fun position hposition => ?_).trans (List.map_id' _)
    rcases List.mem_append.mp hposition with hposition | hposition
    · obtain ⟨q, hq, rfl⟩ := List.mem_map.mp hposition
      have hlt := positions_lt hp h q (List.mem_append_left _ hq)
      exact if_pos ⟨Int.natCast_nonneg q, Int.ofNat_lt.mpr hlt⟩
    · rw [List.eq_of_mem_replicate hposition]
      rfl
  have hkept : ∀ tokens : List Nat, (tokens.map fun q : Nat => (q : Int)).filter
      (fun position => decide (0 ≤ position)) = tokens.map fun q : Nat => (q : Int) := by
    intro tokens
    refine List.filter_eq_self.mpr fun position hposition => ?_
    obtain ⟨q, -, rfl⟩ := List.mem_map.mp hposition
    exact decide_eq_true (Int.natCast_nonneg q)
  have hdropped : ∀ tokens : List Nat, (tokens.map fun q : Nat => (q : Int)).filter
      (fun position => !decide (0 ≤ position)) = [] := by
    intro tokens
    refine List.filter_eq_nil_iff.mpr fun position hposition => ?_
    obtain ⟨q, -, rfl⟩ := List.mem_map.mp hposition
    simp
  have hpadding : ∀ n : Nat, (List.replicate n (-1 : Int)).filter
      (fun position => decide (0 ≤ position)) = [] ∧ (List.replicate n (-1 : Int)).filter
      (fun position => !decide (0 ≤ position)) = List.replicate n (-1) := by
    intro n
    exact ⟨List.filter_replicate_of_neg (by decide), List.filter_replicate_of_pos (by decide)⟩
  unfold torchExpandQsaBlockIndices
  dsimp only
  rw [expand_blockRow, hexpanded, expand_tail hr hp]
  rw [keyed_eq_places, Tensor.sorted_places]
  · simp only [List.filter_append, hkept, hdropped, (hpadding _).1, (hpadding _).2,
      List.append_nil, List.nil_append]
    have hpositions : positions r p blocks = blockTokens r blocks ++ tailTokens r p := rfl
    rw [expandedRow, hpositions, List.map_append, List.replicate_append_replicate,
      ← hpositions, length_positions]
    congr 2
    omega
  · have hcount : (tailTokens r p).length = (p + 1) % r := by
      rw [tailTokens, List.length_map, List.length_range]
    simp only [List.length_append, List.length_map, List.length_replicate, length_blockTokens,
      hcount]
    omega

theorem countP_blockRow (k : Nat) (blocks : List Nat) :
    (blockRow k blocks).countP (fun block => decide (0 ≤ block)) = blocks.length := by
  rw [blockRow, List.countP_append, List.countP_map, List.countP_replicate]
  have hall : blocks.countP ((fun block : Int => decide (0 ≤ block)) ∘ fun block : Nat => (block : Int)) =
      blocks.length :=
    List.countP_eq_length.mpr fun block _ => decide_eq_true (Int.natCast_nonneg block)
  rw [hall, if_neg (by decide), Nat.add_zero]

theorem getD_blockRow {i : Nat} (hi : i < blocks.length) :
    (blockRow k blocks).getD i (-1) = ((blocks.getD i 0 : Nat) : Int) := by
  rw [blockRow, List.getD_append _ _ _ _ (by rw [List.length_map]; exact hi),
    List.getD_eq_getElem?_getD, List.getElem?_map, List.getD_eq_getElem?_getD,
    List.getElem?_eq_getElem hi]
  rfl

/-- The kernel: a column is a token of a block, of the tail or padding, by its place. -/
theorem tritonExpand_eq (hr : 0 < r) (hp : p < L) (h : Selectable r k p blocks) :
    tritonExpandQsaBlockIndices r (k * r) (blockRow k blocks) p L = expandedRow r k p blocks := by
  have hm : blocks.length ≤ k := by
    rw [h.full]
    exact Nat.min_le_right _ _
  have hwidth : blocks.length * r + (k - blocks.length) * r = k * r := by
    rw [← Nat.add_mul, Nat.add_sub_cancel' hm]
  have hmod := Nat.mod_lt (p + 1) hr
  have hsplit := Nat.div_add_mod' (p + 1) r
  have hstart : ((p : Int) + 1) / r * r = (((p + 1) / r * r : Nat) : Int) := by
    rw [Int.natCast_mul, Int.natCast_ediv, Int.natCast_add]
    rfl
  have hrange : k * r + r - 1 = blocks.length * r + ((p + 1) % r +
      (k * r + r - 1 - (blocks.length * r + (p + 1) % r))) := by
    omega
  have htokens : blockTokens r blocks = (List.range (blocks.length * r)).map fun col =>
      blocks.getD (col / r) 0 * r + col % r :=
    Tensor.flatMap_range (fun block offset => block * r + offset) 0 r blocks
  have hrow : expandedRow r k p blocks = (blockTokens r blocks).map (fun q : Nat => (q : Int)) ++
      ((tailTokens r p).map (fun q : Nat => (q : Int)) ++
        List.replicate (k * r + r - 1 - (blocks.length * r + (p + 1) % r)) (-1)) := by
    rw [expandedRow, length_positions, ← List.append_assoc, ← List.map_append]
    rfl
  have hlt : ∀ q ∈ blockTokens r blocks, q < L := fun q hq =>
    positions_lt hp h q (List.mem_append_left _ hq)
  rw [hrow]
  unfold tritonExpandQsaBlockIndices
  dsimp only
  rw [countP_blockRow, Nat.min_eq_left (Nat.le.intro hwidth), hstart, hrange, List.range_add,
    List.map_append, List.range_add, List.map_append, List.map_append, List.map_map, List.map_map,
    List.map_map]
  congr 1
  · rw [htokens, List.map_map]
    refine List.map_congr_left fun col hcol => ?_
    have hcol := List.mem_range.mp hcol
    have hblock : col / r < blocks.length := by
      rw [Nat.div_lt_iff_lt_mul hr]
      exact hcol
    have hlength : (blockRow k blocks).length = k := by
      rw [blockRow, List.length_append, List.length_map, List.length_replicate,
        Nat.add_sub_cancel' hm]
    have htoken : blocks.getD (col / r) 0 * r + col % r < L := by
      refine hlt _ ?_
      rw [htokens]
      exact List.mem_map.mpr ⟨col, List.mem_range.mpr hcol, rfl⟩
    rw [if_pos (c := col < k * r ∧ col / r < (blockRow k blocks).length) (by omega),
      getD_blockRow hblock]
    have hvalue : ((blocks.getD (col / r) 0 : Nat) : Int) * r + ((col % r : Nat) : Int) =
        ((blocks.getD (col / r) 0 * r + col % r : Nat) : Int) := by
      rw [Int.natCast_add, Int.natCast_mul]
    rw [hvalue]
    refine if_pos ⟨⟨by omega, Int.natCast_nonneg _, Int.natCast_nonneg _, ?_⟩, hcol⟩
    exact Int.ofNat_lt.mpr htoken
  · congr 1
    · rw [tailTokens, List.map_map]
      refine List.map_congr_left fun offset hoffset => ?_
      have hoffset := List.mem_range.mp hoffset
      dsimp only [Function.comp]
      rw [if_neg (by omega), if_pos (by omega)]
      omega
    · refine List.eq_replicate_iff.mpr ⟨?_, fun q hq => ?_⟩
      · rw [List.length_map, List.length_range]
        omega
      obtain ⟨offset, -, rfl⟩ := List.mem_map.mp hq
      dsimp only [Function.comp]
      rw [if_neg (by omega), if_neg (by omega)]

theorem blockTopk_mul (hr : 0 < r) (k : Nat) : blockTopk r (k * r) = k := by
  have hsum : k * r + r - 1 = r * k + (r - 1) := by
    rw [Nat.mul_comm]
    omega
  rw [blockTopk, hsum, Nat.mul_add_div hr, Nat.div_eq_of_lt (by omega), Nat.add_zero]

/-- Both expansions return one row for a selection: first its tokens, each once, none of them after
the query, and then padding. -/
theorem expand_selected (hr : 0 < r) (hp : p < L) (h : Selectable r k p blocks) :
    ∃ tokens : List Nat,
      (∀ isCuda, expandQsaBlockIndices isCuda r (k * r) (blockRow k blocks) p L =
        .ok ((tokens.map fun q : Nat => (q : Int)) ++
          List.replicate (k * r + r - 1 - tokens.length) (-1))) ∧
      tokens.Nodup ∧ (∀ q ∈ tokens, q ≤ p) ∧
      (∀ q, q ∈ tokens ↔ (∃ block ∈ blocks, block * r ≤ q ∧ q < (block + 1) * r) ∨
        (r * ((p + 1) / r) ≤ q ∧ q ≤ p)) ∧
      ((p + 1) / r ≤ k → ∀ q, q ∈ tokens ↔ q ≤ p) := by
  refine ⟨positions r p blocks, fun isCuda => ?_, positions_nodup h, positions_le h,
    fun q => mem_positions, fun hfits q => mem_positions_of_fits hr h hfits⟩
  have hlength : (blockRow k blocks).length = blockTopk r (k * r) := by
    have hm : blocks.length ≤ k := by
      rw [h.full]
      exact Nat.min_le_right _ _
    rw [blockTopk_mul hr, blockRow, List.length_append, List.length_map, List.length_replicate,
      Nat.add_sub_cancel' hm]
  rw [expandQsaBlockIndices, if_neg (not_not.mpr hlength)]
  cases isCuda with
  | true => exact congrArg Except.ok (tritonExpand_eq hr hp h)
  | false => exact congrArg Except.ok (torchExpand_eq hr hp h)

/-- Two of three visible blocks of two tokens, and the token of the open group. -/
theorem expand_selected_two : ∃ tokens : List Nat,
    (∀ isCuda, expandQsaBlockIndices isCuda 2 4 [2, 0] 6 7 =
      .ok ((tokens.map fun q : Nat => (q : Int)) ++ List.replicate (5 - tokens.length) (-1))) ∧
    tokens.Nodup ∧ (∀ q ∈ tokens, q ≤ 6) ∧
    (∀ q, q ∈ tokens ↔ (∃ block ∈ [2, 0], block * 2 ≤ q ∧ q < (block + 1) * 2) ∨
      (6 ≤ q ∧ q ≤ 6)) ∧
    (3 ≤ 2 → ∀ q, q ∈ tokens ↔ q ≤ 6) := by
  have hselected : Selectable 2 2 6 [2, 0] := ⟨by decide, by decide, by decide⟩
  exact expand_selected (L := 7) (by decide) (by decide) hselected

end Qsa
end FlashNext
