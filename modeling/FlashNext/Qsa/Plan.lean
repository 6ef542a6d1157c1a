import FlashNext.Tensor.Index
import Mathlib.Data.List.GetD
import Mathlib.Tactic.Ring

/-!
# Slots of the index keys

`tokenSlot` is the request's row of `req_to_token`: pages of token slots, each page the
request's alone.  A group of `ratio` tokens lies in one page, so all its members name one
compressed slot, `groupSlot`.  Below it are the functions that lay out a forward: the ring slots
of its rows, the ring slots of a group's members, and the plan of compressed writes.
-/

namespace FlashNext
namespace Qsa

/-- Where one request keeps its keys.  Page 0 and request slot 0 are never handed out. -/
structure Layout where
  ratio : Nat
  pageSize : Nat
  request : Nat
  page : Nat → Nat
  two_le_ratio : 2 ≤ ratio
  ratio_dvd : ratio ∣ pageSize
  pageSize_pos : 0 < pageSize
  request_ne_zero : request ≠ 0
  page_ne_zero : ∀ i, page i ≠ 0
  page_injective : Function.Injective page

namespace Layout

variable (l : Layout)

def tokenSlot (position : Nat) : Nat :=
  l.page (position / l.pageSize) * l.pageSize + position % l.pageSize

/-- `qsa_compressed_page_size`. -/
def compressedPageSize : Nat := l.pageSize / l.ratio

def groupSlot (group : Nat) : Nat := l.tokenSlot (group * l.ratio) / l.ratio

/-- The request's row of the pending ring for a position. -/
def ringSlot (position : Nat) : Nat := l.request * l.ratio + position % l.ratio

theorem ratio_pos : 0 < l.ratio := Nat.lt_of_lt_of_le Nat.two_pos l.two_le_ratio

theorem pageSize_eq : l.pageSize = l.ratio * l.compressedPageSize :=
  (Nat.mul_div_cancel' l.ratio_dvd).symm

theorem compressedPageSize_pos : 0 < l.compressedPageSize :=
  Nat.div_pos (Nat.le_of_dvd l.pageSize_pos l.ratio_dvd) l.ratio_pos

/-- Every member of a group leads to the group's compressed slot. -/
theorem tokenSlot_div {group k : Nat} (hk : k < l.ratio) :
    l.tokenSlot (group * l.ratio + k) / l.ratio =
      l.page (group / l.compressedPageSize) * l.compressedPageSize +
        group % l.compressedPageSize := by
  have hgroup : (group * l.ratio + k) / l.ratio = group := by
    rw [Nat.mul_comm, Nat.mul_add_div l.ratio_pos, Nat.div_eq_of_lt hk, Nat.add_zero]
  have hmember : (group * l.ratio + k) % l.ratio = k := by
    rw [Nat.mul_comm, Nat.mul_add_mod, Nat.mod_eq_of_lt hk]
  have hpage : (group * l.ratio + k) / l.pageSize = group / l.compressedPageSize := by
    rw [l.pageSize_eq, ← Nat.div_div_eq_div_mul, hgroup]
  have hoffset : (group * l.ratio + k) % l.pageSize =
      k + l.ratio * (group % l.compressedPageSize) := by
    rw [l.pageSize_eq, Nat.mod_mul, hgroup, hmember]
  have hslot : l.tokenSlot (group * l.ratio + k) =
      l.ratio * (l.page (group / l.compressedPageSize) * l.compressedPageSize +
        group % l.compressedPageSize) + k := by
    rw [tokenSlot, hpage, hoffset, l.pageSize_eq]
    ring
  rw [hslot, Nat.mul_add_div l.ratio_pos, Nat.div_eq_of_lt hk, Nat.add_zero]

theorem groupSlot_eq (group : Nat) :
    l.groupSlot group = l.page (group / l.compressedPageSize) * l.compressedPageSize +
      group % l.compressedPageSize :=
  l.tokenSlot_div (k := 0) l.ratio_pos

theorem tokenSlot_div_groupSlot (group : Nat) {k : Nat} (hk : k < l.ratio) :
    l.tokenSlot (group * l.ratio + k) / l.ratio = l.groupSlot group := by
  rw [l.tokenSlot_div hk, groupSlot_eq]

theorem groupSlot_ne_zero (group : Nat) : l.groupSlot group ≠ 0 := by
  have hpage : l.page (group / l.compressedPageSize) * l.compressedPageSize ≠ 0 :=
    Nat.mul_ne_zero (l.page_ne_zero _) (Nat.ne_of_gt l.compressedPageSize_pos)
  rw [groupSlot_eq]
  omega

theorem groupSlot_injective : Function.Injective l.groupSlot := by
  intro g g' h
  have hpos := l.compressedPageSize_pos
  rw [groupSlot_eq, groupSlot_eq] at h
  have hdiv := congrArg (· / l.compressedPageSize) h
  have hmod := congrArg (· % l.compressedPageSize) h
  simp only [Nat.mul_comm _ l.compressedPageSize, Nat.mul_add_div hpos,
    Nat.div_eq_of_lt (Nat.mod_lt _ hpos), Nat.add_zero, Nat.mul_add_mod, Nat.mod_mod] at hdiv hmod
  have hpage : g / l.compressedPageSize = g' / l.compressedPageSize := l.page_injective hdiv
  rw [← Nat.div_add_mod g l.compressedPageSize, ← Nat.div_add_mod g' l.compressedPageSize,
    hpage, hmod]

end Layout

/-! ## Ring slots -/

/-- The ring slot of each row.  On an extend the tokens before the pending group go to the rows
of request slot 0. -/
def buildPendingRingSlots (tokenToBatchIdx reqPoolIndices sequenceLengths logicalPositions :
    List Nat) (compressRatio : Nat) (isExtend : Bool) : List Nat :=
  List.zipWith (fun row position =>
    let slot := reqPoolIndices.getD row 0 * compressRatio + position % compressRatio
    if isExtend && !decide (sequenceLengths.getD row 0 / compressRatio * compressRatio ≤ position)
    then position % compressRatio else slot) tokenToBatchIdx logicalPositions

/-- The ring slots of each group's members, oldest first. -/
def buildGroupRingSlots (reqPoolIndices groupEndPositions sequenceIds : List Nat)
    (compressRatio : Nat) : List (List Nat) :=
  List.zipWith (fun stop row => (List.range compressRatio).map fun k =>
    reqPoolIndices.getD row 0 * compressRatio + (stop - (compressRatio - 1 - k)) % compressRatio)
    groupEndPositions sequenceIds

/-! ## The plan of compressed writes -/

/-- One entry of the plan: a block of a row, or padding. -/
structure PlanEntry where
  valid : Bool
  row : Nat
  block : Nat
deriving DecidableEq

/-- A row's range of blocks has no length when it ends before it starts. -/
def planCounts (startBlocks endBlocks : List Nat) : List Nat :=
  List.zipWith (fun start stop => stop - start) startBlocks endBlocks

def planEntry (startBlocks endBlocks : List Nat) (entry : Nat) : PlanEntry :=
  let counts := planCounts startBlocks endBlocks
  let ends := Tensor.cumsum counts
  let row := Tensor.searchsortedRight ends entry
  if entry < counts.sum then
    { valid := true, row := row
      block := startBlocks.getD row 0 + entry - (ends.getD row 0 - counts.getD row 0) }
  else { valid := false, row := 0, block := 0 }

/-- `_qsa_write_plan`: the entries, `capacity` of them. -/
def writePlan (startBlocks endBlocks : List Nat) (capacity : Nat) : List PlanEntry :=
  (List.range capacity).map (planEntry startBlocks endBlocks)

namespace PlanEntry

/-- Padding writes the reserved slot 0. -/
def writeLoc (tokenSlotTable : Nat → Nat → Nat) (compressRatio : Nat) (e : PlanEntry) : Nat :=
  if e.valid then tokenSlotTable e.row (e.block * compressRatio) / compressRatio else 0

def groupEndPosition (compressRatio : Nat) (e : PlanEntry) : Nat :=
  e.block * compressRatio + (compressRatio - 1)

/-- The row of the packed chunk at which the entry's group starts. -/
def memberRow (rowTokenStarts prefixLens : List Nat) (compressRatio : Nat) (e : PlanEntry) : Nat :=
  if e.valid then
    rowTokenStarts.getD e.row 0 + e.block * compressRatio - prefixLens.getD e.row 0
  else 0

end PlanEntry

section Plan

variable {startBlocks endBlocks : List Nat} {capacity : Nat}

theorem getD_cumsum {counts : List Nat} {row : Nat} (h : row < counts.length) :
    (Tensor.cumsum counts).getD row 0 - counts.getD row 0 = (counts.take row).sum := by
  have hlen : row < (Tensor.cumsum counts).length := by
    rw [Tensor.length_cumsum]
    exact h
  rw [List.getD_eq_getElem _ _ hlen, Tensor.getElem_cumsum, Tensor.sum_take_succ_getD]
  omega

/-- The entry of a row's block. -/
theorem planEntry_eq {row k : Nat} (hrow : row < (planCounts startBlocks endBlocks).length)
    (hk : k < (planCounts startBlocks endBlocks).getD row 0) :
    planEntry startBlocks endBlocks (((planCounts startBlocks endBlocks).take row).sum + k) =
      ⟨true, row, startBlocks.getD row 0 + k⟩ := by
  have hsucc := Tensor.sum_take_succ_getD (planCounts startBlocks endBlocks) row
  have hsum : ((planCounts startBlocks endBlocks).take (row + 1)).sum ≤
      (planCounts startBlocks endBlocks).sum :=
    (List.take_sublist _ _).sum_le_sum fun _ _ => Nat.zero_le _
  have hfind : Tensor.searchsortedRight (Tensor.cumsum (planCounts startBlocks endBlocks))
      (((planCounts startBlocks endBlocks).take row).sum + k) = row :=
    Tensor.searchsortedRight_cumsum hrow (Nat.le_add_right _ _) (by omega)
  unfold planEntry
  simp only
  rw [hfind, if_pos (by omega), getD_cumsum hrow]
  congr 1
  omega

/-- A valid entry is a block of its row's range. -/
theorem mem_writePlan_valid {e : PlanEntry} (h : e ∈ writePlan startBlocks endBlocks capacity)
    (hvalid : e.valid = true) :
    e.row < (planCounts startBlocks endBlocks).length ∧
      startBlocks.getD e.row 0 ≤ e.block ∧
      e.block < startBlocks.getD e.row 0 + (planCounts startBlocks endBlocks).getD e.row 0 := by
  obtain ⟨entry, -, rfl⟩ := List.mem_map.mp h
  by_cases hentry : entry < (planCounts startBlocks endBlocks).sum
  · obtain ⟨row, hrow, hlow, hhigh⟩ := Tensor.exists_row hentry
    have hsucc := Tensor.sum_take_succ_getD (planCounts startBlocks endBlocks) row
    have hk : entry - ((planCounts startBlocks endBlocks).take row).sum <
        (planCounts startBlocks endBlocks).getD row 0 := by omega
    have heq := planEntry_eq hrow hk
    rw [Nat.add_sub_cancel' hlow] at heq
    rw [heq]
    exact ⟨hrow, Nat.le_add_right _ _, Nat.add_lt_add_left hk _⟩
  · have hpadding : planEntry startBlocks endBlocks entry = ⟨false, 0, 0⟩ := if_neg hentry
    rw [hpadding] at hvalid
    exact absurd hvalid Bool.false_ne_true

/-- Every block of every row's range has its entry. -/
theorem writePlan_covers (row k : Nat) (hrow : row < (planCounts startBlocks endBlocks).length)
    (hk : k < (planCounts startBlocks endBlocks).getD row 0)
    (hcapacity : (planCounts startBlocks endBlocks).sum ≤ capacity) :
    ⟨true, row, startBlocks.getD row 0 + k⟩ ∈ writePlan startBlocks endBlocks capacity := by
  have hsucc := Tensor.sum_take_succ_getD (planCounts startBlocks endBlocks) row
  have hsum : ((planCounts startBlocks endBlocks).take (row + 1)).sum ≤
      (planCounts startBlocks endBlocks).sum :=
    (List.take_sublist _ _).sum_le_sum fun _ _ => Nat.zero_le _
  refine List.mem_map.mpr ⟨((planCounts startBlocks endBlocks).take row).sum + k, ?_, ?_⟩
  · rw [List.mem_range]
    omega
  · exact planEntry_eq hrow hk

end Plan

end Qsa
end FlashNext
