import FlashNext.Qsa.Plan
import FlashNext.Tensor.Ragged
import Mathlib.Data.List.Forall2
import Mathlib.Data.Prod.Lex

/-!
# The write plan of a batch

A decode or speculative row compresses the group that its length ends, an extend row the groups
from its prefix to its length.  `qsaBuildWritePlan` lays the groups of all rows one behind the
other: `buildWritePlan_exact` says that it lists each of them once, and that the chunks of a
prompt together compress each of its complete groups once.
-/

namespace FlashNext
namespace Qsa

/-- `token_slot_table`, with a row of slots for each row of the forward. -/
structure TokenSlotTable where
  width : Nat
  slot : Nat → Nat → Nat

/-- One entry of the tensors that make up the plan.  Only an extend has member rows. -/
structure PlannedWrite where
  writeLoc : Nat
  groupEndPosition : Nat
  row : Nat
  memberRow : Option Nat
deriving DecidableEq

inductive PlanFault where
  | assertAsync
  | outOfBounds
deriving DecidableEq

/-- `row_token_starts` and `prefix_lens`. -/
abbrev Members := List Nat × List Nat

def PlanEntry.planned (table : TokenSlotTable) (ratio : Nat) (members : Option Members)
    (e : PlanEntry) : PlannedWrite where
  writeLoc := e.writeLoc table.slot ratio
  groupEndPosition := e.groupEndPosition ratio
  row := e.row
  memberRow := members.map fun (starts, prefixLens) => e.memberRow starts prefixLens ratio

/-- `_qsa_write_plan`.  The table is read for the padding as well, at its first place. -/
def qsaWritePlan (table : TokenSlotTable) (startBlocks endBlocks : List Nat)
    (capacity ratio : Nat) (members : Option Members) : Except PlanFault (List PlannedWrite) :=
  let entries := writePlan startBlocks endBlocks capacity
  if endBlocks.any fun stop => decide (table.width < stop * ratio) then .error .assertAsync
  else if entries.any fun e =>
      decide (startBlocks.length ≤ e.row ∨ table.width ≤ e.block * ratio) then
    .error .outOfBounds
  else .ok (entries.map (PlanEntry.planned table ratio members))

/-! ## The batches -/

/-- The lengths of decode or speculative rows.  The blocks of an empty row would start below 0. -/
structure PagedBatch where
  lengths : List Nat
  lengths_pos : ∀ length ∈ lengths, 0 < length

/-- The rows of an extend and the number of its input ids. -/
structure ExtendBatch where
  lengths : List Nat
  extendSeqLens : List Nat
  inputIds : Nat
  covered : lengths.length ≤ extendSeqLens.length
  enough : (extendSeqLens.take lengths.length).sum ≤ inputIds

namespace ExtendBatch

variable (e : ExtendBatch)

def extendLens : List Nat := e.extendSeqLens.take e.lengths.length

def prefixLens : List Nat :=
  List.zipWith (fun length extendLen => length - extendLen) e.lengths e.extendLens

def rowTokenStarts : List Nat :=
  List.zipWith (fun stop extendLen => stop - extendLen) (Tensor.cumsum e.extendLens) e.extendLens

/-- The token rows of the forward: the batch row of each and its position there. -/
def packed : List (Nat × Nat) :=
  Tensor.ragged e.extendLens fun row j => (row, e.prefixLens.getD row 0 + j)

end ExtendBatch

inductive PlanBatch where
  | paged (b : PagedBatch)
  | extend (e : ExtendBatch)

namespace PlanBatch

def lengths : PlanBatch → List Nat
  | paged b => b.lengths
  | extend e => e.lengths

def startBlocks (ratio : Nat) : PlanBatch → List Nat
  | paged b => b.lengths.map fun length =>
    length / ratio - if length % ratio = 0 then 1 else 0
  | extend e => e.prefixLens.map (· / ratio)

def endBlocks (ratio : Nat) (batch : PlanBatch) : List Nat := batch.lengths.map (· / ratio)

def capacity (ratio : Nat) : PlanBatch → Nat
  | paged b => b.lengths.length
  | extend e => e.inputIds / ratio + e.lengths.length

def members : PlanBatch → Option Members
  | paged _ => none
  | extend e => some (e.rowTokenStarts, e.prefixLens)

/-- The prefixes that an extend asserts to be whole groups. -/
def alignedLens : PlanBatch → List Nat
  | paged _ => []
  | extend e => e.prefixLens

/-- The asserts hold. -/
def Asserts (table : TokenSlotTable) (ratio : Nat) (batch : PlanBatch) : Prop :=
  (∀ prefixLen ∈ batch.alignedLens, prefixLen % ratio = 0) ∧
    ∀ stop ∈ batch.endBlocks ratio, stop * ratio ≤ table.width

/-- The forward completes the group of the row. -/
def Completes (ratio : Nat) (batch : PlanBatch) (row block : Nat) : Prop :=
  match batch with
  | paged b => b.lengths[row]? = some ((block + 1) * ratio)
  | extend e => ∃ length prefixLen, e.lengths[row]? = some length ∧
    e.prefixLens[row]? = some prefixLen ∧ prefixLen / ratio ≤ block ∧ block < length / ratio

end PlanBatch

/-- `_qsa_build_write_plan`. -/
def qsaBuildWritePlan (table : TokenSlotTable) (ratio : Nat) (batch : PlanBatch) :
    Except PlanFault (List PlannedWrite) :=
  if batch.alignedLens.any fun prefixLen => decide (prefixLen % ratio ≠ 0) then
    .error .assertAsync
  else
    qsaWritePlan table (batch.startBlocks ratio) (batch.endBlocks ratio) (batch.capacity ratio)
      ratio batch.members

/-- The entry compresses the group of the row from its own tokens. -/
structure Writes (table : TokenSlotTable) (ratio : Nat) (batch : PlanBatch) (group : Nat × Nat)
    (w : PlannedWrite) : Prop where
  row : w.row = group.1
  writeLoc : w.writeLoc = table.slot group.1 (group.2 * ratio) / ratio
  groupEndPosition : w.groupEndPosition = group.2 * ratio + (ratio - 1)
  members : ∀ e, batch = .extend e → ∃ memberRow, w.memberRow = some memberRow ∧
    ∀ k < ratio, e.packed[memberRow + k]? = some (group.1, group.2 * ratio + k)

variable {table : TokenSlotTable} {ratio capacity : Nat} {startBlocks endBlocks : List Nat}
  {batch : PlanBatch} {e : ExtendBatch} {plan : List PlannedWrite}

/-! ## The entries, row by row -/

theorem getD_planCounts {row : Nat} (hstart : row < startBlocks.length)
    (hstop : row < endBlocks.length) :
    (planCounts startBlocks endBlocks).getD row 0 =
      endBlocks.getD row 0 - startBlocks.getD row 0 := by
  have hrow : row < (planCounts startBlocks endBlocks).length := by
    rw [planCounts, List.length_zipWith]
    exact Nat.lt_min.mpr ⟨hstart, hstop⟩
  rw [List.getD_eq_getElem _ _ hrow, List.getD_eq_getElem _ _ hstart,
    List.getD_eq_getElem _ _ hstop]
  simp only [planCounts, List.getElem_zipWith]

/-- The groups of all rows, in row-major order. -/
def planGroups (startBlocks endBlocks : List Nat) : List (Nat × Nat) :=
  Tensor.ragged (planCounts startBlocks endBlocks) fun row k => (row, startBlocks.getD row 0 + k)

theorem writePlan_eq (hcapacity : (planCounts startBlocks endBlocks).sum ≤ capacity) :
    writePlan startBlocks endBlocks capacity =
      (planGroups startBlocks endBlocks).map (fun group => ⟨true, group.1, group.2⟩) ++
        List.replicate (capacity - (planCounts startBlocks endBlocks).sum) ⟨false, 0, 0⟩ := by
  obtain ⟨rest, rfl⟩ := Nat.exists_eq_add_of_le hcapacity
  rw [writePlan, List.range_add, List.map_append, List.map_map, Tensor.map_range_sum, planGroups,
    Tensor.map_ragged, Nat.add_sub_cancel_left]
  congr 1
  · exact Tensor.ragged_congr fun row hrow k hk => planEntry_eq hrow hk
  · refine List.eq_replicate_iff.mpr ⟨by rw [List.length_map, List.length_range], ?_⟩
    rw [List.forall_mem_map]
    intro k _
    exact if_neg (Nat.not_lt.mpr (Nat.le_add_right _ k))

theorem length_planGroups :
    (planGroups startBlocks endBlocks).length = (planCounts startBlocks endBlocks).sum :=
  Tensor.length_ragged _ _

theorem planGroups_sorted :
    (planGroups startBlocks endBlocks).Pairwise (Prod.Lex (· < ·) (· < ·)) := by
  refine Tensor.pairwise_ragged (fun row k k' hk => ?_) fun row row' k k' hrow => ?_
  · exact Prod.Lex.right row (Nat.add_lt_add_left hk _)
  · exact Prod.Lex.left _ _ hrow

theorem mem_planGroups (hlen : startBlocks.length = endBlocks.length) {row block : Nat} :
    (row, block) ∈ planGroups startBlocks endBlocks ↔ row < startBlocks.length ∧
      startBlocks.getD row 0 ≤ block ∧ block < endBlocks.getD row 0 := by
  have hcounts : (planCounts startBlocks endBlocks).length = startBlocks.length := by
    rw [planCounts, List.length_zipWith, hlen, Nat.min_self]
  rw [planGroups, Tensor.mem_ragged, hcounts]
  constructor
  · rintro ⟨i, hi, k, hk, heq⟩
    obtain ⟨rfl, rfl⟩ := Prod.mk.inj heq
    rw [getD_planCounts hi (hlen ▸ hi)] at hk
    exact ⟨hi, Nat.le_add_right _ _, by omega⟩
  · rintro ⟨hi, hlow, hhigh⟩
    refine ⟨row, hi, block - startBlocks.getD row 0, ?_, ?_⟩
    · rw [getD_planCounts hi (hlen ▸ hi)]
      omega
    · rw [Nat.add_sub_cancel' hlow]

/-! ## The groups that a batch completes -/

theorem ExtendBatch.length_extendLens : e.extendLens.length = e.lengths.length := by
  rw [ExtendBatch.extendLens, List.length_take, Nat.min_eq_left e.covered]

theorem ExtendBatch.length_prefixLens : e.prefixLens.length = e.lengths.length := by
  rw [ExtendBatch.prefixLens, List.length_zipWith, ExtendBatch.length_extendLens, Nat.min_self]

theorem ExtendBatch.getElem_prefixLens {row : Nat} (hrow : row < e.prefixLens.length) :
    e.prefixLens[row] = e.lengths.getD row 0 - e.extendLens.getD row 0 := by
  have hlen : row < e.lengths.length := e.length_prefixLens ▸ hrow
  rw [List.getD_eq_getElem _ _ hlen,
    List.getD_eq_getElem _ _ (ExtendBatch.length_extendLens.symm ▸ hlen)]
  simp only [ExtendBatch.prefixLens, List.getElem_zipWith]

theorem PlanBatch.length_startBlocks :
    (batch.startBlocks ratio).length = batch.lengths.length := by
  cases batch with
  | paged b => exact List.length_map _
  | extend e => exact (List.length_map _).trans e.length_prefixLens

theorem PlanBatch.length_endBlocks : (batch.endBlocks ratio).length = batch.lengths.length :=
  List.length_map _

/-- The last block below a length that is no multiple lies outside of the row's range. -/
theorem paged_block_iff (hratio : 0 < ratio) {length block : Nat} :
    (length / ratio - (if length % ratio = 0 then 1 else 0) ≤ block ∧ block < length / ratio) ↔
      length = (block + 1) * ratio := by
  have hdiv := Nat.div_add_mod length ratio
  split
  · next hmod =>
    constructor
    · rintro ⟨hlow, hhigh⟩
      have hblock : length / ratio = block + 1 := by omega
      rw [hmod, Nat.add_zero, hblock, Nat.mul_comm] at hdiv
      exact hdiv.symm
    · intro hlen
      rw [hlen, Nat.mul_div_cancel _ hratio]
      omega
  · next hmod =>
    constructor
    · rintro ⟨hlow, hhigh⟩
      omega
    · intro hlen
      rw [hlen, Nat.mul_mod_left] at hmod
      exact absurd rfl hmod

theorem mem_completes (hratio : 0 < ratio) {row block : Nat} :
    (row, block) ∈ planGroups (batch.startBlocks ratio) (batch.endBlocks ratio) ↔
      batch.Completes ratio row block := by
  have hlen : (batch.startBlocks ratio).length = (batch.endBlocks ratio).length :=
    batch.length_startBlocks.trans batch.length_endBlocks.symm
  rw [mem_planGroups hlen, PlanBatch.length_startBlocks]
  cases batch with
  | paged b =>
    show row < b.lengths.length ∧ _ ↔ b.lengths[row]? = some ((block + 1) * ratio)
    by_cases hrow : row < b.lengths.length
    · have hstart : ((PlanBatch.paged b).startBlocks ratio).getD row 0 =
          b.lengths[row] / ratio - if b.lengths[row] % ratio = 0 then 1 else 0 := by
        rw [List.getD_eq_getElem _ _ (by rwa [PlanBatch.length_startBlocks])]
        simp only [PlanBatch.startBlocks, List.getElem_map]
      have hstop : ((PlanBatch.paged b).endBlocks ratio).getD row 0 = b.lengths[row] / ratio := by
        rw [List.getD_eq_getElem _ _ (by rwa [PlanBatch.length_endBlocks])]
        simp only [PlanBatch.endBlocks, PlanBatch.lengths, List.getElem_map]
      rw [hstart, hstop, List.getElem?_eq_getElem hrow, Option.some.injEq,
        paged_block_iff hratio]
      exact and_iff_right hrow
    · rw [List.getElem?_eq_none (Nat.not_lt.mp hrow)]
      exact ⟨fun h => absurd h.1 hrow, fun h => absurd h (Option.some_ne_none _).symm⟩
  | extend e =>
    show row < e.lengths.length ∧ _ ↔ ∃ length prefixLen, _
    constructor
    · rintro ⟨hrow, hlow, hhigh⟩
      have hstem : row < e.prefixLens.length := e.length_prefixLens.symm ▸ hrow
      rw [List.getD_eq_getElem _ _ (by rwa [PlanBatch.length_startBlocks])] at hlow
      rw [List.getD_eq_getElem _ _ (by rwa [PlanBatch.length_endBlocks])] at hhigh
      simp only [PlanBatch.startBlocks, List.getElem_map] at hlow
      simp only [PlanBatch.endBlocks, PlanBatch.lengths, List.getElem_map] at hhigh
      exact ⟨_, _, List.getElem?_eq_getElem hrow, List.getElem?_eq_getElem hstem, hlow, hhigh⟩
    · rintro ⟨length, prefixLen, hlength, hprefixLen, hlow, hhigh⟩
      obtain ⟨hrow, rfl⟩ := List.getElem?_eq_some_iff.mp hlength
      obtain ⟨hstem, rfl⟩ := List.getElem?_eq_some_iff.mp hprefixLen
      refine ⟨hrow, ?_, ?_⟩
      · rw [List.getD_eq_getElem _ _ (by rwa [PlanBatch.length_startBlocks])]
        simpa only [PlanBatch.startBlocks, List.getElem_map] using hlow
      · rw [List.getD_eq_getElem _ _ (by rwa [PlanBatch.length_endBlocks])]
        simpa only [PlanBatch.endBlocks, PlanBatch.lengths, List.getElem_map] using hhigh

/-! ## The capacity -/

theorem sum_paged_counts (ratio : Nat) (lengths : List Nat) :
    (planCounts
      (lengths.map fun length => length / ratio - if length % ratio = 0 then 1 else 0)
      (lengths.map (· / ratio))).sum ≤ lengths.length := by
  induction lengths with
  | nil => exact Nat.le_refl 0
  | cons length lengths ih =>
    have hcount : length / ratio -
        (length / ratio - if length % ratio = 0 then 1 else 0) ≤ 1 := by
      split
      · omega
      · omega
    rw [planCounts, List.map_cons, List.map_cons, List.zipWith_cons_cons, List.sum_cons,
      List.length_cons]
    exact Nat.add_comm 1 _ ▸ Nat.add_le_add hcount ih

/-- A row that starts on whole groups completes no more than its own tokens fill. -/
theorem extend_count_le {length extendLen : Nat}
    (haligned : (length - extendLen) % ratio = 0) :
    length / ratio - (length - extendLen) / ratio ≤ extendLen / ratio := by
  by_cases hle : extendLen ≤ length
  · obtain ⟨groups, hgroups⟩ := Nat.dvd_of_mod_eq_zero haligned
    by_cases hratio : 0 < ratio
    · have hlength : length = ratio * groups + extendLen := by omega
      rw [hgroups, Nat.mul_div_cancel_left _ hratio, hlength, Nat.mul_add_div hratio,
        Nat.add_sub_cancel_left]
    · rw [Nat.eq_zero_of_not_pos hratio, Nat.div_zero, Nat.zero_sub]
      exact Nat.zero_le _
  · have hdiv : length / ratio ≤ extendLen / ratio := Nat.div_le_div_right (by omega)
    exact (Nat.sub_le _ _).trans hdiv

theorem sum_extend_counts (ratio : Nat) (lengths extendLens : List Nat)
    (haligned : ∀ prefixLen ∈ List.zipWith (fun length extendLen => length - extendLen)
      lengths extendLens, prefixLen % ratio = 0) :
    (planCounts ((List.zipWith (fun length extendLen => length - extendLen) lengths
      extendLens).map (· / ratio)) (lengths.map (· / ratio))).sum ≤ extendLens.sum / ratio := by
  induction lengths generalizing extendLens with
  | nil => exact Nat.zero_le _
  | cons length lengths ih =>
    cases extendLens with
    | nil => exact Nat.zero_le _
    | cons extendLen extendLens =>
      rw [List.zipWith_cons_cons, List.forall_mem_cons] at haligned
      have hrest := ih extendLens haligned.2
      rw [planCounts] at hrest
      rw [planCounts, List.zipWith_cons_cons, List.map_cons, List.map_cons,
        List.zipWith_cons_cons, List.sum_cons, List.sum_cons]
      exact (Nat.add_le_add (extend_count_le haligned.1) hrest).trans
        Nat.div_add_div_le_add_div

/-- The capacity holds every group. -/
theorem PlanBatch.Asserts.sum_le (h : batch.Asserts table ratio) :
    (planCounts (batch.startBlocks ratio) (batch.endBlocks ratio)).sum ≤ batch.capacity ratio := by
  cases batch with
  | paged b => exact sum_paged_counts ratio b.lengths
  | extend e =>
    have hsum := sum_extend_counts ratio e.lengths e.extendLens h.1
    have hinput : e.extendLens.sum / ratio ≤ e.inputIds / ratio := Nat.div_le_div_right e.enough
    exact (hsum.trans hinput).trans (Nat.le_add_right _ _)

/-! ## The plan -/

def PlanBatch.planned (table : TokenSlotTable) (ratio : Nat) (batch : PlanBatch)
    (group : Nat × Nat) : PlannedWrite :=
  PlanEntry.planned table ratio batch.members ⟨true, group.1, group.2⟩

def PlanBatch.padding (table : TokenSlotTable) (ratio : Nat) (batch : PlanBatch) : PlannedWrite :=
  PlanEntry.planned table ratio batch.members ⟨false, 0, 0⟩

def PlanBatch.groups (ratio : Nat) (batch : PlanBatch) : List (Nat × Nat) :=
  planGroups (batch.startBlocks ratio) (batch.endBlocks ratio)

/-- The number of entries that are padding. -/
def PlanBatch.spare (ratio : Nat) (batch : PlanBatch) : Nat :=
  batch.capacity ratio - (batch.groups ratio).length

theorem PlanBatch.Asserts.entries (h : batch.Asserts table ratio) :
    writePlan (batch.startBlocks ratio) (batch.endBlocks ratio) (batch.capacity ratio) =
      (batch.groups ratio).map (fun group => ⟨true, group.1, group.2⟩) ++
        List.replicate (batch.spare ratio) ⟨false, 0, 0⟩ := by
  rw [writePlan_eq h.sum_le, PlanBatch.spare, PlanBatch.groups, length_planGroups]

theorem PlanBatch.Asserts.length_le (h : batch.Asserts table ratio) :
    (batch.groups ratio).length ≤ batch.capacity ratio := by
  rw [PlanBatch.groups, length_planGroups]
  exact h.sum_le

/-- A group that a row completes lies inside of the table. -/
theorem PlanBatch.Asserts.readable (hratio : 0 < ratio) (h : batch.Asserts table ratio)
    {row block : Nat} (hgroup : (row, block) ∈ batch.groups ratio) :
    row < batch.lengths.length ∧ block * ratio < table.width := by
  have hlen : (batch.startBlocks ratio).length = (batch.endBlocks ratio).length :=
    batch.length_startBlocks.trans batch.length_endBlocks.symm
  obtain ⟨hrow, -, hblock⟩ := (mem_planGroups hlen).mp hgroup
  have hstop : row < (batch.endBlocks ratio).length := hlen ▸ hrow
  rw [List.getD_eq_getElem _ _ hstop] at hblock
  have hwidth := h.2 _ (List.getElem_mem hstop)
  have hsucc : (block + 1) * ratio ≤ (batch.endBlocks ratio)[row] * ratio :=
    Nat.mul_le_mul_right _ hblock
  rw [Nat.succ_mul] at hsucc
  exact ⟨batch.length_startBlocks ▸ hrow, by omega⟩

/-- The padding is read where the table has a first place. -/
theorem PlanBatch.Asserts.readable_iff (hratio : 0 < ratio) (h : batch.Asserts table ratio) :
    (∀ e ∈ writePlan (batch.startBlocks ratio) (batch.endBlocks ratio) (batch.capacity ratio),
      ¬ ((batch.startBlocks ratio).length ≤ e.row ∨ table.width ≤ e.block * ratio)) ↔
      (batch.capacity ratio = 0 ∨ 0 < batch.lengths.length ∧ 0 < table.width) := by
  rw [h.entries, List.forall_mem_append, List.forall_mem_map, PlanBatch.length_startBlocks]
  constructor
  · rintro ⟨hgroups, hpadding⟩
    by_cases hspare : batch.spare ratio = 0
    · cases hlist : batch.groups ratio with
      | nil =>
        rw [PlanBatch.spare, hlist] at hspare
        exact .inl hspare
      | cons group rest =>
        have hin := h.readable hratio (hlist ▸ List.mem_cons_self)
        exact .inr ⟨Nat.zero_lt_of_lt hin.1, Nat.zero_lt_of_lt hin.2⟩
    · have hfirst := hpadding _ (List.mem_replicate.mpr ⟨hspare, rfl⟩)
      rw [Nat.zero_mul] at hfirst
      omega
  · intro hsome
    refine ⟨fun group hgroup => ?_, fun e he => ?_⟩
    · have hin := h.readable hratio hgroup
      dsimp only
      omega
    · obtain ⟨hspare, rfl⟩ := List.mem_replicate.mp he
      rw [PlanBatch.spare] at hspare
      dsimp only
      rw [Nat.zero_mul]
      omega

theorem buildWritePlan_ok (hratio : 0 < ratio) :
    qsaBuildWritePlan table ratio batch = .ok plan ↔ batch.Asserts table ratio ∧
      (batch.capacity ratio = 0 ∨ 0 < batch.lengths.length ∧ 0 < table.width) ∧
      plan = (batch.groups ratio).map (batch.planned table ratio) ++
        List.replicate (batch.spare ratio) (batch.padding table ratio) := by
  have haligned : (batch.alignedLens.any fun prefixLen => decide (prefixLen % ratio ≠ 0)) = false ↔
      ∀ prefixLen ∈ batch.alignedLens, prefixLen % ratio = 0 := by
    simp only [List.any_eq_false, decide_eq_true_eq, not_not]
  have hwide : ((batch.endBlocks ratio).any fun stop => decide (table.width < stop * ratio)) =
      false ↔ ∀ stop ∈ batch.endBlocks ratio, stop * ratio ≤ table.width := by
    simp only [List.any_eq_false, decide_eq_true_eq, not_lt]
  by_cases h : batch.Asserts table ratio
  · have hread := h.readable_iff hratio
    have hplan : (writePlan (batch.startBlocks ratio) (batch.endBlocks ratio)
        (batch.capacity ratio)).map (PlanEntry.planned table ratio batch.members) =
        (batch.groups ratio).map (batch.planned table ratio) ++
          List.replicate (batch.spare ratio) (batch.padding table ratio) := by
      rw [h.entries, List.map_append, List.map_map, List.map_replicate]
      rfl
    rw [qsaBuildWritePlan, if_neg (by rw [haligned.mpr h.1]; exact Bool.false_ne_true),
      qsaWritePlan, if_neg (by rw [hwide.mpr h.2]; exact Bool.false_ne_true), and_iff_right h]
    by_cases hsome : batch.capacity ratio = 0 ∨ 0 < batch.lengths.length ∧ 0 < table.width
    · rw [if_neg (by
        rw [List.any_eq_true]
        rintro ⟨e, he, hout⟩
        exact hread.mpr hsome e he (of_decide_eq_true hout)), and_iff_right hsome, hplan]
      exact ⟨fun heq => (Except.ok.inj heq).symm, fun heq => congrArg Except.ok heq.symm⟩
    · rw [if_pos (by
        by_contra hnone
        refine hsome (hread.mp fun e he hout => hnone ?_)
        exact List.any_eq_true.mpr ⟨e, he, decide_eq_true hout⟩)]
      exact ⟨fun heq => absurd heq (by simp), fun heq => absurd heq.1 hsome⟩
  · refine ⟨fun heq => ?_, fun heq => absurd heq.1 h⟩
    rw [qsaBuildWritePlan, qsaWritePlan] at heq
    split at heq
    · cases heq
    · next hfirst =>
      split at heq
      · cases heq
      · next hsecond =>
        exact absurd ⟨haligned.mp (Bool.eq_false_iff.mpr hfirst),
          hwide.mp (Bool.eq_false_iff.mpr hsecond)⟩ h

/-! ## The members of a group -/

theorem ExtendBatch.getD_rowTokenStarts {row : Nat} (hrow : row < e.lengths.length) :
    e.rowTokenStarts.getD row 0 = (e.extendLens.take row).sum := by
  have hlen : row < e.extendLens.length := ExtendBatch.length_extendLens.symm ▸ hrow
  have hcumsum : row < (Tensor.cumsum e.extendLens).length := by
    rwa [Tensor.length_cumsum]
  have hstarts : row < e.rowTokenStarts.length := by
    rw [ExtendBatch.rowTokenStarts, List.length_zipWith]
    exact Nat.lt_min.mpr ⟨hcumsum, hlen⟩
  rw [List.getD_eq_getElem _ _ hstarts, ← getD_cumsum hlen, List.getD_eq_getElem _ _ hcumsum,
    List.getD_eq_getElem _ _ hlen]
  simp only [ExtendBatch.rowTokenStarts, List.getElem_zipWith]

/-- The token rows from the member row on are those of the group. -/
theorem ExtendBatch.packed_member (haligned : ∀ prefixLen ∈ e.prefixLens, prefixLen % ratio = 0)
    {row block k : Nat} (hcompletes : (PlanBatch.extend e).Completes ratio row block)
    (hk : k < ratio) :
    e.packed[e.rowTokenStarts.getD row 0 + block * ratio - e.prefixLens.getD row 0 + k]? =
      some (row, block * ratio + k) := by
  obtain ⟨length, prefixLen, hlength, hprefixLen, hlow, hhigh⟩ := hcompletes
  obtain ⟨hrow, rfl⟩ := List.getElem?_eq_some_iff.mp hlength
  obtain ⟨hstem, rfl⟩ := List.getElem?_eq_some_iff.mp hprefixLen
  have hmod := haligned _ (List.getElem_mem hstem)
  have hdiv := Nat.div_add_mod e.prefixLens[row] ratio
  have hstart : e.prefixLens[row] ≤ block * ratio := by
    have hmul := Nat.mul_le_mul_left ratio hlow
    rw [Nat.mul_comm ratio block] at hmul
    omega
  have hstop : block * ratio + ratio ≤ e.lengths[row] := by
    have hmul : (block + 1) * ratio ≤ e.lengths[row] / ratio * ratio :=
      Nat.mul_le_mul_right ratio hhigh
    rw [Nat.succ_mul] at hmul
    exact hmul.trans (Nat.div_mul_le_self _ _)
  have hclamp := e.getElem_prefixLens hstem
  rw [List.getD_eq_getElem _ _ hrow] at hclamp
  have hextend : row < e.extendLens.length := ExtendBatch.length_extendLens.symm ▸ hrow
  rw [ExtendBatch.getD_rowTokenStarts hrow, List.getD_eq_getElem _ _ hstem]
  have hplace : (e.extendLens.take row).sum + block * ratio - e.prefixLens[row] + k =
      (e.extendLens.take row).sum + (block * ratio + k - e.prefixLens[row]) := by omega
  rw [hplace, ExtendBatch.packed, Tensor.getElem?_ragged hextend (by omega),
    List.getD_eq_getElem _ _ hstem, Nat.add_sub_cancel' (by omega)]

theorem PlanBatch.Asserts.writes (h : batch.Asserts table ratio) (group : Nat × Nat)
    (hgroup : batch.Completes ratio group.1 group.2) :
    Writes table ratio batch group (batch.planned table ratio group) where
  row := rfl
  writeLoc := rfl
  groupEndPosition := rfl
  members := by
    intro e he
    subst he
    refine ⟨_, rfl, fun k hk => ?_⟩
    exact ExtendBatch.packed_member h.1 hgroup hk

/-! ## The chunks of a prompt -/

/-- One extend forward of a prompt: the batch, the request's row in it and the plan. -/
structure Chunk where
  batch : ExtendBatch
  table : TokenSlotTable
  row : Nat
  plan : List PlannedWrite

/-- The prompt's position that a token row of the forward holds. -/
def Chunk.token (c : Chunk) (i : Nat) : Option Nat :=
  c.batch.packed[i]?.bind fun (row, position) => if row = c.row then some position else none

/-- The tokens from which the forward compresses the request's group, each time it does. -/
def Chunk.compressions (l : Layout) (c : Chunk) (group : Nat) : List (List (Option Nat)) :=
  (c.plan.filter fun w => w.row == c.row && w.writeLoc == l.groupSlot group).map fun w =>
    (List.range l.ratio).map fun k => w.memberRow.bind fun memberRow => c.token (memberRow + k)

/-- The forward takes the prompt from one length to the next. -/
structure Chunk.Continues (l : Layout) (c : Chunk) (start stop : Nat) : Prop where
  planned : qsaBuildWritePlan c.table l.ratio (.extend c.batch) = .ok c.plan
  length : c.batch.lengths[c.row]? = some stop
  prefixLen : c.batch.prefixLens[c.row]? = some start
  slots : ∀ position < stop, c.table.slot c.row position = l.tokenSlot position

/-- The chunks of a prompt, one after the other. -/
def Chunking (l : Layout) : Nat → List Chunk → Nat → Prop
  | start, [], stop => start = stop
  | start, c :: chunks, stop => ∃ middle, c.Continues l start middle ∧ Chunking l middle chunks stop

section Chunks

variable {l : Layout} {c : Chunk} {chunks : List Chunk} {start stop group : Nat}

theorem Chunk.Continues.le (h : c.Continues l start stop) : start ≤ stop := by
  obtain ⟨hrow, hlength⟩ := List.getElem?_eq_some_iff.mp h.length
  obtain ⟨hstem, hstart⟩ := List.getElem?_eq_some_iff.mp h.prefixLen
  have hclamp := c.batch.getElem_prefixLens hstem
  rw [List.getD_eq_getElem _ _ hrow] at hclamp
  omega

theorem Chunking.le (h : Chunking l start chunks stop) : start ≤ stop := by
  induction chunks generalizing start with
  | nil => exact Nat.le_of_eq h
  | cons c chunks ih =>
    obtain ⟨middle, hfirst, hrest⟩ := h
    exact hfirst.le.trans (ih hrest)

theorem Chunk.Continues.completes_iff (h : c.Continues l start stop) {block : Nat} :
    (PlanBatch.extend c.batch).Completes l.ratio c.row block ↔
      start / l.ratio ≤ block ∧ block < stop / l.ratio := by
  show (∃ length prefixLen, _) ↔ _
  rw [h.length, h.prefixLen]
  constructor
  · rintro ⟨length, prefixLen, hlength, hprefixLen, hblock⟩
    cases hlength
    cases hprefixLen
    exact hblock
  · intro hblock
    exact ⟨stop, start, rfl, rfl, hblock⟩

/-- A group that the forward completes has its own slot in the table. -/
theorem Chunk.Continues.slot_eq (h : c.Continues l start stop) {block : Nat}
    (hblock : (PlanBatch.extend c.batch).Completes l.ratio c.row block) :
    c.table.slot c.row (block * l.ratio) / l.ratio = l.groupSlot block := by
  have hhigh := (h.completes_iff.mp hblock).2
  have hmul : (block + 1) * l.ratio ≤ stop / l.ratio * l.ratio := Nat.mul_le_mul_right l.ratio hhigh
  have hdiv := Nat.div_mul_le_self stop l.ratio
  have hratio := l.ratio_pos
  rw [Nat.succ_mul] at hmul
  rw [h.slots _ (by omega)]
  rfl

/-- The request's own entries go to its own slots. -/
theorem Chunk.Continues.planned_iff (h : c.Continues l start stop) {entry : Nat × Nat}
    (hentry : (PlanBatch.extend c.batch).Completes l.ratio entry.1 entry.2) :
    (((PlanBatch.extend c.batch).planned c.table l.ratio entry).row == c.row &&
      ((PlanBatch.extend c.batch).planned c.table l.ratio entry).writeLoc == l.groupSlot group) =
      (entry == (c.row, group)) := by
  obtain ⟨row, block⟩ := entry
  have hloc : ((PlanBatch.extend c.batch).planned c.table l.ratio (row, block)).writeLoc =
      c.table.slot row (block * l.ratio) / l.ratio := rfl
  rw [hloc, Bool.eq_iff_iff, Bool.and_eq_true, beq_iff_eq, beq_iff_eq, beq_iff_eq]
  show row = c.row ∧ _ ↔ _
  constructor
  · rintro ⟨rfl, hslot⟩
    rw [h.slot_eq hentry] at hslot
    have hblock : block = group := l.groupSlot_injective hslot
    rw [hblock]
  · intro heq
    obtain ⟨rfl, rfl⟩ := Prod.mk.inj heq
    exact ⟨rfl, h.slot_eq hentry⟩

/-- A forward compresses the groups between its two lengths, each of them once. -/
theorem Chunk.Continues.compressions_eq (h : c.Continues l start stop) :
    c.compressions l group = if start / l.ratio ≤ group ∧ group < stop / l.ratio then
      [(List.range l.ratio).map fun k => some (group * l.ratio + k)] else [] := by
  obtain ⟨hasserts, -, hplan⟩ := (buildWritePlan_ok l.ratio_pos).mp h.planned
  have hgroups : ∀ entry ∈ (PlanBatch.extend c.batch).groups l.ratio,
      (PlanBatch.extend c.batch).Completes l.ratio entry.1 entry.2 :=
    fun entry hentry => (mem_completes l.ratio_pos).mp hentry
  have hpadding : (List.replicate ((PlanBatch.extend c.batch).spare l.ratio)
      ((PlanBatch.extend c.batch).padding c.table l.ratio)).filter
        (fun w => w.row == c.row && w.writeLoc == l.groupSlot group) = [] := by
    refine List.filter_eq_nil_iff.mpr fun w hw => ?_
    obtain ⟨-, rfl⟩ := List.mem_replicate.mp hw
    have hloc : ((PlanBatch.extend c.batch).padding c.table l.ratio).writeLoc = 0 := rfl
    rw [hloc, Bool.and_eq_true, beq_iff_eq, beq_iff_eq]
    exact fun hzero => l.groupSlot_ne_zero group hzero.2.symm
  have hentries : ((PlanBatch.extend c.batch).groups l.ratio).filter
      (fun entry => entry == (c.row, group)) =
        if start / l.ratio ≤ group ∧ group < stop / l.ratio then [(c.row, group)] else [] := by
    have hnodup : ((PlanBatch.extend c.batch).groups l.ratio).Nodup :=
      planGroups_sorted.imp fun hlt heq => by
        subst heq
        exact absurd hlt (irrefl _)
    rw [List.filter_beq, hnodup.count]
    have hmem : (c.row, group) ∈ (PlanBatch.extend c.batch).groups l.ratio ↔
        start / l.ratio ≤ group ∧ group < stop / l.ratio :=
      (mem_completes l.ratio_pos).trans h.completes_iff
    simp only [hmem]
    split
    · rfl
    · rfl
  have hfilter : ((PlanBatch.extend c.batch).groups l.ratio).filter
      ((fun w => w.row == c.row && w.writeLoc == l.groupSlot group) ∘
        (PlanBatch.extend c.batch).planned c.table l.ratio) =
      ((PlanBatch.extend c.batch).groups l.ratio).filter (fun entry => entry == (c.row, group)) :=
    List.filter_congr fun entry hentry => h.planned_iff (hgroups entry hentry)
  rw [Chunk.compressions, hplan, List.filter_append, hpadding, List.append_nil, List.filter_map,
    hfilter, hentries]
  split
  · next hgroup =>
    obtain ⟨memberRow, hmember, htokens⟩ :=
      (hasserts.writes (c.row, group) (h.completes_iff.mpr hgroup)).members _ rfl
    refine congrArg (fun tokens => [tokens]) (List.map_congr_left fun k hk => ?_)
    rw [hmember, Option.bind_some, Chunk.token, htokens k (List.mem_range.mp hk)]
    exact if_pos rfl
  · rfl

/-- Chunks compress the groups between the first and the last length, each of them once. -/
theorem Chunking.compressions_eq (h : Chunking l start chunks stop) :
    (chunks.flatMap fun c => c.compressions l group) =
      if start / l.ratio ≤ group ∧ group < stop / l.ratio then
        [(List.range l.ratio).map fun k => some (group * l.ratio + k)] else [] := by
  induction chunks generalizing start with
  | nil =>
    have heq : start = stop := h
    rw [heq, if_neg (fun hgroup => absurd hgroup.2 (Nat.not_lt.mpr hgroup.1))]
    rfl
  | cons c chunks ih =>
    obtain ⟨middle, hfirst, hrest⟩ := h
    have hlow : start / l.ratio ≤ middle / l.ratio := Nat.div_le_div_right hfirst.le
    have hhigh : middle / l.ratio ≤ stop / l.ratio := Nat.div_le_div_right hrest.le
    rw [List.flatMap_cons, hfirst.compressions_eq, ih hrest]
    by_cases hearly : group < middle / l.ratio
    · rw [if_neg (show ¬ (middle / l.ratio ≤ group ∧ _) by omega), List.append_nil]
      refine if_congr ?_ rfl rfl
      omega
    · rw [if_neg (show ¬ (start / l.ratio ≤ group ∧ group < middle / l.ratio) by omega),
        List.nil_append]
      refine if_congr ?_ rfl rfl
      omega

end Chunks

/-- The plan of a batch lists the groups that the forward completes, each of them once and in
row-major order, and fills the rest of its capacity with writes to slot 0.  It is laid out exactly
when the asserts hold and the table has a place for the padding.  The chunks of a prompt compress
each of its complete groups once. -/
theorem buildWritePlan_exact {ratio : Nat} (hratio : 0 < ratio) (table : TokenSlotTable)
    (batch : PlanBatch) :
    ((∃ plan, qsaBuildWritePlan table ratio batch = .ok plan) ↔ batch.Asserts table ratio ∧
      (batch.capacity ratio = 0 ∨ 0 < batch.lengths.length ∧ 0 < table.width)) ∧
    (∀ plan, qsaBuildWritePlan table ratio batch = .ok plan →
      ∃ (completed : List (Nat × Nat)) (writes padding : List PlannedWrite),
        plan = writes ++ padding ∧
        plan.length = batch.capacity ratio ∧
        completed.Pairwise (Prod.Lex (· < ·) (· < ·)) ∧
        (∀ row block, (row, block) ∈ completed ↔ batch.Completes ratio row block) ∧
        List.Forall₂ (Writes table ratio batch) completed writes ∧
        ∀ w ∈ padding, w.writeLoc = 0) ∧
    ∀ (l : Layout) (chunks : List Chunk) (tokens : Nat), Chunking l 0 chunks tokens →
      ∀ group, (chunks.flatMap fun c => c.compressions l group) =
        if group < tokens / l.ratio then
          [(List.range l.ratio).map fun k => some (group * l.ratio + k)] else [] := by
  refine ⟨?_, fun plan hplan => ?_, fun l chunks tokens h group => ?_⟩
  · constructor
    · rintro ⟨plan, hplan⟩
      obtain ⟨hasserts, hplace, -⟩ := (buildWritePlan_ok hratio).mp hplan
      exact ⟨hasserts, hplace⟩
    · intro h
      exact ⟨_, (buildWritePlan_ok hratio).mpr ⟨h.1, h.2, rfl⟩⟩
  · obtain ⟨hasserts, -, hplan⟩ := (buildWritePlan_ok hratio).mp hplan
    refine ⟨batch.groups ratio, _, _, hplan, ?_, planGroups_sorted,
      fun row block => mem_completes hratio, ?_, fun w hw => ?_⟩
    · have hle := hasserts.length_le
      rw [hplan, List.length_append, List.length_map, List.length_replicate, PlanBatch.spare]
      omega
    · rw [List.forall₂_map_right_iff, List.forall₂_same]
      exact fun group hgroup => hasserts.writes group ((mem_completes hratio).mp hgroup)
    · obtain ⟨-, rfl⟩ := List.mem_replicate.mp hw
      rfl
  · rw [h.compressions_eq, Nat.zero_div]
    exact if_congr (and_iff_right (Nat.zero_le _)) rfl rfl

theorem two_le_two : 2 ≤ 2 := Nat.le_refl 2

theorem two_dvd_four : 2 ∣ 4 := ⟨2, rfl⟩

theorem four_pos : 0 < 4 := Nat.succ_pos 3

/-- Pages of four token slots, in order. -/
def orderedLayout : Layout where
  ratio := 2
  pageSize := 4
  request := 1
  page := (· + 1)
  two_le_ratio := two_le_two
  ratio_dvd := two_dvd_four
  pageSize_pos := four_pos
  request_ne_zero := Nat.one_ne_zero
  page_ne_zero := Nat.succ_ne_zero
  page_injective := fun _ _ h => Nat.succ.inj h

/-- The slots of the prompt in one row, others in the rest. -/
def orderedTable (width own : Nat) : TokenSlotTable where
  width := width
  slot row position := if row = own then orderedLayout.tokenSlot position else 40 + position

/-- The first four tokens of a prompt, before a row of another one. -/
def firstChunk : Chunk where
  batch := { lengths := [4, 3], extendSeqLens := [4, 3], inputIds := 7
             covered := by decide, enough := by decide }
  table := orderedTable 4 0
  row := 0
  plan := [⟨2, 1, 0, some 0⟩, ⟨3, 3, 0, some 2⟩, ⟨20, 1, 1, some 4⟩, ⟨0, 1, 0, some 0⟩,
    ⟨0, 1, 0, some 0⟩]

/-- The next three tokens, behind an empty row. -/
def secondChunk : Chunk where
  batch := { lengths := [2, 7], extendSeqLens := [0, 3], inputIds := 3
             covered := by decide, enough := by decide }
  table := orderedTable 7 1
  row := 1
  plan := [⟨4, 5, 1, some 0⟩, ⟨0, 1, 0, some 0⟩, ⟨0, 1, 0, some 0⟩]

theorem buildWritePlan_exact_chunks :
    (∃ plan, qsaBuildWritePlan firstChunk.table 2 (.extend firstChunk.batch) = .ok plan) ∧
      Chunking orderedLayout 0 [firstChunk, secondChunk] 7 ∧
      ([firstChunk, secondChunk].flatMap fun c => c.compressions orderedLayout 2) =
        [[some 4, some 5]] := by
  have hfirst : firstChunk.Continues orderedLayout 0 4 :=
    ⟨by decide, rfl, rfl, fun _ _ => rfl⟩
  have hsecond : secondChunk.Continues orderedLayout 4 7 :=
    ⟨by decide, rfl, rfl, fun _ _ => rfl⟩
  have hchunks : Chunking orderedLayout 0 [firstChunk, secondChunk] 7 :=
    ⟨4, hfirst, 7, hsecond, rfl⟩
  have hexact := buildWritePlan_exact Nat.two_pos firstChunk.table (.extend firstChunk.batch)
  exact ⟨⟨_, hfirst.planned⟩, hchunks, hexact.2.2 orderedLayout _ 7 hchunks 2⟩

end Qsa
end FlashNext
