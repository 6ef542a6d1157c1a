import Mathlib.Algebra.Order.BigOperators.Group.List
import Mathlib.Algebra.Order.Ring.Int
import Mathlib.Algebra.Order.Ring.Nat
import Mathlib.Data.List.Basic
import Mathlib.Logic.Function.Basic

/-!
# Indexed stores and compacted counts

A buffer is a function of its index.  `scatter` is a store of many rows at once.  `cumsum` and
`searchsortedRight` turn counts per row into one flat range of entries: `searchsortedRight_cumsum`
says which row an entry belongs to, and `exists_row` that every entry below the sum of the counts
belongs to one.
-/

namespace FlashNext
namespace Tensor

section Scatter

variable {α : Type} {buffer : Nat → α} {writes : List (Nat × α)} {i : Nat} {x : α}

/-- `buffer[locs] = values`, row after row. -/
def scatter (buffer : Nat → α) : List (Nat × α) → Nat → α
  | [] => buffer
  | (loc, value) :: writes => scatter (Function.update buffer loc value) writes

theorem scatter_of_notMem (h : ∀ w ∈ writes, w.1 ≠ i) : scatter buffer writes i = buffer i := by
  induction writes generalizing buffer with
  | nil => rfl
  | cons w writes ih =>
    have hw : i ≠ w.1 := (h w List.mem_cons_self).symm
    rw [scatter, ih fun v hv => h v (List.mem_cons_of_mem w hv), Function.update_of_ne hw]

/-- The rows that are stored to one place may come in any order when they agree. -/
theorem scatter_of_mem (hmem : ∃ w ∈ writes, w.1 = i) (h : ∀ w ∈ writes, w.1 = i → w.2 = x) :
    scatter buffer writes i = x := by
  induction writes generalizing buffer with
  | nil =>
    obtain ⟨w, hw, -⟩ := hmem
    exact absurd hw List.not_mem_nil
  | cons w writes ih =>
    have htail : ∀ v ∈ writes, v.1 = i → v.2 = x := fun v hv => h v (List.mem_cons_of_mem w hv)
    rw [scatter]
    by_cases hlater : ∃ v ∈ writes, v.1 = i
    · exact ih hlater htail
    · have hnone : ∀ v ∈ writes, v.1 ≠ i := fun v hv he => hlater ⟨v, hv, he⟩
      obtain ⟨v, hv, rfl⟩ := hmem
      rcases List.mem_cons.mp hv with rfl | hv
      · rw [scatter_of_notMem hnone, Function.update_self]
        exact h v List.mem_cons_self rfl
      · exact absurd rfl (hnone v hv)

theorem mem_zip_rows {locs : Nat → Nat} {values : List α} {w : Nat × α} :
    w ∈ ((List.range values.length).map locs).zip values ↔
      ∃ j, ∃ h : j < values.length, w = (locs j, values[j]) := by
  have hlen : (((List.range values.length).map locs).zip values).length = values.length := by simp
  constructor
  · intro hw
    obtain ⟨j, hj, rfl⟩ := List.getElem_of_mem hw
    rw [hlen] at hj
    exact ⟨j, hj, by simp⟩
  · rintro ⟨j, hj, rfl⟩
    refine List.mem_iff_getElem.mpr ⟨j, hlen.symm ▸ hj, by simp⟩

/-- A row whose place is its own is found there. -/
theorem scatter_rows {locs : Nat → Nat} {values : List α} {j : Nat} (hj : j < values.length)
    (h : ∀ j' < values.length, locs j' = locs j → j' = j) :
    scatter buffer (((List.range values.length).map locs).zip values) (locs j) = values[j] := by
  refine scatter_of_mem ⟨_, mem_zip_rows.mpr ⟨j, hj, rfl⟩, rfl⟩ ?_
  intro w hw hloc
  obtain ⟨j', hj', rfl⟩ := mem_zip_rows.mp hw
  obtain rfl : j' = j := h j' hj' hloc
  rfl

theorem scatter_rows_of_ne {locs : Nat → Nat} {values : List α}
    (h : ∀ j < values.length, locs j ≠ i) :
    scatter buffer (((List.range values.length).map locs).zip values) i = buffer i := by
  refine scatter_of_notMem fun w hw => ?_
  obtain ⟨j, hj, rfl⟩ := mem_zip_rows.mp hw
  exact h j hj

end Scatter

section Counts

variable {counts : List Nat} {entry i : Nat}

def cumsum (counts : List Nat) : List Nat :=
  (List.range counts.length).map fun i => (counts.take (i + 1)).sum

/-- `searchsorted(ends, entry, right=True)`. -/
def searchsortedRight (ends : List Nat) (entry : Nat) : Nat :=
  ends.findIdx fun stop => decide (entry < stop)

@[simp] theorem length_cumsum : (cumsum counts).length = counts.length := by
  rw [cumsum, List.length_map, List.length_range]

theorem getElem_cumsum (h : i < (cumsum counts).length) :
    (cumsum counts)[i] = (counts.take (i + 1)).sum := by
  simp only [cumsum, List.getElem_map, List.getElem_range]

theorem sum_take_succ_getD (counts : List Nat) (i : Nat) :
    (counts.take (i + 1)).sum = (counts.take i).sum + counts.getD i 0 := by
  induction counts generalizing i with
  | nil => simp
  | cons c counts ih =>
    cases i with
    | zero => simp
    | succ i =>
      rw [List.take_succ_cons, List.sum_cons, ih, List.take_succ_cons, List.sum_cons,
        List.getD_cons_succ]
      omega

/-- An entry belongs to the row whose part of the flat range it lies in. -/
theorem searchsortedRight_cumsum (hi : i < counts.length) (hlow : (counts.take i).sum ≤ entry)
    (hhigh : entry < (counts.take (i + 1)).sum) :
    searchsortedRight (cumsum counts) entry = i := by
  have hlen : i < (cumsum counts).length := by
    rw [length_cumsum]
    exact hi
  refine (List.findIdx_eq hlen).mpr ⟨?_, fun j hj => ?_⟩
  · rw [getElem_cumsum, decide_eq_true_eq]
    exact hhigh
  · rw [getElem_cumsum, decide_eq_false_iff_not]
    have hmono : (counts.take (j + 1)).sum ≤ (counts.take i).sum := List.monotone_sum_take counts hj
    omega

theorem exists_row (h : entry < counts.sum) :
    ∃ i < counts.length, (counts.take i).sum ≤ entry ∧ entry < (counts.take (i + 1)).sum := by
  induction counts generalizing entry with
  | nil => exact absurd h (Nat.not_lt_zero entry)
  | cons c counts ih =>
    rw [List.sum_cons] at h
    by_cases hc : entry < c
    · refine ⟨0, Nat.succ_pos _, Nat.zero_le _, ?_⟩
      rw [List.take_succ_cons, List.take_zero, List.sum_cons, List.sum_nil]
      omega
    · have hrest : entry - c < counts.sum := by omega
      obtain ⟨i, hi, hlow, hhigh⟩ := ih hrest
      refine ⟨i + 1, Nat.succ_lt_succ hi, ?_, ?_⟩
      · rw [List.take_succ_cons, List.sum_cons]
        omega
      · rw [List.take_succ_cons, List.sum_cons]
        omega

end Counts

end Tensor
end FlashNext
