import Mathlib.Data.List.Forall2
import Mathlib.Data.List.GetD
import Mathlib.Data.List.Perm.Basic
import Mathlib.Data.List.Sort

/-!
# Samples below one another

A sample lies below another when its elements can be paired with elements that are no less.  Then
it lies below the other in sorted order too, place by place (`Below.sort`), so every statistic that
is taken from places of the sorted sample grows with the sample.
-/

namespace FlashNext
namespace Stats

variable {α : Type} [LinearOrder α] {xs ys zs s t : List α} {x y a : α}

/-- The elements of the first sample are paired with elements of the second that are no less. -/
def Below (xs ys : List α) : Prop := ∃ paired, List.Forall₂ (· ≤ ·) xs paired ∧ paired.Perm ys

theorem below_of_forall₂ (h : List.Forall₂ (· ≤ ·) xs ys) : Below xs ys :=
  ⟨ys, h, List.Perm.refl ys⟩

theorem below_of_perm (h : xs.Perm ys) : Below xs ys :=
  ⟨xs, List.forall₂_same.mpr fun x _ => le_refl x, h⟩

theorem Below.length_eq (h : Below xs ys) : xs.length = ys.length := by
  obtain ⟨paired, hle, hperm⟩ := h
  rw [hle.length_eq, hperm.length_eq]

theorem Below.perm_left (h : Below ys zs) (hperm : xs.Perm ys) : Below xs zs := by
  obtain ⟨paired, hle, hpaired⟩ := h
  obtain ⟨paired', hle', hperm'⟩ := List.perm_comp_forall₂ hperm hle
  exact ⟨paired', hle', hperm'.trans hpaired⟩

theorem orderedInsert_head (h : (a :: s).Pairwise (· ≤ ·)) : s.orderedInsert (· ≤ ·) a = a :: s := by
  cases s with
  | nil => rfl
  | cons b s => exact List.orderedInsert_cons_of_le _ _ ((List.pairwise_cons.mp h).1 b List.mem_cons_self)

/-- The sample stays below when a lesser element is inserted into it. -/
theorem orderedInsert_mono (hs : s.Pairwise (· ≤ ·)) (ht : t.Pairwise (· ≤ ·))
    (h : List.Forall₂ (· ≤ ·) s t) (hxy : x ≤ y) :
    List.Forall₂ (· ≤ ·) (s.orderedInsert (· ≤ ·) x) (t.orderedInsert (· ≤ ·) y) := by
  induction h generalizing x y with
  | nil => exact .cons hxy .nil
  | @cons a b s t hab hst ih =>
    have hs' := (List.pairwise_cons.mp hs).2
    have ht' := (List.pairwise_cons.mp ht).2
    rw [List.orderedInsert_cons, List.orderedInsert_cons]
    by_cases hx : x ≤ a
    · rw [if_pos hx]
      by_cases hy : y ≤ b
      · rw [if_pos hy]
        exact .cons hxy (.cons hab hst)
      · -- `a` takes the place that `y` is inserted after
        have hay : a ≤ y := le_trans hab (le_of_not_ge hy)
        rw [if_neg hy, ← orderedInsert_head hs]
        exact .cons (le_trans hx hab) (ih hs' ht' hay)
    · have hax : a ≤ x := le_of_not_ge hx
      rw [if_neg hx]
      by_cases hy : y ≤ b
      · rw [if_pos hy, ← orderedInsert_head ht]
        exact .cons (le_trans hax hxy) (ih hs' ht' (le_trans hxy hy))
      · rw [if_neg hy]
        exact .cons hab (ih hs' ht' hxy)

theorem sort_mono (h : List.Forall₂ (· ≤ ·) xs ys) :
    List.Forall₂ (· ≤ ·) (xs.insertionSort (· ≤ ·)) (ys.insertionSort (· ≤ ·)) := by
  induction h with
  | nil => exact .nil
  | @cons x y xs ys hxy _ ih =>
    rw [List.insertionSort_cons, List.insertionSort_cons]
    exact orderedInsert_mono (List.pairwise_insertionSort _ _) (List.pairwise_insertionSort _ _)
      ih hxy

theorem sort_perm (h : xs.Perm ys) : xs.insertionSort (· ≤ ·) = ys.insertionSort (· ≤ ·) :=
  ((List.perm_insertionSort _ xs).trans (h.trans (List.perm_insertionSort _ ys).symm)).eq_of_pairwise
    (fun _ _ _ _ hxy hyx => le_antisymm hxy hyx) (List.pairwise_insertionSort _ xs)
    (List.pairwise_insertionSort _ ys)

/-- Sorted, the samples are below one another place by place. -/
theorem Below.sort (h : Below xs ys) :
    List.Forall₂ (· ≤ ·) (xs.insertionSort (· ≤ ·)) (ys.insertionSort (· ≤ ·)) := by
  obtain ⟨paired, hle, hperm⟩ := h
  rw [← sort_perm hperm]
  exact sort_mono hle

theorem getD_mono (h : List.Forall₂ (· ≤ ·) s t) (i : Nat) (d : α) : s.getD i d ≤ t.getD i d := by
  induction h generalizing i with
  | nil => exact le_refl _
  | cons hab _ ih =>
    cases i with
    | zero => exact hab
    | succ i => exact ih i

end Stats
end FlashNext
