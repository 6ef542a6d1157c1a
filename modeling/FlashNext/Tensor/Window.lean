import Mathlib.Data.List.Basic
import Mathlib.Data.List.GetD
import Mathlib.Data.List.TakeWhile

/-!
# Windows over a padded sequence

`lastOf pad k xs` is the last `k` elements of a sequence that is padded on the left.  The elements
that follow a sequence, put behind its last `k` elements, give the last elements of every longer
prefix (`take_drop_lastOf`), and every window over them is one of a longer prefix too
(`window_lastOf`).
-/

namespace FlashNext
namespace Tensor

variable {α : Type} {pad : α} {k : Nat} {xs ys rest : List α}

def lastOf (pad : α) (k : Nat) (xs : List α) : List α :=
  (List.replicate k pad ++ xs).drop xs.length

@[simp] theorem length_lastOf : (lastOf pad k xs).length = k := by
  rw [lastOf, List.length_drop, List.length_append, List.length_replicate]
  omega

@[simp] theorem lastOf_nil : lastOf pad k [] = List.replicate k pad := by
  rw [lastOf, List.append_nil, List.length_nil, List.drop_zero]

theorem lastOf_append_eq :
    lastOf pad k xs ++ ys = (List.replicate k pad ++ (xs ++ ys)).drop xs.length := by
  have hle : xs.length ≤ (List.replicate k pad ++ xs).length := by
    rw [List.length_append]
    exact Nat.le_add_left _ _
  rw [lastOf, ← List.append_assoc, List.drop_append_of_le_length hle]

/-- The last elements of a longer sequence. -/
theorem drop_lastOf : (lastOf pad k xs ++ ys).drop ys.length = lastOf pad k (xs ++ ys) := by
  rw [lastOf_append_eq, List.drop_drop, lastOf, List.length_append]

theorem take_drop_lastOf :
    ((lastOf pad k xs ++ (ys ++ rest)).drop ys.length).take k = lastOf pad k (xs ++ ys) := by
  have hle : ys.length ≤ (lastOf pad k xs ++ ys).length := by
    rw [List.length_append]
    exact Nat.le_add_left _ _
  rw [← List.append_assoc, List.drop_append_of_le_length hle, drop_lastOf,
    List.take_append_of_le_length (Nat.le_of_eq length_lastOf.symm),
    List.take_of_length_le (Nat.le_of_eq length_lastOf)]

theorem lastOf_concat {x : α} : lastOf pad k xs ++ [x] = lastOf pad (k + 1) (xs ++ [x]) := by
  rw [lastOf_append_eq, lastOf, List.length_append, List.replicate_succ, List.cons_append,
    List.length_singleton, List.drop_succ_cons]

/-- The window that ends with an element. -/
theorem window_lastOf {c : Nat} (hc : c < ys.length) :
    ((lastOf pad k xs ++ (ys ++ rest)).drop c).take (k + 1) =
      lastOf pad (k + 1) (xs ++ ys.take (c + 1)) := by
  have hlen : (ys.take c).length = c := List.length_take_of_le (Nat.le_of_lt hc)
  have htake : ys.take (c + 1) = ys.take c ++ [ys[c]] := List.take_succ_eq_append_getElem hc
  have hsplit : ys = ys.take c ++ (ys[c] :: ys.drop (c + 1)) := by
    rw [← List.drop_eq_getElem_cons hc, List.take_append_drop]
  have hrow : lastOf pad k xs ++ (ys ++ rest) =
      (lastOf pad k xs ++ ys.take c) ++ (ys[c] :: (ys.drop (c + 1) ++ rest)) := by
    conv_lhs => rw [hsplit]
    simp only [List.append_assoc, List.cons_append]
  have hle : c ≤ (lastOf pad k xs ++ ys.take c).length := by
    rw [List.length_append, hlen]
    exact Nat.le_add_left _ _
  have hdrop : (lastOf pad k xs ++ ys.take c).drop c = lastOf pad k (xs ++ ys.take c) := by
    have h := @drop_lastOf α pad k xs (ys.take c)
    rwa [hlen] at h
  have hfull : (lastOf pad k (xs ++ ys.take c) ++ [ys[c]]).length = k + 1 := by
    rw [List.length_append, length_lastOf, List.length_singleton]
  rw [hrow, List.drop_append_of_le_length hle, hdrop, htake, ← List.append_assoc, ← lastOf_concat,
    List.append_cons, List.take_append_of_le_length (Nat.le_of_eq hfull.symm),
    List.take_of_length_le (Nat.le_of_eq hfull)]

/-! ## What a separator leaves of a window -/

section Segment

variable [DecidableEq α] {sep : α} {i : Nat}

theorem takeWhile_append_replicate {m : Nat} :
    (xs ++ List.replicate m sep).takeWhile (· ≠ sep) = xs.takeWhile (· ≠ sep) := by
  induction xs with
  | nil => cases m <;> simp [List.replicate_succ]
  | cons x xs ih =>
    rw [List.cons_append, List.takeWhile_cons, List.takeWhile_cons, ih]

theorem getD_takeWhile_take (hi : i < k) :
    ((xs.take k).takeWhile (· ≠ sep)).getD i sep = (xs.takeWhile (· ≠ sep)).getD i sep := by
  induction xs generalizing i k with
  | nil => rw [List.take_nil]
  | cons x xs ih =>
    cases k with
    | zero => exact absurd hi (Nat.not_lt_zero i)
    | succ k =>
      rw [List.take_succ_cons, List.takeWhile_cons, List.takeWhile_cons]
      by_cases hx : x = sep
      · simp [hx]
      · simp only [hx, ne_eq, not_false_eq_true, decide_true, if_true]
        cases i with
        | zero => rfl
        | succ i =>
          rw [List.getD_cons_succ, List.getD_cons_succ]
          exact ih (Nat.lt_of_succ_lt_succ hi)

/-- From the separator on, all is the separator. -/
theorem getD_takeWhile_of_mem (h : sep ∈ xs.take (i + 1)) :
    (xs.takeWhile (· ≠ sep)).getD i sep = sep := by
  induction xs generalizing i with
  | nil => rfl
  | cons x xs ih =>
    rw [List.takeWhile_cons]
    by_cases hx : x = sep
    · simp [hx]
    · rw [List.take_succ_cons, List.mem_cons] at h
      have hmem : sep ∈ xs.take i := h.resolve_left fun heq => hx heq.symm
      simp only [hx, ne_eq, not_false_eq_true, decide_true, if_true]
      cases i with
      | zero => exact absurd hmem List.not_mem_nil
      | succ i =>
        rw [List.getD_cons_succ]
        exact ih hmem

/-- An element before the separator is kept. -/
theorem getD_takeWhile_of_notMem (h : sep ∉ xs.take (i + 1)) :
    (xs.takeWhile (· ≠ sep)).getD i sep = xs.getD i sep := by
  induction xs generalizing i with
  | nil => rfl
  | cons x xs ih =>
    rw [List.take_succ_cons, List.mem_cons, not_or] at h
    have hx : x ≠ sep := fun heq => h.1 heq.symm
    rw [List.takeWhile_cons]
    simp only [hx, ne_eq, not_false_eq_true, decide_true, if_true]
    cases i with
    | zero => rfl
    | succ i =>
      rw [List.getD_cons_succ, List.getD_cons_succ]
      exact ih h.2

end Segment

end Tensor
end FlashNext
