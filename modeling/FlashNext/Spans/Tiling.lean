import Mathlib.Algebra.GroupWithZero.Nat
import Mathlib.Data.List.Sort

/-!
# Tilings of an interval

Half-open spans that each start where the one before ends cover every place between the first
start and the last end once.
-/

namespace FlashNext
namespace Spans

/-- The place is inside the span. -/
def covers (place : Nat) (span : Nat × Nat) : Bool := decide (span.1 ≤ place ∧ place < span.2)

/-- The spans lead from `lo` to `hi`. -/
def Tiles : Nat → List (Nat × Nat) → Nat → Prop
  | lo, [], hi => lo = hi
  | lo, span :: spans, hi => span.1 = lo ∧ span.1 ≤ span.2 ∧ Tiles span.2 spans hi

variable {lo hi : Nat} {spans : List (Nat × Nat)}

theorem Tiles.le (h : Tiles lo spans hi) : lo ≤ hi := by
  induction spans generalizing lo with
  | nil => exact Nat.le_of_eq h
  | cons span spans ih =>
    obtain ⟨hstart, hspan, htail⟩ := h
    have := ih htail
    omega

/-- The lengths of the spans add up to what they lead over. -/
theorem Tiles.sum (h : Tiles lo spans hi) :
    lo + (spans.map fun span => span.2 - span.1).sum = hi := by
  induction spans generalizing lo with
  | nil => exact h
  | cons span spans ih =>
    obtain ⟨hstart, hspan, htail⟩ := h
    have := ih htail
    rw [List.map_cons, List.sum_cons]
    omega

/-- No span covers a place before the first. -/
theorem Tiles.countP_before (h : Tiles lo spans hi) {place : Nat} (hplace : place < lo) :
    spans.countP (covers place) = 0 := by
  induction spans generalizing lo with
  | nil => rfl
  | cons span spans ih =>
    obtain ⟨hstart, hspan, htail⟩ := h
    have hout : ¬ covers place span = true := by
      rw [covers, decide_eq_true_eq]
      omega
    rw [List.countP_cons_of_neg hout, ih htail (by omega)]

/-- Every place is covered once. -/
theorem Tiles.countP (h : Tiles lo spans hi) {place : Nat} (hlo : lo ≤ place) (hhi : place < hi) :
    spans.countP (covers place) = 1 := by
  induction spans generalizing lo with
  | nil =>
    have : lo = hi := h
    omega
  | cons span spans ih =>
    obtain ⟨hstart, hspan, htail⟩ := h
    by_cases hin : place < span.2
    · have hcovers : covers place span = true := by
        rw [covers, decide_eq_true_eq]
        omega
      rw [List.countP_cons_of_pos hcovers, htail.countP_before hin]
    · have hout : ¬ covers place span = true := by
        rw [covers, decide_eq_true_eq]
        omega
      rw [List.countP_cons_of_neg hout]
      exact ih htail (by omega)

/-! ## Spans that are apart -/

/-- One span ends before the other starts. -/
def Apart (a b : Nat × Nat) : Prop := a.2 ≤ b.1 ∨ b.2 ≤ a.1

theorem Apart.shift (front : Nat) {a b : Nat × Nat} (h : Apart a b) :
    Apart (front + a.1, front + a.2) (front + b.1, front + b.2) := by
  unfold Apart at *
  dsimp only
  omega

/-- Spans that are moved together stay apart. -/
theorem pairwise_shift (front : Nat) {spans : List (Nat × Nat)} (h : spans.Pairwise Apart) :
    (spans.map fun span => (front + span.1, front + span.2)).Pairwise Apart :=
  List.pairwise_map.mpr (h.imp (Apart.shift front))

/-! ## Sorted spans -/

/-- The order of pairs: by the first place, then by the second. -/
def spanLe (a b : Nat × Nat) : Bool := decide (a.1 < b.1) || (a.1 == b.1 && decide (a.2 ≤ b.2))

theorem spanLe_iff {a b : Nat × Nat} : spanLe a b = true ↔ a.1 < b.1 ∨ a.1 = b.1 ∧ a.2 ≤ b.2 := by
  rw [spanLe, Bool.or_eq_true, Bool.and_eq_true, decide_eq_true_eq, decide_eq_true_eq, beq_iff_eq]

theorem spanLe_trans (a b c : Nat × Nat) (hab : spanLe a b = true) (hbc : spanLe b c = true) :
    spanLe a c = true := by
  rw [spanLe_iff] at *
  omega

theorem spanLe_total (a b : Nat × Nat) : (spanLe a b || spanLe b a) = true := by
  rw [Bool.or_eq_true, spanLe_iff, spanLe_iff]
  omega

theorem spanLe_antisymm (a b : Nat × Nat) (hab : spanLe a b = true) (hba : spanLe b a = true) :
    a = b := by
  rw [spanLe_iff] at hab hba
  rw [Prod.ext_iff]
  omega

/-- Sorting gives the one sorted arrangement. -/
theorem mergeSort_eq {sorted : List (Nat × Nat)} (h : spans.Perm sorted)
    (hsorted : sorted.Pairwise fun a b => spanLe a b = true) : spans.mergeSort spanLe = sorted :=
  ((List.mergeSort_perm spans spanLe).trans h).eq_of_pairwise
    (fun a b _ _ => spanLe_antisymm a b) (List.pairwise_mergeSort spanLe_trans spanLe_total _) hsorted

end Spans
end FlashNext
