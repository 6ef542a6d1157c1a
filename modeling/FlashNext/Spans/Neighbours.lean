import FlashNext.Spans.Tiling

/-!
# Neighbours in order

A list of spans in which no span ends behind the start of the next has no two spans that meet,
however far they stand from each other, and neither has any rearrangement of it.  Empty spans
and spans that start together are no exception.
-/

namespace FlashNext
namespace Spans

variable {spans sorted : List (Nat × Nat)}

/-- No span ends behind the start of the next. -/
def Neighbourly : List (Nat × Nat) → Prop
  | a :: b :: spans => a.2 ≤ b.1 ∧ Neighbourly (b :: spans)
  | _ => True

theorem Neighbourly.tail {a : Nat × Nat} (h : Neighbourly (a :: spans)) : Neighbourly spans := by
  cases spans with
  | nil => trivial
  | cons b spans => exact h.2

/-- A span ends before every later one starts: the next one starts behind it, and ends no
earlier than it starts. -/
theorem Neighbourly.head {a b : Nat × Nat} (h : Neighbourly (a :: spans))
    (hspans : ∀ span ∈ spans, span.1 ≤ span.2) (hb : b ∈ spans) : a.2 ≤ b.1 := by
  induction spans generalizing a with
  | nil => simp at hb
  | cons c spans ih =>
    have hnext : a.2 ≤ c.1 := h.1
    by_cases heq : b = c
    · subst heq
      exact hnext
    · have hmem : b ∈ spans := by simpa [heq] using hb
      have hc : c.1 ≤ c.2 := hspans c (by simp)
      have hrest : c.2 ≤ b.1 :=
        ih h.tail (fun span hspan => hspans span (by simp [hspan])) hmem
      omega

theorem Neighbourly.pairwise (h : Neighbourly spans) (hspans : ∀ span ∈ spans, span.1 ≤ span.2) :
    spans.Pairwise Apart := by
  induction spans with
  | nil => exact List.Pairwise.nil
  | cons a spans ih =>
    have hrest : ∀ span ∈ spans, span.1 ≤ span.2 := fun span hspan => hspans span (by simp [hspan])
    apply List.Pairwise.cons
    · intro b hb
      exact Or.inl (h.head hrest hb)
    · exact ih h.tail hrest

theorem Apart.symm {a b : Nat × Nat} (h : Apart a b) : Apart b a := Or.symm h

/-- What is neighbourly in some arrangement is apart in every other. -/
theorem pairwise_of_arranged (hperm : sorted.Perm spans) (h : Neighbourly sorted)
    (hspans : ∀ span ∈ spans, span.1 ≤ span.2) : spans.Pairwise Apart := by
  have hsorted : sorted.Pairwise Apart := by
    apply h.pairwise
    intro span hspan
    exact hspans span (hperm.mem_iff.mp hspan)
  exact hsorted.perm hperm Apart.symm

end Spans
end FlashNext
