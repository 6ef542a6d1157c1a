import FlashNext.Py.Text
import FlashNext.Text.Words
import Mathlib.Data.List.TakeWhile

/-!
# Where a pattern occurs

`rfind` gives the last place at which a pattern occurs, and what is stripped from a string
changes none of its words.
-/

namespace FlashNext
namespace Py

variable {pattern s u v : Str} {i j : Nat}

/-- The pattern stands in the string at this place. -/
def OccursAt (pattern s : Str) (i : Nat) : Prop := pattern <+: s.drop i

theorem occursAt_iff : OccursAt pattern s i ↔ ∃ v, s.drop i = pattern ++ v := by
  unfold OccursAt
  constructor
  · intro h
    obtain ⟨v, hv⟩ := h
    exact ⟨v, hv.symm⟩
  · intro h
    obtain ⟨v, hv⟩ := h
    exact ⟨v, hv.symm⟩

theorem not_occursAt_nil (hpattern : pattern ≠ []) : ¬ OccursAt pattern [] i := by
  intro h
  rw [OccursAt, List.drop_nil, List.prefix_nil] at h
  exact hpattern h

/-- A place inside the string splits it. -/
theorem OccursAt.split (hpattern : pattern ≠ []) (h : OccursAt pattern s i) :
    s = s.take i ++ pattern ++ s.drop (i + pattern.length) ∧ (s.take i).length = i := by
  obtain ⟨v, hv⟩ := occursAt_iff.mp h
  have hlength : (s.drop i).length = pattern.length + v.length := by rw [hv, List.length_append]
  have hpos : 0 < pattern.length := List.length_pos_iff.mpr hpattern
  rw [List.length_drop] at hlength
  constructor
  · have hrest : s.drop (i + pattern.length) = v := by
      rw [← List.drop_drop, hv, List.drop_left]
    rw [hrest, List.append_assoc, ← hv, List.take_append_drop]
  · rw [List.length_take]
    omega

theorem occursAt_split : OccursAt pattern (u ++ pattern ++ v) u.length := by
  rw [occursAt_iff]
  exact ⟨v, by simp⟩

theorem occursAt_iff_isInfix (hpattern : pattern ≠ []) :
    (∃ i, OccursAt pattern s i) ↔ pattern <:+: s := by
  constructor
  · intro h
    obtain ⟨i, hi⟩ := h
    exact ⟨s.take i, s.drop (i + pattern.length), (hi.split hpattern).1.symm⟩
  · intro h
    obtain ⟨u, v, huv⟩ := h
    exact ⟨u.length, huv ▸ occursAt_split⟩

/-- Behind a string a pattern occurs where it occurs in the rest. -/
theorem occursAt_append (h : u.length ≤ i) :
    OccursAt pattern (u ++ s) i ↔ OccursAt pattern s (i - u.length) := by
  unfold OccursAt
  rw [List.drop_append, List.drop_eq_nil_of_le h, List.nil_append]

/-- A pattern does not start inside a string that does not hold its first character. -/
theorem not_occursAt_inside {c : Nat} {q : Str} (hpattern : pattern.head? = some c)
    (hq : c ∉ q) (hi : i < q.length) : ¬ OccursAt pattern (q ++ v) i := by
  intro h
  obtain ⟨rest, hrest⟩ := occursAt_iff.mp h
  rw [List.drop_append_of_le_length (by omega)] at hrest
  have hhead : (q.drop i).head? = some c := by
    have hne : q.drop i ≠ [] := by
      rw [ne_eq, List.drop_eq_nil_iff]
      omega
    have hall := congrArg List.head? hrest
    rw [List.head?_append_of_ne_nil _ hne, List.head?_append, hpattern] at hall
    simpa using hall
  exact hq (List.mem_of_mem_drop (List.mem_of_mem_head? hhead))

/-! ## `rfind` -/

/-- `rfind` is the last place, or -1 where there is none. -/
theorem rfind_cases (hpattern : pattern ≠ []) (s : Str) :
    (rfind pattern s = -1 ∧ ∀ i, ¬ OccursAt pattern s i) ∨
      ∃ i : Nat, rfind pattern s = i ∧ OccursAt pattern s i ∧
        ∀ j, OccursAt pattern s j → j ≤ i := by
  induction s with
  | nil =>
    left
    exact ⟨rfl, fun i => not_occursAt_nil hpattern⟩
  | cons c s ih =>
    have hfirst : OccursAt pattern (c :: s) 0 ↔ pattern.isPrefixOf (c :: s) = true := by
      simp [OccursAt]
    have hlater : ∀ i, OccursAt pattern (c :: s) (i + 1) ↔ OccursAt pattern s i := by
      intro i
      simp [OccursAt]
    unfold rfind
    cases ih with
    | inl ih =>
      obtain ⟨hnone, hall⟩ := ih
      have hneg : ¬ (0 : Int) ≤ -1 := by omega
      by_cases hhere : pattern.isPrefixOf (c :: s) = true
      · right
        refine ⟨0, by simp [hnone, hhere], hfirst.mpr hhere, ?_⟩
        intro j hj
        cases j with
        | zero => omega
        | succ j => exact absurd ((hlater j).mp hj) (hall j)
      · left
        refine ⟨by simp [hnone, hhere], ?_⟩
        intro i hi
        cases i with
        | zero => exact hhere (hfirst.mp hi)
        | succ i => exact hall i ((hlater i).mp hi)
    | inr ih =>
      obtain ⟨i, hi, hocc, hlast⟩ := ih
      have hpos : (0 : Int) ≤ i := by omega
      right
      refine ⟨i + 1, ?_, (hlater i).mpr hocc, ?_⟩
      · rw [hi]
        simp [hpos]
      · intro j hj
        cases j with
        | zero => omega
        | succ j =>
          have := hlast j ((hlater j).mp hj)
          omega

/-! ## Words of a stripped string -/

theorem words_strip (s : Str) : words (strip s) = words s := by
  have hspace : ∀ t : Str, ∀ c ∈ t.takeWhile isSpace, isSpace c = true := by
    intro t c hc
    exact List.mem_takeWhile_imp hc
  have hfront : words (s.dropWhile isSpace) = words s := by
    have hall := Text.words_append_front (hspace s) (s.dropWhile isSpace)
    rw [List.takeWhile_append_dropWhile] at hall
    exact hall.symm
  let t := s.dropWhile isSpace
  have hback : words (t.reverse.dropWhile isSpace).reverse = words t := by
    have hsplit : (t.reverse.dropWhile isSpace).reverse ++ (t.reverse.takeWhile isSpace).reverse =
        t := by
      rw [← List.reverse_append, List.takeWhile_append_dropWhile, List.reverse_reverse]
    have hall := Text.words_append_back (t.reverse.dropWhile isSpace).reverse
      (fun c hc => hspace t.reverse c (List.mem_reverse.mp hc))
    rw [hsplit] at hall
    exact hall.symm
  rw [strip, hback, hfront]

/-- Words without spaces are written in one way. -/
theorem spaced_inj {ws ws' : List Str} (hws : ∀ w ∈ ws, w ≠ [] ∧ ∀ c ∈ w, isSpace c = false)
    (hws' : ∀ w ∈ ws', w ≠ [] ∧ ∀ c ∈ w, isSpace c = false) (h : spaced ws = spaced ws') :
    ws = ws' := by
  have hread : words (spaced ws) = ws := Text.words_intercalate rfl hws
  have hread' : words (spaced ws') = ws' := Text.words_intercalate rfl hws'
  rw [← hread, h, hread']

end Py
end FlashNext
