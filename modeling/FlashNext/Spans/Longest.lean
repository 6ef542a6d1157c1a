import Mathlib.Data.List.Induction

/-!
# The first of the longest

A scan that replaces what it kept only by something longer ends with the first of the longest.
-/

namespace FlashNext
namespace Spans

variable {α : Type} {xs : List α} {x : α}

/-- The longer one; of two that are as long as each other, the one that came first. -/
def keepLonger (key : α → Nat) (best : Option α) (x : α) : Option α :=
  match best with
  | none => some x
  | some b => if key b < key x then some x else some b

theorem keepLonger_cases {key : α → Nat} {best : Option α} {kept : α}
    (h : keepLonger key best x = some kept) : kept = x ∨ best = some kept := by
  cases best with
  | none => exact .inl (Option.some.inj h).symm
  | some b =>
    change (if key b < key x then some x else some b) = some kept at h
    split at h
    · exact .inl (Option.some.inj h).symm
    · exact .inr h

def longest (key : α → Nat) (xs : List α) : Nat := (xs.map key).foldl max 0

theorem longest_concat (key : α → Nat) (xs : List α) (x : α) :
    longest key (xs ++ [x]) = max (longest key xs) (key x) := by
  rw [longest, List.map_append, List.foldl_append]
  rfl

theorem le_longest (key : α → Nat) (h : x ∈ xs) : key x ≤ longest key xs := by
  induction xs using List.reverseRecOn with
  | nil => exact absurd h List.not_mem_nil
  | append_singleton xs y ih =>
    rw [longest_concat]
    rcases List.mem_append.mp h with h | h
    · exact Nat.le_trans (ih h) (Nat.le_max_left _ _)
    · rw [List.mem_singleton.mp h]
      exact Nat.le_max_right _ _

theorem exists_longest (key : α → Nat) (h : xs ≠ []) : ∃ x ∈ xs, key x = longest key xs := by
  induction xs using List.reverseRecOn with
  | nil => exact absurd rfl h
  | append_singleton xs y ih =>
    rw [longest_concat]
    by_cases hle : longest key xs ≤ key y
    · exact ⟨y, List.mem_append_right _ (List.mem_singleton_self y), (Nat.max_eq_right hle).symm⟩
    · have hne : xs ≠ [] := by
        rintro rfl
        exact hle (Nat.zero_le _)
      obtain ⟨x, hx, hkey⟩ := ih hne
      exact ⟨x, List.mem_append_left _ hx, by omega⟩

theorem foldl_keepLonger (key : α → Nat) (xs : List α) :
    xs.foldl (keepLonger key) none = (xs.filter fun x => key x = longest key xs).head? := by
  induction xs using List.reverseRecOn with
  | nil => rfl
  | append_singleton xs y ih =>
    rw [List.foldl_append, ih, List.foldl_cons, List.foldl_nil, longest_concat,
      List.filter_append, List.head?_append]
    by_cases hlt : longest key xs < key y
    · have hmax : max (longest key xs) (key y) = key y := Nat.max_eq_right (Nat.le_of_lt hlt)
      have hold : xs.filter (fun x => key x = key y) = [] := by
        refine List.filter_eq_nil_iff.mpr fun x hx hkey => ?_
        have hle := le_longest key hx
        rw [decide_eq_true_eq] at hkey
        omega
      have hnew : [y].filter (fun x => key x = key y) = [y] :=
        List.filter_cons_of_pos (decide_eq_true rfl)
      rw [hmax, hold, hnew]
      cases hbest : (xs.filter fun x => key x = longest key xs).head? with
      | none => rfl
      | some b =>
        have hb := List.mem_filter.mp (List.mem_of_head? hbest)
        have hkey : key b < key y := by
          rw [of_decide_eq_true hb.2]
          exact hlt
        exact if_pos hkey
    · have hmax : max (longest key xs) (key y) = longest key xs :=
        Nat.max_eq_left (Nat.le_of_not_lt hlt)
      rw [hmax]
      cases hbest : (xs.filter fun x => key x = longest key xs).head? with
      | none =>
        have hnil : xs = [] := by
          by_contra hne
          obtain ⟨x, hx, hkey⟩ := exists_longest key hne
          have hmem : x ∈ xs.filter fun x => key x = longest key xs :=
            List.mem_filter.mpr ⟨hx, decide_eq_true hkey⟩
          rw [List.head?_eq_none_iff.mp hbest] at hmem
          exact absurd hmem List.not_mem_nil
        subst hnil
        have hzero : key y = longest key [] := Nat.le_zero.mp (Nat.le_of_not_lt hlt)
        have hnew : [y].filter (fun x => key x = longest key []) = [y] :=
          List.filter_cons_of_pos (decide_eq_true hzero)
        rw [hnew]
        rfl
      | some b =>
        have hb := List.mem_filter.mp (List.mem_of_head? hbest)
        have hkey : ¬ key b < key y := by
          rw [of_decide_eq_true hb.2]
          exact hlt
        exact if_neg hkey

theorem foldl_keepLonger_congr (key key' : α → Nat)
    (h : ∀ x ∈ xs, ∀ y ∈ xs, (key x < key y ↔ key' x < key' y)) :
    xs.foldl (keepLonger key) none = xs.foldl (keepLonger key') none := by
  have hfold : ∀ (ys : List α) (best : Option α), (∀ y ∈ ys, y ∈ xs) → (∀ b ∈ best, b ∈ xs) →
      ys.foldl (keepLonger key) best = ys.foldl (keepLonger key') best := by
    intro ys
    induction ys with
    | nil => exact fun _ _ _ => rfl
    | cons y ys ih =>
      intro best hys hbest
      obtain ⟨hy, hys⟩ := List.forall_mem_cons.mp hys
      have hround : keepLonger key best y = keepLonger key' best y := by
        cases best with
        | none => rfl
        | some b =>
          show (if key b < key y then some y else some b) = if key' b < key' y then some y else some b
          simp only [h b (hbest b rfl) y hy]
      have hkept : ∀ b ∈ keepLonger key' best y, b ∈ xs := by
        intro b hb
        rcases keepLonger_cases hb with hb | hb
        · rw [hb]
          exact hy
        · exact hbest b hb
      rw [List.foldl_cons, List.foldl_cons, hround]
      exact ih _ hys hkept
  exact hfold xs none (fun _ hx => hx) fun b hb => by cases hb

end Spans
end FlashNext
