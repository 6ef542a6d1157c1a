import FlashNext.Tensor.Index

/-!
# Stores in any order

`buffer[indices] = rows` stores its rows in no fixed order, so a place to which several rows go
keeps one of them: `Stored` relates the buffer before to the buffers after.  Where the rows are
images of others under a map, so is every buffer that the store can leave (`Stored.of_map`).
-/

namespace FlashNext
namespace Tensor

variable {α β : Type} {writes : List (Nat × α)} {m m' : Nat → α} {i : Nat} {x : α}

/-- Each place keeps one of the rows that are stored to it, or what it had where there are none. -/
def Stored (writes : List (Nat × α)) (m m' : Nat → α) : Prop :=
  ∀ i, (∃ w ∈ writes, w.1 = i ∧ m' i = w.2) ∨ (∀ w ∈ writes, w.1 ≠ i) ∧ m' i = m i

/-- Row after row is one of the orders. -/
theorem scatter_stored (writes : List (Nat × α)) (m : Nat → α) :
    Stored writes m (scatter m writes) := by
  intro i
  induction writes generalizing m with
  | nil => exact .inr ⟨fun _ h => absurd h List.not_mem_nil, rfl⟩
  | cons w writes ih =>
    rw [scatter]
    rcases ih (Function.update m w.1 w.2) with ⟨v, hv, hi, hx⟩ | ⟨hnone, hx⟩
    · exact .inl ⟨v, List.mem_cons_of_mem w hv, hi, hx⟩
    · by_cases hw : w.1 = i
      · refine .inl ⟨w, List.mem_cons_self, hw, ?_⟩
        rw [hx, ← hw, Function.update_self]
      · refine .inr ⟨fun v hv => ?_, ?_⟩
        · rcases List.mem_cons.mp hv with rfl | hv
          · exact hw
          · exact hnone v hv
        · rw [hx, Function.update_of_ne (Ne.symm hw)]

theorem Stored.eq_of_mem (h : Stored writes m m') (hmem : (i, x) ∈ writes)
    (hsame : ∀ w ∈ writes, w.1 = i → w.2 = x) : m' i = x := by
  rcases h i with ⟨w, hw, hi, hx⟩ | ⟨hnone, -⟩
  · rw [hx]
    exact hsame w hw hi
  · exact absurd rfl (hnone _ hmem)

theorem Stored.eq_of_notMem (h : Stored writes m m') (hnone : ∀ w ∈ writes, w.1 ≠ i) :
    m' i = m i := by
  rcases h i with ⟨w, hw, hi, -⟩ | ⟨-, hx⟩
  · exact absurd hi (hnone w hw)
  · exact hx

/-- A store of images leaves images. -/
theorem Stored.of_map {g : β → α} {writes : List (Nat × β)} {n : Nat → β}
    (h : Stored (writes.map (Prod.map id g)) (g ∘ n) m') :
    ∃ n', Stored writes n n' ∧ m' = g ∘ n' := by
  have hplace : ∀ i, ∃ y, ((∃ w ∈ writes, w.1 = i ∧ y = w.2) ∨ (∀ w ∈ writes, w.1 ≠ i) ∧ y = n i) ∧
      m' i = g y := by
    intro i
    rcases h i with ⟨w, hw, hi, hx⟩ | ⟨hnone, hx⟩
    · obtain ⟨v, hv, rfl⟩ := List.mem_map.mp hw
      exact ⟨v.2, .inl ⟨v, hv, hi, rfl⟩, hx⟩
    · exact ⟨n i, .inr ⟨fun v hv => hnone _ (List.mem_map_of_mem hv), rfl⟩, hx⟩
  choose n' hn' hm' using hplace
  exact ⟨n', hn', funext hm'⟩

end Tensor
end FlashNext
