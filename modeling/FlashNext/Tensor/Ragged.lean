import FlashNext.Tensor.Index
import Mathlib.Data.List.GetD
import Mathlib.Data.List.Induction

/-!
# Ragged rows

Rows of different lengths, one behind the other.  An element stands behind all rows before its own
(`getElem?_ragged`), and a flat range is made of such rows (`map_range_sum`).
-/

namespace FlashNext
namespace Tensor

variable {β : Type} {counts : List Nat} {f : Nat → Nat → β} {i k : Nat} {x : β}

/-- The elements of all rows. -/
def ragged (counts : List Nat) (f : Nat → Nat → β) : List β :=
  (List.range counts.length).flatMap fun i => (List.range (counts.getD i 0)).map (f i)

theorem ragged_concat (counts : List Nat) (c : Nat) (f : Nat → Nat → β) :
    ragged (counts ++ [c]) f = ragged counts f ++ (List.range c).map (f counts.length) := by
  rw [ragged, List.length_append, List.length_singleton, List.range_succ, List.flatMap_append,
    List.flatMap_singleton, List.getD_append_right _ _ _ _ (Nat.le_refl _), Nat.sub_self]
  congr 1
  refine List.flatMap_congr fun i hi => ?_
  rw [List.getD_append _ _ _ _ (List.mem_range.mp hi)]

theorem length_ragged (counts : List Nat) (f : Nat → Nat → β) :
    (ragged counts f).length = counts.sum := by
  induction counts using List.reverseRecOn with
  | nil => rfl
  | append_singleton counts c ih =>
    rw [ragged_concat, List.length_append, ih, List.length_map, List.length_range, List.sum_append,
      List.sum_singleton]

theorem getElem?_ragged (hi : i < counts.length) (hk : k < counts.getD i 0) :
    (ragged counts f)[(counts.take i).sum + k]? = some (f i k) := by
  induction counts using List.reverseRecOn with
  | nil => exact absurd hi (Nat.not_lt_zero i)
  | append_singleton counts c ih =>
    rw [ragged_concat]
    rw [List.length_append, List.length_singleton] at hi
    by_cases hlast : i < counts.length
    · have hstart : ((counts ++ [c]).take i).sum = (counts.take i).sum := by
        rw [List.take_append_of_le_length (Nat.le_of_lt hlast)]
      rw [List.getD_append _ _ _ _ hlast] at hk
      have hrow := sum_take_succ_getD counts i
      have hsum : (counts.take (i + 1)).sum ≤ counts.sum :=
        (List.take_sublist _ _).sum_le_sum fun _ _ => Nat.zero_le _
      rw [hstart, List.getElem?_append_left (by rw [length_ragged]; omega)]
      exact ih hlast hk
    · have heq : i = counts.length := by omega
      subst heq
      rw [List.getD_append_right _ _ _ _ (Nat.le_refl _), Nat.sub_self] at hk
      have hk : k < c := hk
      have hstart : ((counts ++ [c]).take counts.length).sum = counts.sum := by
        rw [List.take_left]
      rw [hstart, ← length_ragged counts f, List.getElem?_append_right (Nat.le_add_right _ _),
        Nat.add_sub_cancel_left, List.getElem?_map, List.getElem?_range hk]
      rfl

theorem getD_ragged_append (hi : i < counts.length) (hk : k < counts.getD i 0) (rest : List β)
    (d : β) : (ragged counts f ++ rest).getD ((counts.take i).sum + k) d = f i k := by
  have hplace := getElem?_ragged (f := f) hi hk
  obtain ⟨hlt, -⟩ := List.getElem?_eq_some_iff.mp hplace
  rw [List.getD_append _ _ _ _ hlt, List.getD_eq_getElem?_getD, hplace, Option.getD_some]

theorem getD_ragged_tail {n : Nat} (h : counts.sum ≤ i) (hi : i < counts.sum + n) (x d : β) :
    (ragged counts f ++ List.replicate n x).getD i d = x := by
  have hlen := length_ragged counts f
  rw [List.getD_append_right _ _ _ _ (hlen.symm ▸ h), List.getD_replicate _ (by omega)]

theorem mem_ragged :
    x ∈ ragged counts f ↔ ∃ i < counts.length, ∃ k < counts.getD i 0, x = f i k := by
  rw [ragged, List.mem_flatMap]
  constructor
  · rintro ⟨i, hi, hx⟩
    obtain ⟨k, hk, rfl⟩ := List.mem_map.mp hx
    exact ⟨i, List.mem_range.mp hi, k, List.mem_range.mp hk, rfl⟩
  · rintro ⟨i, hi, k, hk, rfl⟩
    exact ⟨i, List.mem_range.mpr hi, List.mem_map.mpr ⟨k, List.mem_range.mpr hk, rfl⟩⟩

/-- A flat range, row by row. -/
theorem map_range_sum (counts : List Nat) (g : Nat → β) :
    (List.range counts.sum).map g = ragged counts fun i k => g ((counts.take i).sum + k) := by
  induction counts using List.reverseRecOn with
  | nil => rfl
  | append_singleton counts c ih =>
    rw [ragged_concat, List.sum_append, List.sum_singleton, List.range_add, List.map_append, ih,
      List.map_map, List.take_left]
    congr 1
    refine List.flatMap_congr fun i hi => List.map_congr_left fun k _ => ?_
    have hle : i ≤ counts.length := Nat.le_of_lt (List.mem_range.mp hi)
    show g ((counts.take i).sum + k) = g (((counts ++ [c]).take i).sum + k)
    rw [List.take_append_of_le_length hle]

theorem map_ragged {γ : Type} (g : β → γ) :
    (ragged counts f).map g = ragged counts fun i k => g (f i k) := by
  rw [ragged, List.map_flatMap]
  refine List.flatMap_congr fun i _ => ?_
  rw [List.map_map]
  rfl

theorem ragged_congr {g : Nat → Nat → β}
    (h : ∀ i < counts.length, ∀ k < counts.getD i 0, f i k = g i k) :
    ragged counts f = ragged counts g :=
  List.flatMap_congr fun i hi => List.map_congr_left fun k hk =>
    h i (List.mem_range.mp hi) k (List.mem_range.mp hk)

/-- A relation that holds along each row and from each row to the later ones. -/
theorem pairwise_ragged {R : β → β → Prop} (hrow : ∀ i k k', k < k' → R (f i k) (f i k'))
    (hrows : ∀ i i' k k', i < i' → R (f i k) (f i' k')) : (ragged counts f).Pairwise R := by
  rw [ragged, List.pairwise_flatMap]
  refine ⟨fun i _ => ?_, ?_⟩
  · rw [List.pairwise_map]
    exact List.pairwise_lt_range.imp fun {k k'} hk => hrow i k k' hk
  · refine List.pairwise_lt_range.imp fun {i i'} hi x hx y hy => ?_
    obtain ⟨k, -, rfl⟩ := List.mem_map.mp hx
    obtain ⟨k', -, rfl⟩ := List.mem_map.mp hy
    exact hrows i i' k k' hi

end Tensor
end FlashNext
