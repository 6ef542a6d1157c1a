import Mathlib.Data.List.GetD
import Mathlib.Data.List.Induction
import Mathlib.Data.List.Sort

/-!
# Compaction by a stable sort

Entries are sorted by their place, and those that are dropped by a place behind all others: the
kept entries come first, in their order, and the dropped ones after them (`sorted_places`).
`flatMap_range` writes blocks of one width as one range.
-/

namespace FlashNext
namespace Tensor

section Partition

variable {α : Type} {r : α → α → Prop} [DecidableRel r] {p : α → Bool} {xs front back : List α}
  {x : α}

theorem orderedInsert_between (hfront : ∀ a ∈ front, ¬ r x a) (hback : ∀ b ∈ back, r x b) :
    (front ++ back).orderedInsert r x = front ++ x :: back := by
  induction front with
  | nil =>
    cases back with
    | nil => rfl
    | cons b back =>
      rw [List.nil_append, List.nil_append, List.orderedInsert_cons,
        if_pos (hback b List.mem_cons_self)]
  | cons a front ih =>
    obtain ⟨ha, hrest⟩ := List.forall_mem_cons.mp hfront
    rw [List.cons_append, List.orderedInsert_cons, if_neg ha, ih hrest, List.cons_append]

/-- Where the order keeps the entries of each kind in their order, and puts one kind first. -/
theorem insertionSort_partition (hsame : xs.Pairwise fun a b => p a = p b → r a b)
    (hkinds : ∀ a ∈ xs, ∀ b ∈ xs, p a = true → p b = false → r a b ∧ ¬ r b a) :
    xs.insertionSort r = xs.filter p ++ xs.filter fun a => !p a := by
  induction xs with
  | nil => rfl
  | cons x xs ih =>
    obtain ⟨hx, hxs⟩ := List.pairwise_cons.mp hsame
    have hrest := ih hxs fun a ha b hb =>
      hkinds a (List.mem_cons_of_mem x ha) b (List.mem_cons_of_mem x hb)
    rw [List.insertionSort_cons, hrest]
    cases hp : p x with
    | true =>
      rw [List.filter_cons_of_pos hp, List.filter_cons_of_neg (by rw [hp]; decide)]
      refine orderedInsert_between (fun _ h => absurd h List.not_mem_nil) fun b hb => ?_
      rcases List.mem_append.mp hb with hb | hb
      · obtain ⟨hmem, hpb⟩ := List.mem_filter.mp hb
        exact hx b hmem (hp.trans hpb.symm)
      · obtain ⟨hmem, hpb⟩ := List.mem_filter.mp hb
        exact (hkinds x List.mem_cons_self b (List.mem_cons_of_mem x hmem) hp
          (by simpa using hpb)).1
    | false =>
      rw [List.filter_cons_of_neg (by rw [hp]; decide), List.filter_cons_of_pos (by rw [hp]; rfl)]
      refine orderedInsert_between (fun a ha => ?_) fun b hb => ?_
      · obtain ⟨hmem, hpa⟩ := List.mem_filter.mp ha
        exact (hkinds a (List.mem_cons_of_mem x hmem) x List.mem_cons_self hpa hp).2
      · obtain ⟨hmem, hpb⟩ := List.mem_filter.mp hb
        exact hx b hmem (hp.trans (by simpa using hpb.symm))

end Partition

section Places

variable {α : Type} {keep : α → Bool} {xs : List α}

/-- Each entry with its place, or a place behind all of them. -/
def places (keep : α → Bool) (width : Nat) (xs : List α) : List (Nat × α) :=
  xs.zipIdx.map fun entry => (if keep entry.1 then entry.2 else entry.2 + width, entry.1)

theorem mem_places {width : Nat} {entry : Nat × α} (h : entry ∈ places keep width xs) :
    ∃ i, xs[i]? = some entry.2 ∧ entry.1 = if keep entry.2 then i else i + width := by
  obtain ⟨⟨x, i⟩, hmem, rfl⟩ := List.mem_map.mp h
  exact ⟨i, List.mem_zipIdx_iff_getElem?.mp hmem, rfl⟩

theorem filter_places {width : Nat} (q : α → Bool) :
    ((places keep width xs).filter fun entry => q entry.2).map (·.2) = xs.filter q := by
  rw [places, List.filter_map, List.map_map]
  show (xs.zipIdx.filter (q ∘ Prod.fst)).map Prod.fst = _
  rw [← List.filter_map, List.zipIdx_map_fst]

/-- The kept entries and then the others, each in their order. -/
theorem sorted_places (keep : α → Bool) {width : Nat} (hwidth : xs.length ≤ width) :
    ((places keep width xs).insertionSort fun a b => a.1 ≤ b.1).map (·.2) =
      xs.filter keep ++ xs.filter fun x => !keep x := by
  have hlt : ∀ {i : Nat} {x : α}, xs[i]? = some x → i < width := by
    intro i x hi
    obtain ⟨hlt, -⟩ := List.getElem?_eq_some_iff.mp hi
    omega
  rw [insertionSort_partition (p := fun entry => keep entry.2), List.map_append, filter_places,
    filter_places fun x => !keep x]
  · have hincreasing : xs.zipIdx.Pairwise fun a b => a.2 < b.2 := by
      have hrange : (xs.zipIdx.map (·.2)).Pairwise (· < ·) := by
        rw [List.zipIdx_map_snd]
        exact List.pairwise_lt_range'
      exact List.pairwise_map.mp hrange
    rw [places, List.pairwise_map]
    refine hincreasing.imp fun {a b} hab hkeep => ?_
    dsimp only at hkeep ⊢
    rw [hkeep]
    split <;> omega
  · intro a ha b hb hka hkb
    obtain ⟨i, hi, ha⟩ := mem_places ha
    obtain ⟨j, hj, hb⟩ := mem_places hb
    rw [if_pos hka] at ha
    rw [hkb] at hb
    have := hlt hi
    simp only [Bool.false_eq_true, if_false] at hb
    omega

end Places

theorem flatMap_range {α β : Type} (f : α → Nat → β) (d : α) (r : Nat) (xs : List α) :
    (xs.flatMap fun x => (List.range r).map (f x)) =
      (List.range (xs.length * r)).map fun i => f (xs.getD (i / r) d) (i % r) := by
  induction xs using List.reverseRecOn with
  | nil => rw [List.length_nil, Nat.zero_mul]; rfl
  | append_singleton xs x ih =>
    rw [List.flatMap_append, ih, List.length_append, List.length_singleton, Nat.add_mul,
      Nat.one_mul, List.range_add, List.map_append, List.map_map, List.flatMap_singleton]
    congr 1
    · refine List.map_congr_left fun i hi => ?_
      have hlt : i / r < xs.length := Nat.div_lt_of_lt_mul (by
        rw [Nat.mul_comm]
        exact List.mem_range.mp hi)
      rw [List.getD_append _ _ _ _ hlt]
    · refine List.map_congr_left fun i hi => ?_
      have hi := List.mem_range.mp hi
      have hdiv : (xs.length * r + i) / r = xs.length := by
        rw [Nat.mul_comm, Nat.mul_add_div (Nat.zero_lt_of_lt hi), Nat.div_eq_of_lt hi, Nat.add_zero]
      have hmod : (xs.length * r + i) % r = i := by
        rw [Nat.mul_comm, Nat.mul_add_mod, Nat.mod_eq_of_lt hi]
      show f x i = f ((xs ++ [x]).getD ((xs.length * r + i) / r) d) ((xs.length * r + i) % r)
      rw [hdiv, hmod, List.getD_append_right _ _ _ _ (Nat.le_refl _), Nat.sub_self]
      rfl

end Tensor
end FlashNext
