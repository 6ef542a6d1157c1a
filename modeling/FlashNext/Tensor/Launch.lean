import FlashNext.Tensor.Index
import Mathlib.Data.List.GetD
import Mathlib.Data.Nat.Log
import Mathlib.Tactic.Ring

/-!
# Launches

A launch runs its programs side by side, so its stores reach memory in any order: `Leaves` relates
the stores of a launch to the memories that it can leave behind.  `rank` is the place that a
program with an inclusive running sum gives to each lane that it keeps, and `scatter_rank` says
that the kept values end up in front, in their order.
-/

namespace FlashNext
namespace Tensor

/-- The least power of two that is no less. -/
def nextPowerOf2 (n : Nat) : Nat := 2 ^ Nat.clog 2 n

theorem le_nextPowerOf2 (n : Nat) : n ≤ nextPowerOf2 n := Nat.le_pow_clog Nat.one_lt_two n

/-- The programs that cover `n` lanes, `block` lanes each. -/
def cdiv (n block : Nat) : Nat := (n + block - 1) / block

theorem lt_cdiv_mul {n block col : Nat} (hblock : 0 < block) (h : col < n) :
    col / block < cdiv n block := by
  rw [cdiv, Nat.div_lt_iff_lt_mul hblock]
  have hdiv := Nat.div_add_mod (n + block - 1) block
  have hmod := Nat.mod_lt (n + block - 1) hblock
  rw [Nat.mul_comm] at hdiv
  omega

/-- The address of an element of a contiguous tensor with `heads` times `dim` elements a row. -/
def offset (heads dim row head d : Nat) : Nat := row * heads * dim + head * dim + d

theorem offset_inj {heads dim row row' head head' d d' : Nat} (hhead : head < heads)
    (hhead' : head' < heads) (hd : d < dim) (hd' : d' < dim)
    (h : offset heads dim row head d = offset heads dim row' head' d') :
    row = row' ∧ head = head' ∧ d = d' := by
  have hsplit : ∀ r k e, offset heads dim r k e = dim * (heads * r + k) + e := by
    intro r k e
    rw [offset]
    ring
  rw [hsplit, hsplit] at h
  have hdim : 0 < dim := by omega
  have hheads : 0 < heads := by omega
  have hlast : d = d' := by
    have hmod := congrArg (· % dim) h
    simpa only [Nat.mul_add_mod, Nat.mod_eq_of_lt hd, Nat.mod_eq_of_lt hd'] using hmod
  subst hlast
  have hfront : heads * row + head = heads * row' + head' :=
    Nat.eq_of_mul_eq_mul_left hdim (Nat.add_right_cancel h)
  have hmid : head = head' := by
    have hmod := congrArg (· % heads) hfront
    simpa only [Nat.mul_add_mod, Nat.mod_eq_of_lt hhead, Nat.mod_eq_of_lt hhead'] using hmod
  subst hmid
  exact ⟨Nat.eq_of_mul_eq_mul_left hheads (Nat.add_right_cancel hfront), rfl, rfl⟩

section Leaves

variable {α : Type} {stores : List (Nat × α)} {memory : Nat → Option α} {a : Nat} {x : α}

/-- A memory that the stores can leave where nothing was stored before. -/
def Leaves (stores : List (Nat × α)) (memory : Nat → Option α) : Prop :=
  ∃ order : List (Nat × α), order.Perm stores ∧
    memory = scatter (fun _ => none) (order.map fun w => (w.1, some w.2))

theorem leaves_self (stores : List (Nat × α)) :
    Leaves stores (scatter (fun _ => none) (stores.map fun w => (w.1, some w.2))) :=
  ⟨stores, List.Perm.refl stores, rfl⟩

theorem Leaves.eq_none (h : Leaves stores memory) (ha : ∀ w ∈ stores, w.1 ≠ a) :
    memory a = none := by
  obtain ⟨order, hperm, rfl⟩ := h
  refine scatter_of_notMem ?_
  rw [List.forall_mem_map]
  exact fun w hw => ha w (hperm.mem_iff.mp hw)

theorem Leaves.eq_some (h : Leaves stores memory) (hmem : (a, x) ∈ stores)
    (hsame : ∀ w ∈ stores, w.1 = a → w.2 = x) : memory a = some x := by
  obtain ⟨order, hperm, rfl⟩ := h
  refine scatter_of_mem ⟨(a, some x), ?_, rfl⟩ ?_
  · exact List.mem_map_of_mem (hperm.mem_iff.mpr hmem)
  · rw [List.forall_mem_map]
    intro w hw ha
    exact congrArg some (hsame w (hperm.mem_iff.mp hw) ha)

end Leaves

section Rank

variable {α : Type} {p : α → Bool} {xs : List α} {fresh : Nat → α}

/-- `cumsum(valid) - 1`. -/
def rank (p : α → Bool) (xs : List α) (i : Nat) : Nat := (xs.take (i + 1)).countP p - 1

/-- The stores of the kept values, each at its rank. -/
def rankStores (p : α → Bool) (xs : List α) : List (Nat × α) :=
  (List.range xs.length).flatMap fun i =>
    match xs[i]? with
    | some x => if p x then [(rank p xs i, x)] else []
    | none => []

theorem mem_rankStores {w : Nat × α} :
    w ∈ rankStores p xs ↔ ∃ i, xs[i]? = some w.2 ∧ p w.2 = true ∧ w.1 = rank p xs i := by
  obtain ⟨r, x⟩ := w
  rw [rankStores, List.mem_flatMap]
  constructor
  · rintro ⟨i, _, hw⟩
    refine ⟨i, ?_⟩
    split at hw
    · next y hy =>
      split at hw
      · next hp =>
        obtain ⟨rfl, rfl⟩ := Prod.mk.inj (List.mem_singleton.mp hw)
        exact ⟨hy, hp, rfl⟩
      · exact absurd hw List.not_mem_nil
    · exact absurd hw List.not_mem_nil
  · rintro ⟨i, hx, hp, hr⟩
    obtain ⟨hi, -⟩ := List.getElem?_eq_some_iff.mp hx
    refine ⟨i, List.mem_range.mpr hi, ?_⟩
    dsimp only at hx hp hr ⊢
    rw [hx, hr]
    simp only [hp, if_true, List.mem_singleton]

theorem rank_cons_zero {x : α} (hp : p x = true) : rank p (x :: xs) 0 = 0 := by
  rw [rank, List.take_succ_cons, List.take_zero, List.countP_cons_of_pos hp, List.countP_nil]

theorem rank_cons_succ {y x : α} {i : Nat} (hx : xs[i]? = some x) (hp : p x = true) :
    rank p (y :: xs) (i + 1) = rank p xs i + if p y then 1 else 0 := by
  obtain ⟨hi, hget⟩ := List.getElem?_eq_some_iff.mp hx
  have hmem : x ∈ xs.take (i + 1) :=
    List.mem_take_iff_getElem.mpr ⟨i, by omega, hget⟩
  have hpos : 0 < (xs.take (i + 1)).countP p := List.countP_pos_iff.mpr ⟨x, hmem, hp⟩
  rw [rank, rank, List.take_succ_cons, List.countP_cons]
  omega

/-- A kept value is the one of its rank among the kept ones. -/
theorem filter_rank {i : Nat} {x : α} (hx : xs[i]? = some x) (hp : p x = true) :
    (xs.filter p)[rank p xs i]? = some x := by
  induction xs generalizing i with
  | nil => cases hx
  | cons y xs ih =>
    cases i with
    | zero =>
      obtain rfl : y = x := Option.some.inj hx
      rw [List.filter_cons_of_pos hp, rank_cons_zero hp]
      rfl
    | succ i =>
      have hx : xs[i]? = some x := hx
      have hkept := ih hx
      rw [rank_cons_succ hx hp]
      by_cases hy : p y = true
      · rw [List.filter_cons_of_pos hy, if_pos hy]
        exact hkept
      · rw [List.filter_cons_of_neg hy, if_neg hy]
        exact hkept

theorem exists_rank {i : Nat} {x : α} (h : (xs.filter p)[i]? = some x) :
    ∃ j, xs[j]? = some x ∧ rank p xs j = i := by
  obtain ⟨hi, hx⟩ := List.getElem?_eq_some_iff.mp h
  have hp : p x = true := (List.mem_filter.mp (hx ▸ List.getElem_mem hi)).2
  clear hi hx
  induction xs generalizing i with
  | nil => cases h
  | cons y xs ih =>
    by_cases hy : p y = true
    · rw [List.filter_cons_of_pos hy] at h
      cases i with
      | zero =>
        obtain rfl : y = x := Option.some.inj h
        exact ⟨0, rfl, rank_cons_zero hp⟩
      | succ i =>
        obtain ⟨j, hj, hrank⟩ := ih h
        exact ⟨j + 1, hj, by rw [rank_cons_succ hj hp, if_pos hy, hrank]⟩
    · rw [List.filter_cons_of_neg hy] at h
      obtain ⟨j, hj, hrank⟩ := ih h
      exact ⟨j + 1, hj, by rw [rank_cons_succ hj hp, if_neg hy, hrank, Nat.add_zero]⟩

/-- The kept values, in their order, at the front of whatever was there. -/
theorem scatter_rank {i : Nat} {x : α} (h : (xs.filter p)[i]? = some x) :
    scatter fresh (rankStores p xs) i = x := by
  obtain ⟨j, hj, hrank⟩ := exists_rank h
  obtain ⟨hi, hx⟩ := List.getElem?_eq_some_iff.mp h
  have hp : p x = true := (List.mem_filter.mp (hx ▸ List.getElem_mem hi)).2
  refine scatter_of_mem ⟨(i, x), mem_rankStores.mpr ⟨j, hj, hp, hrank.symm⟩, rfl⟩ ?_
  intro w hw hi
  obtain ⟨k, hk, hpk, hrankk⟩ := mem_rankStores.mp hw
  have hsame := filter_rank hk hpk
  rw [← hrankk, hi, h] at hsame
  exact (Option.some.inj hsame).symm

end Rank

end Tensor
end FlashNext
