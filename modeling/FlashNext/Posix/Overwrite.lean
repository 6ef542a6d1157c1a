import Mathlib.Data.List.Basic
import Mathlib.Data.List.Nodup

/-!
# Writing into the middle of a file

A file is the list of its bytes.  A write at an offset replaces as many bytes as it brings, and
lengthens the file when it ends behind it; adjacent writes are one write.
-/

namespace FlashNext
namespace Posix

variable {α : Type}

/-- `pwrite` of the data; the gap of a write behind the end is filled with `zero`. -/
def overwrite (zero : α) (old data : List α) (offset : Nat) : List α :=
  old.take offset ++ List.replicate (offset - old.length) zero ++ data ++
    old.drop (offset + data.length)

/-- `ftruncate`. -/
def resize (zero : α) (old : List α) (size : Nat) : List α :=
  old.take size ++ List.replicate (size - old.length) zero

variable {zero : α} {old a b : List α} {offset : Nat}

theorem length_resize {size : Nat} : (resize zero old size).length = size := by
  rw [resize, List.length_append, List.length_take, List.length_replicate]
  omega

/-- A write that starts inside the file leaves no gap. -/
theorem overwrite_eq (h : offset ≤ old.length) :
    overwrite zero old a offset = old.take offset ++ a ++ old.drop (offset + a.length) := by
  rw [overwrite, Nat.sub_eq_zero_of_le h, List.replicate_zero, List.append_nil]

theorem length_overwrite (h : offset ≤ old.length) :
    (overwrite zero old a offset).length = max old.length (offset + a.length) := by
  rw [overwrite_eq h, List.length_append, List.length_append, List.length_take, List.length_drop]
  omega

theorem overwrite_nil (h : offset ≤ old.length) : overwrite zero old [] offset = old := by
  rw [overwrite_eq h, List.append_nil, List.length_nil, Nat.add_zero, List.take_append_drop]

theorem overwrite_append (h : offset ≤ old.length) :
    overwrite zero (overwrite zero old a offset) b (offset + a.length) =
      overwrite zero old (a ++ b) offset := by
  have hlength : (overwrite zero old a offset).length = max old.length (offset + a.length) :=
    length_overwrite h
  have hfront : (old.take offset ++ a).length = offset + a.length := by
    rw [List.length_append, List.length_take]
    omega
  rw [overwrite_eq (by omega), overwrite_eq h, overwrite_eq h, List.take_left' hfront,
    ← List.drop_drop, List.drop_left' hfront, List.drop_drop, List.length_append,
    ← Nat.add_assoc, ← List.append_assoc]

/-- What stands at a place of the written file. -/
theorem getElem?_overwrite (h : offset ≤ old.length) (i : Nat) :
    (overwrite zero old a offset)[i]? =
      if offset ≤ i ∧ i < offset + a.length then a[i - offset]? else old[i]? := by
  have hfront : (old.take offset).length = offset := by
    rw [List.length_take]
    omega
  rw [overwrite_eq h, List.append_assoc]
  rcases Nat.lt_or_ge i offset with hlt | hge
  · rw [if_neg (by omega), List.getElem?_append_left (by omega), List.getElem?_take_of_lt hlt]
  rw [List.getElem?_append_right (by omega), hfront]
  by_cases hin : i < offset + a.length
  · rw [if_pos ⟨hge, hin⟩, List.getElem?_append_left (by omega)]
  · rw [if_neg (by omega), List.getElem?_append_right (by omega), List.getElem?_drop]
    congr 1
    omega

/-! ## Blocks -/

/-- The places of consecutive blocks are all places. -/
theorem flatMap_blocks (size n : Nat) :
    ((List.range n).flatMap fun i => List.range' (i * size) size) = List.range (n * size) := by
  induction n with
  | zero =>
    rw [Nat.zero_mul]
    rfl
  | succ n ih =>
    rw [List.range_succ, List.flatMap_append, ih, List.flatMap_singleton, List.range_eq_range',
      List.range_eq_range', Nat.succ_mul, ← List.range'_append_1, Nat.zero_add]

/-- Two different blocks have no place in common. -/
theorem block_apart {size i j x : Nat} (h : i ≠ j) (hx : i * size ≤ x) (hx' : x < i * size + size) :
    ¬ (j * size ≤ x ∧ x < j * size + size) := by
  rintro ⟨hj, hj'⟩
  have hij : i < j + 1 := by
    refine Nat.lt_of_mul_lt_mul_right (a := size) ?_
    rw [Nat.add_mul]
    omega
  have hji : j < i + 1 := by
    refine Nat.lt_of_mul_lt_mul_right (a := size) ?_
    rw [Nat.add_mul]
    omega
  omega

end Posix
end FlashNext
