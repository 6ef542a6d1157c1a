import FlashNext.Compare.Number
import Mathlib.Algebra.Order.Field.Power
import Mathlib.Data.Int.Log
import Mathlib.Tactic.FieldSimp

/-!
# Rounding to doubles

A finite double is the rational it holds: an integer of at most 53 bits times a power of two that
is not below `2 ^ -1074`.  `toDouble` rounds to the nearest one, halves to the even one, and takes
no notice of the largest double; `overflows` says where that matters.
-/

namespace FlashNext
namespace Num

open Compare (roundHalfEven)

/-! ## Rounding to an integer -/

theorem le_roundHalfEven {z : Int} {q : ℚ} (h : (z : ℚ) ≤ q) : z ≤ roundHalfEven q := by
  have hfloor : z ≤ ⌊q⌋ := Int.le_floor.mpr h
  unfold roundHalfEven
  simp only
  split_ifs <;> omega

/-- Below the next half nothing is rounded up. -/
theorem roundHalfEven_le_of_lt {z : Int} {q : ℚ} (h : q < z + 1 / 2) : roundHalfEven q ≤ z := by
  have hfloor : ⌊q⌋ ≤ z := Int.floor_le_iff.mpr (h.trans (by linarith))
  by_cases hlt : ⌊q⌋ < z
  · unfold roundHalfEven
    simp only
    split_ifs <;> omega
  · have heq : ⌊q⌋ = z := by omega
    have hrest : q - ⌊q⌋ < 1 / 2 := by
      rw [heq]
      linarith
    unfold roundHalfEven
    simp only
    rw [if_pos hrest]
    exact hfloor

theorem roundHalfEven_le {z : Int} {q : ℚ} (h : q ≤ z) : roundHalfEven q ≤ z :=
  roundHalfEven_le_of_lt (by linarith)

@[simp] theorem roundHalfEven_intCast (z : Int) : roundHalfEven z = z :=
  le_antisymm (roundHalfEven_le le_rfl) (le_roundHalfEven le_rfl)

theorem roundHalfEven_mono {x y : ℚ} (h : x ≤ y) : roundHalfEven x ≤ roundHalfEven y := by
  have hfloor : ⌊x⌋ ≤ ⌊y⌋ := Int.floor_le_floor h
  by_cases hlt : ⌊x⌋ < ⌊y⌋
  · have hx : roundHalfEven x ≤ ⌊x⌋ + 1 := by
      refine roundHalfEven_le ?_
      have hx' := Int.lt_floor_add_one x
      push_cast
      linarith
    have hy : ⌊y⌋ ≤ roundHalfEven y := le_roundHalfEven (Int.floor_le y)
    omega
  · have heq : ⌊x⌋ = ⌊y⌋ := by omega
    have hrest : x - ⌊y⌋ ≤ y - ⌊y⌋ := by linarith
    unfold roundHalfEven
    simp only [heq]
    split_ifs <;> first | omega | linarith

/-! ## Rounding to a double -/

/-- The distance of the doubles around a number. -/
def quantum (q : ℚ) : ℚ := 2 ^ max (Int.log 2 |q| - 52) (-1074)

/-- The double nearest to a number, of those that have no largest exponent. -/
def toDouble (q : ℚ) : ℚ := roundHalfEven (q / quantum q) * quantum q

/-- The nearest double is an infinity. -/
def overflows (q : ℚ) : Bool := decide ((2 ^ 1024 - 2 ^ 970 : ℚ) ≤ |q|)

theorem quantum_pos (q : ℚ) : 0 < quantum q := zpow_pos (by norm_num) _

theorem le_toDouble {q : ℚ} {z : Int} (h : z * quantum q ≤ q) : z * quantum q ≤ toDouble q := by
  have hpos := quantum_pos q
  have hz : z ≤ roundHalfEven (q / quantum q) := le_roundHalfEven ((le_div_iff₀ hpos).mpr h)
  exact mul_le_mul_of_nonneg_right (by exact_mod_cast hz) hpos.le

theorem toDouble_le {q : ℚ} {z : Int} (h : q ≤ z * quantum q) : toDouble q ≤ z * quantum q := by
  have hpos := quantum_pos q
  have hz : roundHalfEven (q / quantum q) ≤ z := roundHalfEven_le ((div_le_iff₀ hpos).mpr h)
  exact mul_le_mul_of_nonneg_right (by exact_mod_cast hz) hpos.le

@[simp] theorem toDouble_zero : toDouble 0 = 0 := by
  have h : roundHalfEven 0 = 0 := by simpa using roundHalfEven_intCast 0
  simp [toDouble, h]

theorem toDouble_nonneg {q : ℚ} (h : 0 ≤ q) : 0 ≤ toDouble q := by
  simpa using le_toDouble (z := 0) (by simpa using h)

theorem toDouble_nonpos {q : ℚ} (h : q ≤ 0) : toDouble q ≤ 0 := by
  simpa using toDouble_le (z := 0) (by simpa using h)

/-- A power of two that is a multiple of the distance between the doubles. -/
theorem zpow_eq_mul_quantum {q : ℚ} {e : Int} (h : max (Int.log 2 |q| - 52) (-1074) ≤ e) :
    ∃ z : Int, (2 : ℚ) ^ e = z * quantum q := by
  refine ⟨2 ^ (e - max (Int.log 2 |q| - 52) (-1074)).toNat, ?_⟩
  have hexp : ((e - max (Int.log 2 |q| - 52) (-1074)).toNat : Int) =
      e - max (Int.log 2 |q| - 52) (-1074) := Int.toNat_of_nonneg (by omega)
  push_cast
  rw [quantum, ← zpow_natCast, hexp, ← zpow_add₀ (by norm_num)]
  congr 1
  omega

/-- A number of at most 53 bits is a double. -/
theorem toDouble_of_bits {n k : Int} (hn : |n| < 2 ^ 53) (hk : -1074 ≤ k) :
    toDouble (n * 2 ^ k) = n * 2 ^ k := by
  by_cases hzero : n = 0
  · simp [hzero]
  · have hpow : (0 : ℚ) < 2 ^ k := zpow_pos (by norm_num) k
    have habs : |(n : ℚ) * 2 ^ k| = |n| * 2 ^ k := by
      rw [abs_mul, abs_of_pos hpow, Int.cast_abs]
    have hlog : Int.log 2 |(n : ℚ) * 2 ^ k| < 53 + k := by
      have hne : (n : ℚ) * 2 ^ k ≠ 0 := mul_ne_zero (by exact_mod_cast hzero) hpow.ne'
      rw [← Int.lt_zpow_iff_log_lt (by norm_num) (abs_pos.mpr hne), habs, Nat.cast_ofNat,
        zpow_add₀ (by norm_num)]
      refine mul_lt_mul_of_pos_right ?_ hpow
      exact_mod_cast hn
    obtain ⟨z, hz⟩ := zpow_eq_mul_quantum (q := (n : ℚ) * 2 ^ k) (e := k) (by omega)
    have hmul : (n : ℚ) * 2 ^ k = ((n * z : Int) : ℚ) * quantum ((n : ℚ) * 2 ^ k) := by
      push_cast
      rw [mul_assoc, ← hz]
    exact le_antisymm ((toDouble_le hmul.le).trans hmul.ge) (hmul.le.trans (le_toDouble hmul.ge))

/-- Rounding does not cross a number that is a multiple of both distances. -/
theorem toDouble_le_of_between {x y p : ℚ} {m n : Int} (hm : p = m * quantum x)
    (hn : p = n * quantum y) (hx : x ≤ p) (hy : p ≤ y) : toDouble x ≤ toDouble y := by
  have hlow : toDouble x ≤ p := hm ▸ toDouble_le (hm ▸ hx)
  have hhigh : p ≤ toDouble y := hn ▸ le_toDouble (hn ▸ hy)
  exact hlow.trans hhigh

theorem quantum_le {x y : ℚ} (hpos : 0 < x) (h : x ≤ y) : quantum x ≤ quantum y := by
  have hlog : Int.log 2 |x| ≤ Int.log 2 |y| := by
    rw [abs_of_pos hpos, abs_of_pos (hpos.trans_le h)]
    exact Int.log_mono_right hpos h
  exact zpow_le_zpow_right₀ (by norm_num) (by omega)

@[simp] theorem quantum_neg (q : ℚ) : quantum (-q) = quantum q := by
  rw [quantum, quantum, abs_neg]

/-- Where the distance of the doubles grows there is a power of two between. -/
theorem exists_zpow_between {x y : ℚ} (hpos : 0 < x) (h : x ≤ y) (hne : quantum x ≠ quantum y) :
    ∃ e : Int, x ≤ 2 ^ e ∧ 2 ^ e ≤ y ∧ (∃ m : Int, (2 : ℚ) ^ e = m * quantum x) ∧
      ∃ n : Int, (2 : ℚ) ^ e = n * quantum y := by
  have hone : (1 : ℚ) < 2 := by norm_num
  have hypos : 0 < y := hpos.trans_le h
  have hlt : quantum x < quantum y := lt_of_le_of_ne (quantum_le hpos h) hne
  have hexp := (zpow_lt_zpow_iff_right₀ hone).mp hlt
  have hlow : x ≤ 2 ^ Int.log 2 |y| := by
    have hx := Int.lt_zpow_succ_log_self (b := 2) (by norm_num) x
    rw [← abs_of_pos hpos] at hx ⊢
    refine hx.le.trans ?_
    exact zpow_le_zpow_right₀ hone.le (by omega)
  have hhigh : (2 : ℚ) ^ Int.log 2 |y| ≤ y := by
    rw [abs_of_pos hypos]
    exact Int.zpow_log_le_self (by norm_num) hypos
  exact ⟨Int.log 2 |y|, hlow, hhigh, zpow_eq_mul_quantum (by omega),
    zpow_eq_mul_quantum (by omega)⟩

theorem toDouble_mono {x y : ℚ} (h : x ≤ y) : toDouble x ≤ toDouble y := by
  by_cases hsame : quantum x = quantum y
  · unfold toDouble
    rw [hsame]
    have hround := roundHalfEven_mono (div_le_div_of_nonneg_right h (quantum_pos y).le)
    exact mul_le_mul_of_nonneg_right (by exact_mod_cast hround) (quantum_pos y).le
  · by_cases hx : 0 < x
    · obtain ⟨e, hlow, hhigh, hm, hn⟩ := exists_zpow_between hx h hsame
      obtain ⟨m, hm⟩ := hm
      obtain ⟨n, hn⟩ := hn
      exact toDouble_le_of_between hm hn hlow hhigh
    · by_cases hy : y < 0
      · -- below zero the power lies between with its sign turned
        have hne : quantum (-y) ≠ quantum (-x) := by
          rw [quantum_neg, quantum_neg]
          exact Ne.symm hsame
        obtain ⟨e, hlow, hhigh, hm, hn⟩ :=
          exists_zpow_between (neg_pos.mpr hy) (neg_le_neg h) hne
        obtain ⟨m, hm⟩ := hm
        obtain ⟨n, hn⟩ := hn
        rw [quantum_neg] at hm hn
        refine toDouble_le_of_between (p := -2 ^ e) (m := -n) (n := -m) ?_ ?_ ?_ ?_
        · rw [hn]
          push_cast
          ring
        · rw [hm]
          push_cast
          ring
        · linarith
        · linarith
      · exact (toDouble_nonpos (not_lt.mp hx)).trans (toDouble_nonneg (not_lt.mp hy))

/-! ## The largest double -/

/-- Half the distance of the largest doubles. -/
@[irreducible] def halfGap : ℚ := 2 ^ 970

theorem halfGap_pos : 0 < halfGap := by
  unfold halfGap
  positivity

theorem one_le_halfGap : 1 ≤ halfGap := by
  unfold halfGap
  exact one_le_pow₀ (by norm_num)

theorem two_zpow_eq (k : Nat) : (2 : ℚ) ^ ((970 + k : Nat) : Int) = 2 ^ k * halfGap := by
  unfold halfGap
  rw [zpow_natCast, pow_add, mul_comm]

theorem overflows_iff {q : ℚ} : overflows q = true ↔ (2 ^ 54 - 1) * halfGap ≤ |q| := by
  have hpow : (2 : ℚ) ^ 1024 = 2 ^ 54 * halfGap := by
    rw [← two_zpow_eq, zpow_natCast]
  have hunit : (2 : ℚ) ^ 970 = halfGap := by
    rw [halfGap]
  rw [overflows, decide_eq_true_iff, hpow, hunit, sub_mul, one_mul]

def largest : ℚ := ((2 ^ 53 - 1 : Int) : ℚ) * 2 ^ (971 : Int)

theorem largest_eq : largest = (2 ^ 54 - 2) * halfGap := by
  have hpow : (2 : ℚ) ^ (971 : Int) = 2 ^ 1 * halfGap := two_zpow_eq 1
  rw [largest, hpow]
  push_cast
  ring

/-- What does not overflow is rounded to a double. -/
theorem toDouble_le_largest {q : ℚ} (hq : 0 ≤ q) (h : overflows q = false) :
    toDouble q ≤ largest := by
  have hunit := halfGap_pos
  have hlt : q < (2 ^ 54 - 1) * halfGap := by
    rw [← Bool.not_eq_true, overflows_iff, abs_of_nonneg hq] at h
    exact not_le.mp h
  by_cases hle : q ≤ largest
  · have hself : toDouble largest = largest := toDouble_of_bits (by norm_num) (by norm_num)
    exact hself ▸ toDouble_mono hle
  · -- so near to the next power of two the doubles are two halves apart
    have hgt : (2 ^ 54 - 2) * halfGap < q := largest_eq ▸ not_le.mp hle
    have hpos : 0 < q := by linarith
    have hlog : Int.log 2 |q| = 1023 := by
      rw [abs_of_pos hpos]
      have hlow : (1023 : Int) ≤ Int.log 2 q := by
        rw [← Int.zpow_le_iff_le_log (by norm_num) hpos, Nat.cast_ofNat]
        rw [show (2 : ℚ) ^ (1023 : Int) = 2 ^ 53 * halfGap from two_zpow_eq 53]
        linarith
      have hhigh : Int.log 2 q < 1024 := by
        rw [← Int.lt_zpow_iff_log_lt (by norm_num) hpos, Nat.cast_ofNat]
        rw [show (2 : ℚ) ^ (1024 : Int) = 2 ^ 54 * halfGap from two_zpow_eq 54]
        linarith
      omega
    have hquantum : quantum q = 2 ^ (971 : Int) := by
      rw [quantum, hlog]
      rfl
    have hround : roundHalfEven (q / quantum q) ≤ 2 ^ 53 - 1 := by
      refine roundHalfEven_le_of_lt ?_
      have hpow : (2 : ℚ) ^ (971 : Int) = 2 ^ 1 * halfGap := two_zpow_eq 1
      rw [hquantum, hpow, div_lt_iff₀ (mul_pos (by norm_num) hunit)]
      push_cast
      linarith
    rw [toDouble, hquantum, largest]
    rw [hquantum] at hround
    exact mul_le_mul_of_nonneg_right (by exact_mod_cast hround) (by positivity)

theorem not_overflows_of_le {q : ℚ} (hq : 0 ≤ q) (h : q ≤ largest) : overflows q = false := by
  have hunit := halfGap_pos
  rw [← Bool.not_eq_true, overflows_iff, abs_of_nonneg hq]
  rw [largest_eq] at h
  linarith

end Num
end FlashNext
