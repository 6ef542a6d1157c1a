import FlashNext.Text.Utf8Lossy
import FlashNext.Py.Dump

/-!
# The UTF-8 encoder

Every text without halves of surrogate pairs has an encoding, and the incremental decoder reads it
back with nothing left over.
-/

namespace FlashNext
namespace Text

open Py (encodePoint encodeUtf8)

/-- A code point that an encoder takes. -/
def isScalar (c : Nat) : Bool := decide (c < 0x110000) && !isSurrogate c

theorem toNat_ofNat {n : Nat} (h : n < 256) : (UInt8.ofNat n).toNat = n := by
  rw [UInt8.toNat_ofNat']
  exact Nat.mod_eq_of_lt h

theorem isTail_ofNat {n : Nat} (h : n < 64) : isTail (UInt8.ofNat (0x80 + n)) = true := by
  have hn : (UInt8.ofNat (0x80 + n)).toNat = 0x80 + n := toNat_ofNat (by omega)
  simp only [isTail, Bool.and_eq_true, decide_eq_true_eq, UInt8.le_iff_toNat_le,
    UInt8.lt_iff_toNat_lt, hn, UInt8.reduceToNat]
  omega

theorem isSecond_ofNat {first n : Nat} (hfirst : first < 256) (h : n < 64)
    (he0 : first = 0xe0 → 0x20 ≤ n) (hed : first = 0xed → n < 0x20)
    (hf0 : first = 0xf0 → 0x10 ≤ n) (hf4 : first = 0xf4 → n < 0x10) :
    isSecond (UInt8.ofNat first) (UInt8.ofNat (0x80 + n)) = true := by
  have hn : (UInt8.ofNat (0x80 + n)).toNat = 0x80 + n := toNat_ofNat (by omega)
  simp only [isSecond, isTail_ofNat h, Bool.true_and, Bool.and_eq_true, Bool.or_eq_true,
    bne_iff_ne, ne_eq, decide_eq_true_eq, UInt8.le_iff_toNat_le, UInt8.lt_iff_toNat_lt,
    ← UInt8.toNat_inj, hn, toNat_ofNat hfirst, UInt8.reduceToNat]
  omega

/-- The first byte of a character of several bytes. -/
theorem utf8Step_first {b : UInt8} (h : 2 ≤ sequenceLength b) : utf8Step [] b = .more [b] := by
  unfold utf8Step
  dsimp only
  split
  · next hzero => omega
  · next hone => omega
  · rfl

/-- A byte that goes on with a character. -/
theorem utf8Step_more {first b : UInt8} {n : Nat} (tail : Bytes)
    (hlength : sequenceLength first = n) (hmore : tail.length + 2 < n)
    (hok : (if tail = [] then isSecond first b else isTail b) = true) :
    utf8Step (first :: tail) b = .more (first :: (tail ++ [b])) := by
  rw [utf8Step, if_pos hok, if_neg (by omega)]

/-- The byte that ends a character. -/
theorem utf8Step_done {first b : UInt8} {n code : Nat} (tail : Bytes)
    (hlength : sequenceLength first = n) (hlast : tail.length + 2 = n)
    (hok : (if tail = [] then isSecond first b else isTail b) = true)
    (hcode : codePoint first (tail ++ [b]) = code) :
    utf8Step (first :: tail) b = .done code := by
  rw [utf8Step, if_pos hok, if_pos (by omega), hcode]

theorem decodeFrom_more {pending pending' : Bytes} {b : UInt8} {position : Nat} {bs : Bytes}
    (h : utf8Step pending b = .more pending') :
    decodeFrom pending position (b :: bs) = decodeFrom pending' (position + 1) bs := by
  rw [decodeFrom, h]

theorem decodeFrom_done {pending : Bytes} {b : UInt8} {position code : Nat} {bs : Bytes}
    (h : utf8Step pending b = .done code) :
    decodeFrom pending position (b :: bs) =
      (decodeFrom [] (position + 1) bs).map fun r => (code :: r.1, r.2) := by
  rw [decodeFrom, h]

/-- The decoder reads a character back and goes on after it. -/
theorem decodeFrom_encodePoint {c : Nat} (hc : isScalar c = true) (position : Nat) (bs : Bytes) :
    decodeFrom [] position (encodePoint c ++ bs) =
      (decodeFrom [] (position + (encodePoint c).length) bs).map fun r => (c :: r.1, r.2) := by
  simp only [isScalar, isSurrogate, Bool.and_eq_true, decide_eq_true_eq, Bool.not_eq_true',
    Bool.and_eq_false_iff, decide_eq_false_iff_not] at hc
  obtain ⟨hrange, hsurrogate⟩ := hc
  have hlead : ∀ n, n < 256 → sequenceLength (UInt8.ofNat n) =
      if n < 0x80 then 1 else if n < 0xc2 then 0 else if n < 0xe0 then 2
      else if n < 0xf0 then 3 else if n < 0xf5 then 4 else 0 := by
    intro n hn
    rw [sequenceLength_toNat, toNat_ofNat hn]
  rw [encodePoint]
  split
  · next h1 =>
    have hstep : utf8Step [] (UInt8.ofNat c) = .done c := by
      have hlength : sequenceLength (UInt8.ofNat c) = 1 := by
        rw [hlead c (by omega), if_pos h1]
      unfold utf8Step
      simp only [hlength]
      rw [toNat_ofNat (by omega)]
    rw [List.singleton_append, decodeFrom_done hstep]
    rfl
  · next h1 =>
    split
    · next h2 =>
      have hlength : sequenceLength (UInt8.ofNat (0xc0 + c / 64)) = 2 := by
        rw [hlead _ (by omega)]
        repeat' split
        all_goals omega
      have hsecond : isSecond (UInt8.ofNat (0xc0 + c / 64)) (UInt8.ofNat (0x80 + c % 64)) = true :=
        isSecond_ofNat (by omega) (by omega) (by omega) (by omega) (by omega) (by omega)
      have hcode : codePoint (UInt8.ofNat (0xc0 + c / 64)) ([] ++ [UInt8.ofNat (0x80 + c % 64)]) =
          c := by
        simp only [codePoint, List.nil_append, List.length_singleton, List.foldl_cons,
          List.foldl_nil]
        rw [toNat_ofNat (by omega), toNat_ofNat (by omega)]
        omega
      rw [List.cons_append, List.singleton_append, decodeFrom_more (utf8Step_first (by omega)),
        decodeFrom_done (utf8Step_done [] hlength rfl hsecond hcode)]
      rfl
    · next h2 =>
      split
      · next h3 =>
        have hlength : sequenceLength (UInt8.ofNat (0xe0 + c / 4096)) = 3 := by
          rw [hlead _ (by omega)]
          repeat' split
          all_goals omega
        have hsecond : isSecond (UInt8.ofNat (0xe0 + c / 4096))
            (UInt8.ofNat (0x80 + c / 64 % 64)) = true :=
          isSecond_ofNat (by omega) (by omega) (by omega) (by omega) (by omega) (by omega)
        have hthird : isTail (UInt8.ofNat (0x80 + c % 64)) = true := isTail_ofNat (by omega)
        have hcode : codePoint (UInt8.ofNat (0xe0 + c / 4096))
            ([UInt8.ofNat (0x80 + c / 64 % 64)] ++ [UInt8.ofNat (0x80 + c % 64)]) = c := by
          simp only [codePoint, List.singleton_append, List.length_cons, List.length_nil,
            List.foldl_cons, List.foldl_nil]
          rw [toNat_ofNat (by omega), toNat_ofNat (by omega), toNat_ofNat (by omega)]
          omega
        rw [List.cons_append, List.cons_append, List.singleton_append,
          decodeFrom_more (utf8Step_first (by omega)),
          decodeFrom_more (utf8Step_more [] hlength (by decide) hsecond), List.nil_append,
          decodeFrom_done (utf8Step_done [_] hlength rfl hthird hcode)]
        rfl
      · next h3 =>
        have hlength : sequenceLength (UInt8.ofNat (0xf0 + c / 262144)) = 4 := by
          rw [hlead _ (by omega)]
          repeat' split
          all_goals omega
        have hsecond : isSecond (UInt8.ofNat (0xf0 + c / 262144))
            (UInt8.ofNat (0x80 + c / 4096 % 64)) = true :=
          isSecond_ofNat (by omega) (by omega) (by omega) (by omega) (by omega) (by omega)
        have hthird : isTail (UInt8.ofNat (0x80 + c / 64 % 64)) = true := isTail_ofNat (by omega)
        have hfourth : isTail (UInt8.ofNat (0x80 + c % 64)) = true := isTail_ofNat (by omega)
        have hcode : codePoint (UInt8.ofNat (0xf0 + c / 262144))
            ([UInt8.ofNat (0x80 + c / 4096 % 64), UInt8.ofNat (0x80 + c / 64 % 64)] ++
              [UInt8.ofNat (0x80 + c % 64)]) = c := by
          simp only [codePoint, List.cons_append, List.nil_append, List.length_cons,
            List.length_nil, List.foldl_cons, List.foldl_nil]
          rw [toNat_ofNat (by omega), toNat_ofNat (by omega), toNat_ofNat (by omega),
            toNat_ofNat (by omega)]
          omega
        rw [List.cons_append, List.cons_append, List.cons_append, List.singleton_append,
          decodeFrom_more (utf8Step_first (by omega)),
          decodeFrom_more (utf8Step_more [] hlength (by decide) hsecond), List.nil_append,
          decodeFrom_more (utf8Step_more [_] hlength (Nat.lt_succ_self 3) hthird),
          List.singleton_append,
          decodeFrom_done (utf8Step_done [_, _] hlength rfl hfourth hcode)]
        rfl

theorem decodeFrom_encodeUtf8 {text : List Nat} (h : ∀ c ∈ text, isScalar c = true)
    (position : Nat) : decodeFrom [] position (encodeUtf8 text) = .ok (text, []) := by
  induction text generalizing position with
  | nil => rfl
  | cons c text ih =>
    rw [List.forall_mem_cons] at h
    rw [encodeUtf8, List.flatMap_cons, decodeFrom_encodePoint h.1, ← encodeUtf8, ih h.2]
    rfl

theorem decodeUtf8_encodeUtf8 {text : List Nat} (h : ∀ c ∈ text, isScalar c = true) :
    decodeUtf8 [] (encodeUtf8 text) = .ok (text, []) :=
  decodeFrom_encodeUtf8 h 0

theorem decodeUtf8Final_encodeUtf8 {text : List Nat} (h : ∀ c ∈ text, isScalar c = true) :
    decodeUtf8Final [] (encodeUtf8 text) = .ok text := by
  rw [decodeUtf8Final, decodeUtf8_encodeUtf8 h]

/-- No byte of a character beyond ASCII is an ASCII byte. -/
theorem encodePoint_high {c : Nat} (hc : isScalar c = true) (hhigh : 0x80 ≤ c) :
    ∀ b ∈ encodePoint c, 0x80 ≤ b.toNat := by
  simp only [isScalar, Bool.and_eq_true, decide_eq_true_eq] at hc
  have hrange := hc.1
  rw [encodePoint, if_neg (by omega)]
  split
  · simp only [List.forall_mem_cons, List.not_mem_nil, false_implies, implies_true, and_true]
    rw [toNat_ofNat (by omega), toNat_ofNat (by omega)]
    omega
  · split
    · simp only [List.forall_mem_cons, List.not_mem_nil, false_implies, implies_true, and_true]
      rw [toNat_ofNat (by omega), toNat_ofNat (by omega), toNat_ofNat (by omega)]
      omega
    · simp only [List.forall_mem_cons, List.not_mem_nil, false_implies, implies_true, and_true]
      rw [toNat_ofNat (by omega), toNat_ofNat (by omega), toNat_ofNat (by omega),
        toNat_ofNat (by omega)]
      omega

/-- An ASCII byte stands for its own character. -/
theorem mem_encodeUtf8 {text : List Nat} {b : UInt8} (hb : b.toNat < 0x80)
    (h : ∀ c ∈ text, isScalar c = true) (hmem : b ∈ encodeUtf8 text) : b.toNat ∈ text := by
  obtain ⟨c, hc, hbc⟩ := List.mem_flatMap.mp hmem
  by_cases hlow : c < 0x80
  · rw [encodePoint, if_pos hlow] at hbc
    rw [List.mem_singleton.mp hbc, toNat_ofNat (by omega)]
    exact hc
  · have := encodePoint_high (h c hc) (by omega) b hbc
    omega

end Text
end FlashNext
