import FlashNext.Py.Value
import FlashNext.Text.Utf8Lossy

/-!
# Methods of strings

The methods of `str` that the readers of answers use, on the list of the code points.
-/

namespace FlashNext
namespace Py

open Text (isSurrogate)

/-- `str.isspace` of one character. -/
def isSpace (c : Nat) : Bool :=
  (9 ≤ c && c ≤ 13) || (28 ≤ c && c ≤ 32) || c == 0x85 || c == 0xA0 || c == 0x1680 ||
    (0x2000 ≤ c && c ≤ 0x200A) || c == 0x2028 || c == 0x2029 || c == 0x202F || c == 0x205F ||
    c == 0x3000

def strip (s : Str) : Str := ((s.dropWhile isSpace).reverse.dropWhile isSpace).reverse

/-- `s.split()`. -/
def words (s : Str) : List Str := (s.splitOnP isSpace).filter fun word => !word.isEmpty

/-- `" ".join(words)`. -/
def spaced (ws : List Str) : Str := [32].intercalate ws

/-- `s.rfind(pattern)`, for a pattern that is not empty. -/
def rfind (pattern : Str) : Str → Int
  | [] => -1
  | c :: s =>
    let later := rfind pattern s
    if 0 ≤ later then later + 1 else if pattern.isPrefixOf (c :: s) then 0 else -1

/-- `pattern in s`. -/
def contains (pattern s : Str) : Bool := 0 ≤ rfind pattern s

/-- `s.split(pattern)[-1]`, where the pattern does not overlap itself. -/
def afterLast (pattern s : Str) : Str :=
  if contains pattern s then s.drop ((rfind pattern s).toNat + pattern.length) else s

/-! ## What UTF-8 can encode -/

/-- `s.encode("utf-8")` succeeds. -/
def encodes (s : Str) : Bool := s.all fun c => !isSurrogate c

/-- `str(n)` does not refuse the integer: it has at most 4300 digits. -/
@[irreducible] def fits (n : Int) : Bool := n.natAbs < 10 ^ 4300

namespace Value

mutual
/-- `json.dumps(value, ensure_ascii=False)` succeeds and its text can be written as UTF-8: an
integer has at most 4300 digits and no string holds half of a surrogate pair. -/
def encodes : Value → Bool
  | .int n => fits n
  | .str s => Py.encodes s
  | .list xs => encodesItems xs
  | .dict fs => encodesFields fs
  | _ => true

def encodesItems : List Value → Bool
  | [] => true
  | x :: xs => encodes x && encodesItems xs

def encodesFields : List (Str × Value) → Bool
  | [] => true
  | (key, x) :: fs => Py.encodes key && encodes x && encodesFields fs
end

mutual
/-- `str(value)`, `repr(value)` and `json.dumps(value)` do not refuse an integer of the value. -/
def prints : Value → Bool
  | .int n => fits n
  | .list xs => printsItems xs
  | .dict fs => printsFields fs
  | _ => true

def printsItems : List Value → Bool
  | [] => true
  | x :: xs => prints x && printsItems xs

def printsFields : List (Str × Value) → Bool
  | [] => true
  | (_, x) :: fs => prints x && printsFields fs
end

end Value

/-- `float(n)` does not overflow: the integer rounds to a finite double. -/
@[irreducible] def floats (n : Int) : Bool := n.natAbs < 2 ^ 1024 - 2 ^ 970

theorem two_pow_sub_le {a b : Nat} (c : Nat) (h : a ≤ b) : 2 ^ a - c ≤ 10 ^ b := by
  have hbase : 2 ^ a ≤ 10 ^ a := Nat.pow_le_pow_left (by omega) a
  exact (Nat.sub_le _ _).trans (hbase.trans (Nat.pow_le_pow_right (by omega) h))

/-- An integer that is a float has few digits. -/
theorem fits_of_floats {n : Int} (h : floats n = true) : fits n = true := by
  unfold floats at h
  unfold fits
  rw [decide_eq_true_eq] at h ⊢
  have hexponents : 1024 ≤ 4300 := by decide
  generalize 1024 = a, 4300 = b, 970 = c at h hexponents ⊢
  exact h.trans_le (two_pow_sub_le (2 ^ c) hexponents)

theorem fits_of_lt {n : Int} (h : n.natAbs < 10 ^ 9) : fits n = true := by
  have hd : 9 ≤ 4300 := by decide
  unfold fits
  generalize 4300 = d at hd ⊢
  rw [decide_eq_true_iff]
  exact Nat.lt_of_lt_of_le h (Nat.pow_le_pow_right (by decide) hd)

end Py
end FlashNext
