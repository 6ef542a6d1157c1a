import FlashNext.Json.Value
import FlashNext.Text.Ascii

/-!
# Writing JSON

`dump` writes a value on one line with the separators `,` and `:` and every character
outside printable ASCII escaped, the text `json.dumps` gives with `ensure_ascii` and
compact separators.  A float is written as its mantissa and exponent.
-/

namespace FlashNext
namespace Json

open Text

/-- The lower-case hexadecimal digit of `n < 16`. -/
def hexDigit (n : Nat) : Char := Nat.digitChar n

/-- Four hexadecimal digits of `n < 65536`. -/
def hex4 (n : Nat) : List Char :=
  [hexDigit (n / 4096 % 16), hexDigit (n / 256 % 16), hexDigit (n / 16 % 16), hexDigit (n % 16)]

def escapeUnit (n : Nat) : List Char := '\\' :: 'u' :: hex4 n

/-- One character of a string literal.  Outside the basic plane the escape is a surrogate
pair. -/
def escapeChar (c : Char) : List Char :=
  if c = '"' then ['\\', '"']
  else if c = '\\' then ['\\', '\\']
  else if c = '\n' then ['\\', 'n']
  else if c = '\r' then ['\\', 'r']
  else if c = '\t' then ['\\', 't']
  else if c = '\x08' then ['\\', 'b']
  else if c = '\x0c' then ['\\', 'f']
  else if 0x20 ≤ c.toNat ∧ c.toNat ≤ 0x7e then [c]
  else if c.toNat < 0x10000 then escapeUnit c.toNat
  else escapeUnit (0xd800 + (c.toNat - 0x10000) / 0x400) ++
    escapeUnit (0xdc00 + (c.toNat - 0x10000) % 0x400)

def dumpString (s : String) : List Char := '"' :: (s.toList.flatMap escapeChar ++ ['"'])

def dumpInt (n : Int) : List Char :=
  if n < 0 then '-' :: Nat.toDigits 10 n.natAbs else Nat.toDigits 10 n.natAbs

mutual
def dump : Json → List Char
  | .null => ['n', 'u', 'l', 'l']
  | .bool true => ['t', 'r', 'u', 'e']
  | .bool false => ['f', 'a', 'l', 's', 'e']
  | .int n => dumpInt n
  | .float d => dumpInt d.mant ++ 'e' :: dumpInt d.exp
  | .str s => dumpString s
  | .arr [] => ['[', ']']
  | .arr (x :: xs) => '[' :: (dump x ++ dumpItems xs)
  | .obj [] => ['{', '}']
  | .obj ((k, v) :: fs) => '{' :: (dumpString k ++ ':' :: (dump v ++ dumpFields fs))

/-- The items after the first, and the closing bracket. -/
def dumpItems : List Json → List Char
  | [] => [']']
  | x :: xs => ',' :: (dump x ++ dumpItems xs)

/-- The fields after the first, and the closing brace. -/
def dumpFields : List (String × Json) → List Char
  | [] => ['}']
  | (k, v) :: fs => ',' :: (dumpString k ++ ':' :: (dump v ++ dumpFields fs))
end

/-- `json.dumps(value, sort_keys=True, separators=(",", ":"))`. -/
def dumpSorted (j : Json) : List Char := dump (sortKeys j)

/-! ## The text is ASCII -/

theorem hexDigit_lt (n : Nat) (h : n < 16) : (hexDigit n).toNat < 128 := by
  revert n
  decide

theorem ascii_escapeUnit (n : Nat) : Ascii (escapeUnit n) := by
  intro c hc
  simp only [escapeUnit, hex4, List.mem_cons, List.not_mem_nil, or_false] at hc
  rcases hc with rfl | rfl | rfl | rfl | rfl | rfl
  · decide
  · decide
  · exact hexDigit_lt _ (Nat.mod_lt _ (by decide))
  · exact hexDigit_lt _ (Nat.mod_lt _ (by decide))
  · exact hexDigit_lt _ (Nat.mod_lt _ (by decide))
  · exact hexDigit_lt _ (Nat.mod_lt _ (by decide))

theorem ascii_escapeChar (c : Char) : Ascii (escapeChar c) := by
  unfold escapeChar
  repeat' split
  all_goals first
    | exact ascii_escapeUnit _
    | exact ascii_append (ascii_escapeUnit _) (ascii_escapeUnit _)
    | (rename_i h; exact ascii_cons (by omega) ascii_nil)
    | (intro d hd; simp only [List.mem_cons, List.not_mem_nil, or_false] at hd
       rcases hd with rfl | rfl <;> decide)

theorem ascii_dumpString (s : String) : Ascii (dumpString s) := by
  refine ascii_cons (by decide) (ascii_append ?_ (ascii_cons (by decide) ascii_nil))
  intro d hd
  obtain ⟨c, -, hd⟩ := List.mem_flatMap.mp hd
  exact ascii_escapeChar c d hd

theorem isDigit_lt {c : Char} (h : c.isDigit = true) : c.toNat < 128 := by
  simp only [Char.isDigit, Bool.and_eq_true, decide_eq_true_eq] at h
  have h2 : c.val.toNat ≤ 57 := UInt32.le_iff_toNat_le.mp h.2
  exact Nat.lt_of_le_of_lt h2 (by decide)

theorem ascii_toDigits (n : Nat) : Ascii (Nat.toDigits 10 n) := fun _ hc =>
  isDigit_lt (Nat.isDigit_of_mem_toDigits (by decide) (by decide) hc)

theorem ascii_dumpInt (n : Int) : Ascii (dumpInt n) := by
  unfold dumpInt
  split
  · exact ascii_cons (by decide) (ascii_toDigits _)
  · exact ascii_toDigits _

mutual
theorem ascii_dump : ∀ j : Json, Ascii (dump j)
  | .null => ascii_of_all (by decide)
  | .bool true => ascii_of_all (by decide)
  | .bool false => ascii_of_all (by decide)
  | .int n => ascii_dumpInt n
  | .float d => ascii_append (ascii_dumpInt _) (ascii_cons (by decide) (ascii_dumpInt _))
  | .str s => ascii_dumpString s
  | .arr [] => ascii_of_all (by decide)
  | .arr (x :: xs) => ascii_cons (by decide) (ascii_append (ascii_dump x) (ascii_dumpItems xs))
  | .obj [] => ascii_of_all (by decide)
  | .obj ((k, v) :: fs) =>
    ascii_cons (by decide) (ascii_append (ascii_dumpString k)
      (ascii_cons (by decide) (ascii_append (ascii_dump v) (ascii_dumpFields fs))))

theorem ascii_dumpItems : ∀ xs : List Json, Ascii (dumpItems xs)
  | [] => ascii_cons (by decide) ascii_nil
  | x :: xs => ascii_cons (by decide) (ascii_append (ascii_dump x) (ascii_dumpItems xs))

theorem ascii_dumpFields : ∀ fs : List (String × Json), Ascii (dumpFields fs)
  | [] => ascii_cons (by decide) ascii_nil
  | (k, v) :: fs =>
    ascii_cons (by decide) (ascii_append (ascii_dumpString k)
      (ascii_cons (by decide) (ascii_append (ascii_dump v) (ascii_dumpFields fs))))
end

end Json
end FlashNext
