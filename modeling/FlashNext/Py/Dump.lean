import FlashNext.Py.Text
import Mathlib.Algebra.Order.Ring.Int

/-!
# Writing a value

`json.dumps(value, sort_keys=True, separators=(",", ":"), ensure_ascii=False, allow_nan=False)`
and its UTF-8 bytes.  `size` is the number of these bytes, read off the value itself: sorting
the keys does not change it.  The text of a float comes from the interpreter.
-/

namespace FlashNext
namespace Py

open Text (Bytes isSurrogate)

/-! ## UTF-8 -/

def utf8Width (c : Nat) : Nat :=
  if c < 0x80 then 1 else if c < 0x800 then 2 else if c < 0x10000 then 3 else 4

/-- The bytes of one character. -/
def encodePoint (c : Nat) : Bytes :=
  if c < 0x80 then [.ofNat c]
  else if c < 0x800 then [.ofNat (0xc0 + c / 64), .ofNat (0x80 + c % 64)]
  else if c < 0x10000 then
    [.ofNat (0xe0 + c / 4096), .ofNat (0x80 + c / 64 % 64), .ofNat (0x80 + c % 64)]
  else [.ofNat (0xf0 + c / 262144), .ofNat (0x80 + c / 4096 % 64), .ofNat (0x80 + c / 64 % 64),
    .ofNat (0x80 + c % 64)]

/-- `s.encode("utf-8")`, for a string that `encodes`. -/
def encodeUtf8 (s : Str) : Bytes := s.flatMap encodePoint

def width (s : Str) : Nat := (s.map utf8Width).sum

theorem length_encodePoint (c : Nat) : (encodePoint c).length = utf8Width c := by
  unfold encodePoint utf8Width
  split_ifs <;> rfl

theorem length_encodeUtf8 (s : Str) : (encodeUtf8 s).length = width s := by
  induction s with
  | nil => rfl
  | cons c s ih =>
    rw [encodeUtf8, List.flatMap_cons, List.length_append, length_encodePoint]
    rw [encodeUtf8] at ih
    rw [ih, width, width, List.map_cons, List.sum_cons]

@[simp] theorem width_nil : width [] = 0 := rfl

@[simp] theorem width_cons (c : Nat) (s : Str) : width (c :: s) = utf8Width c + width s := rfl

@[simp] theorem width_append (s t : Str) : width (s ++ t) = width s + width t := by
  rw [width, width, width, List.map_append, List.sum_append]

/-! ## Strings -/

def hexDigit (n : Nat) : Nat := if n < 10 then 48 + n else 87 + n

/-- One character of a string literal. -/
def escapePoint (c : Nat) : Str :=
  if c = 34 then [92, 34]
  else if c = 92 then [92, 92]
  else if c = 10 then [92, 110]
  else if c = 13 then [92, 114]
  else if c = 9 then [92, 116]
  else if c = 8 then [92, 98]
  else if c = 12 then [92, 102]
  else if c < 32 then [92, 117, 48, 48, hexDigit (c / 16), hexDigit (c % 16)]
  else [c]

def dumpStr (s : Str) : Str := 34 :: (s.flatMap escapePoint ++ [34])

/-- The bytes that a character takes in a string literal. -/
def cost (c : Nat) : Nat :=
  if c = 34 ∨ c = 92 ∨ c = 10 ∨ c = 13 ∨ c = 9 ∨ c = 8 ∨ c = 12 then 2
  else if c < 32 then 6
  else utf8Width c

def costs (s : Str) : Nat := (s.map cost).sum

theorem width_escapePoint (c : Nat) : width (escapePoint c) = cost c := by
  unfold escapePoint cost
  by_cases hspecial : c = 34 ∨ c = 92 ∨ c = 10 ∨ c = 13 ∨ c = 9 ∨ c = 8 ∨ c = 12
  · rw [if_pos hspecial]
    rcases hspecial with rfl | rfl | rfl | rfl | rfl | rfl | rfl
    all_goals decide
  · rw [if_neg hspecial]
    simp only [not_or] at hspecial
    obtain ⟨h₁, h₂, h₃, h₄, h₅, h₆, h₇⟩ := hspecial
    rw [if_neg h₁, if_neg h₂, if_neg h₃, if_neg h₄, if_neg h₅, if_neg h₆, if_neg h₇]
    by_cases hcontrol : c < 32
    · rw [if_pos hcontrol, if_pos hcontrol]
      have hdigit : ∀ n, n < 16 → utf8Width (hexDigit n) = 1 := by
        intro n hn
        unfold hexDigit utf8Width
        split_ifs <;> omega
      simp only [width_cons, width_nil, hdigit (c / 16) (by omega), hdigit (c % 16) (by omega)]
      decide
    · rw [if_neg hcontrol, if_neg hcontrol]
      rfl

theorem width_dumpStr (s : Str) : width (dumpStr s) = costs s + 2 := by
  have hbody : width (s.flatMap escapePoint) = costs s := by
    induction s with
    | nil => rfl
    | cons c s ih =>
      rw [List.flatMap_cons, width_append, width_escapePoint, ih, costs, costs, List.map_cons,
        List.sum_cons]
  rw [dumpStr, width_cons, width_append, hbody]
  show 1 + (costs s + 1) = costs s + 2
  omega

@[simp] theorem encodes_nil : encodes [] = true := rfl

@[simp] theorem encodes_cons (c : Nat) (s : Str) :
    encodes (c :: s) = (!isSurrogate c && encodes s) := rfl

@[simp] theorem encodes_append (s t : Str) : encodes (s ++ t) = (encodes s && encodes t) :=
  List.all_append

theorem encodes_of_ascii {s : Str} (h : ∀ c ∈ s, c < 0x80) : encodes s = true := by
  rw [encodes, List.all_eq_true]
  intro c hc
  have hlt := h c hc
  simp only [isSurrogate, Bool.not_eq_true', Bool.and_eq_false_iff, decide_eq_false_iff_not]
  omega

theorem encodes_escapePoint {c : Nat} (h : isSurrogate c = false) :
    encodes (escapePoint c) = true := by
  by_cases hlast : escapePoint c = [c]
  · rw [hlast, encodes_cons, h]
    rfl
  · apply encodes_of_ascii
    have hdigit : ∀ n, n < 16 → hexDigit n < 0x80 := by
      intro n hn
      unfold hexDigit
      split <;> omega
    unfold escapePoint at hlast ⊢
    split_ifs at hlast ⊢
    all_goals first
      | exact absurd rfl hlast
      | simp only [List.forall_mem_cons]
        refine ⟨by decide, by decide, ?_⟩
        simp <;> exact ⟨hdigit _ (by omega), hdigit _ (by omega)⟩

/-- The literal of a string encodes where the string does. -/
theorem encodes_dumpStr {s : Str} (h : encodes s = true) : encodes (dumpStr s) = true := by
  have hbody : encodes (s.flatMap escapePoint) = true := by
    induction s with
    | nil => rfl
    | cons c s ih =>
      rw [encodes_cons, Bool.and_eq_true, Bool.not_eq_true'] at h
      rw [List.flatMap_cons, encodes_append, encodes_escapePoint h.1, ih h.2]
      rfl
  rw [dumpStr, encodes_cons, encodes_append, hbody]
  decide

/-- A text that Lean holds has no half of a surrogate pair. -/
theorem encodes_str (s : String) : encodes (str s) = true := by
  rw [encodes, str, List.all_map, List.all_eq_true]
  intro c _
  have hvalid : c.toNat.isValidChar := c.valid
  unfold Nat.isValidChar at hvalid
  simp only [Function.comp, isSurrogate, Bool.not_eq_true', Bool.and_eq_false_iff,
    decide_eq_false_iff_not]
  omega

/-! ## Values -/

def dumpInt (n : Int) : Str := str (toString n)

namespace Value

mutual
/-- The keys of every dictionary in order. -/
def sortKeys : Value → Value
  | .list xs => .list (sortKeysItems xs)
  | .dict fs => .dict (sortKeysFields fs)
  | v => v

def sortKeysItems : List Value → List Value
  | [] => []
  | x :: xs => sortKeys x :: sortKeysItems xs

def sortKeysFields : List (Str × Value) → List (Str × Value)
  | [] => []
  | (key, x) :: fs => insertField (key, sortKeys x) (sortKeysFields fs)
end

section

variable (floatText : ℚ → Str)

mutual
/-- The text of a value without infinities. -/
def dump : Value → Str
  | .none => Py.str "null"
  | .bool true => Py.str "true"
  | .bool false => Py.str "false"
  | .int n => dumpInt n
  | .float q => floatText q
  | .nonfinite _ => []
  | .str s => dumpStr s
  | .list [] => Py.str "[]"
  | .list (x :: xs) => 91 :: (dump x ++ dumpItems xs)
  | .dict [] => Py.str "{}"
  | .dict ((key, x) :: fs) => 123 :: (dumpStr key ++ 58 :: (dump x ++ dumpFields fs))

/-- The items after the first, and the closing bracket. -/
def dumpItems : List Value → Str
  | [] => [93]
  | x :: xs => 44 :: (dump x ++ dumpItems xs)

/-- The fields after the first, and the closing brace. -/
def dumpFields : List (Str × Value) → Str
  | [] => [125]
  | (key, x) :: fs => 44 :: (dumpStr key ++ 58 :: (dump x ++ dumpFields fs))
end

mutual
/-- The number of bytes of the text. -/
def size : Value → Nat
  | .none => 4
  | .bool true => 4
  | .bool false => 5
  | .int n => width (dumpInt n)
  | .float q => width (floatText q)
  | .nonfinite _ => 0
  | .str s => costs s + 2
  | .list xs => max 1 (sizeItems xs) + 1
  | .dict fs => max 1 (sizeFields fs) + 1

/-- Every item with the bracket or comma before it. -/
def sizeItems : List Value → Nat
  | [] => 0
  | x :: xs => size x + 1 + sizeItems xs

def sizeFields : List (Str × Value) → Nat
  | [] => 0
  | (key, x) :: fs => costs key + size x + 4 + sizeFields fs
end

end

mutual
/-- `json.dumps` raises nothing: no infinity, and no integer of more than 4300 digits. -/
def dumps : Value → Bool
  | .int n => fits n
  | .nonfinite _ => false
  | .list xs => dumpsItems xs
  | .dict fs => dumpsFields fs
  | _ => true

def dumpsItems : List Value → Bool
  | [] => true
  | x :: xs => dumps x && dumpsItems xs

def dumpsFields : List (Str × Value) → Bool
  | [] => true
  | (_, x) :: fs => dumps x && dumpsFields fs
end

/-- `_canonical`, or the class of the exception it raises. -/
def canonical (floatText : ℚ → Str) (v : Value) : Except String Bytes :=
  if !dumps v then .error "ValueError"
  else if Py.encodes (dump floatText (sortKeys v)) then
    .ok (encodeUtf8 (dump floatText (sortKeys v)))
  else .error "UnicodeEncodeError"

/-! ## The size of the text -/

section

variable {floatText : ℚ → Str}

mutual
theorem width_dump : ∀ v : Value, dumps v = true → width (dump floatText v) = size floatText v
  | .none, _ => by rw [dump, size]; decide
  | .bool true, _ => by rw [dump, size]; decide
  | .bool false, _ => by rw [dump, size]; decide
  | .int n, _ => by rw [dump, size]
  | .float q, _ => by rw [dump, size]
  | .nonfinite x, h => absurd h (by rw [dumps]; exact Bool.false_ne_true)
  | .str s, _ => by rw [dump, size, width_dumpStr]
  | .list [], _ => by rw [dump, size, sizeItems]; decide
  | .list (x :: xs), h => by
    rw [dumps, dumpsItems, Bool.and_eq_true] at h
    rw [dump, size, sizeItems, width_cons, width_append, width_dump x h.1, width_dumpItems xs h.2]
    show 1 + _ = _
    omega
  | .dict [], _ => by rw [dump, size, sizeFields]; decide
  | .dict ((key, x) :: fs), h => by
    rw [dumps, dumpsFields, Bool.and_eq_true] at h
    rw [dump, size, sizeFields, width_cons, width_append, width_cons, width_append, width_dumpStr,
      width_dump x h.1, width_dumpFields fs h.2]
    show 1 + (_ + (1 + _)) = _
    omega

theorem width_dumpItems : ∀ xs : List Value, dumpsItems xs = true →
    width (dumpItems floatText xs) = sizeItems floatText xs + 1
  | [], _ => by rw [dumpItems, sizeItems]; decide
  | x :: xs, h => by
    rw [dumpsItems, Bool.and_eq_true] at h
    rw [dumpItems, sizeItems, width_cons, width_append, width_dump x h.1, width_dumpItems xs h.2]
    show 1 + _ = _
    omega

theorem width_dumpFields : ∀ fs : List (Str × Value), dumpsFields fs = true →
    width (dumpFields floatText fs) = sizeFields floatText fs + 1
  | [], _ => by rw [dumpFields, sizeFields]; decide
  | (key, x) :: fs, h => by
    rw [dumpsFields, Bool.and_eq_true] at h
    rw [dumpFields, sizeFields, width_cons, width_append, width_cons, width_append, width_dumpStr,
      width_dump x h.1, width_dumpFields fs h.2]
    show 1 + (_ + (1 + _)) = _
    omega
end

/-- The keys, the values and the marks around them. -/
theorem sizeFields_eq (fs : List (Str × Value)) : sizeFields floatText fs =
    (fs.map fun f => costs f.1).sum + (fs.map fun f => size floatText f.2).sum +
      4 * fs.length := by
  induction fs with
  | nil => rfl
  | cons f fs ih =>
    obtain ⟨key, x⟩ := f
    rw [sizeFields, ih, List.map_cons, List.map_cons, List.sum_cons, List.sum_cons,
      List.length_cons]
    dsimp only
    omega

theorem sizeFields_insertField (key : Str) (x : Value) (fs : List (Str × Value)) :
    sizeFields floatText (insertField (key, x) fs) =
      costs key + size floatText x + 4 + sizeFields floatText fs := by
  induction fs with
  | nil => rfl
  | cons f fs ih =>
    rw [insertField]
    by_cases hle : key ≤ f.1
    · rw [if_pos hle, sizeFields]
    · rw [if_neg hle, sizeFields, sizeFields, ih]
      omega

mutual
theorem size_sortKeys : ∀ v : Value, size floatText (sortKeys v) = size floatText v
  | .none => rfl
  | .bool b => rfl
  | .int n => rfl
  | .float q => rfl
  | .nonfinite x => rfl
  | .str s => rfl
  | .list xs => by rw [sortKeys, size, size, size_sortKeysItems xs]
  | .dict fs => by rw [sortKeys, size, size, size_sortKeysFields fs]

theorem size_sortKeysItems : ∀ xs : List Value,
    sizeItems floatText (sortKeysItems xs) = sizeItems floatText xs
  | [] => by rw [sortKeysItems]
  | x :: xs => by
    rw [sortKeysItems, sizeItems, sizeItems, size_sortKeys x, size_sortKeysItems xs]

theorem size_sortKeysFields : ∀ fs : List (Str × Value),
    sizeFields floatText (sortKeysFields fs) = sizeFields floatText fs
  | [] => by rw [sortKeysFields]
  | (key, x) :: fs => by
    rw [sortKeysFields, sizeFields_insertField, sizeFields, size_sortKeys x,
      size_sortKeysFields fs]
end

/-! ## The text can be encoded -/

variable (floatText) in
mutual
/-- No string of the value holds half of a surrogate pair. -/
def textual : Value → Bool
  | .float q => Py.encodes (floatText q)
  | .str s => Py.encodes s
  | .list xs => textualItems xs
  | .dict fs => textualFields fs
  | _ => true

def textualItems : List Value → Bool
  | [] => true
  | x :: xs => textual x && textualItems xs

def textualFields : List (Str × Value) → Bool
  | [] => true
  | (key, x) :: fs => Py.encodes key && textual x && textualFields fs
end

mutual
theorem encodes_dump : ∀ v : Value, textual floatText v = true →
    Py.encodes (dump floatText v) = true
  | .none, _ => encodes_str _
  | .bool true, _ => encodes_str _
  | .bool false, _ => encodes_str _
  | .int n, _ => encodes_str _
  | .float q, h => h
  | .nonfinite _, _ => rfl
  | .str s, h => encodes_dumpStr h
  | .list [], _ => encodes_str _
  | .list (x :: xs), h => by
    rw [textual, textualItems, Bool.and_eq_true] at h
    rw [dump, encodes_cons, encodes_append, encodes_dump x h.1, encodes_dumpItems xs h.2]
    decide
  | .dict [], _ => encodes_str _
  | .dict ((key, x) :: fs), h => by
    rw [textual, textualFields, Bool.and_eq_true, Bool.and_eq_true] at h
    rw [dump, encodes_cons, encodes_append, encodes_cons, encodes_append, encodes_dumpStr h.1.1,
      encodes_dump x h.1.2, encodes_dumpFields fs h.2]
    decide

theorem encodes_dumpItems : ∀ xs : List Value, textualItems floatText xs = true →
    Py.encodes (dumpItems floatText xs) = true
  | [], _ => rfl
  | x :: xs, h => by
    rw [textualItems, Bool.and_eq_true] at h
    rw [dumpItems, encodes_cons, encodes_append, encodes_dump x h.1, encodes_dumpItems xs h.2]
    decide

theorem encodes_dumpFields : ∀ fs : List (Str × Value), textualFields floatText fs = true →
    Py.encodes (dumpFields floatText fs) = true
  | [], _ => rfl
  | (key, x) :: fs, h => by
    rw [textualFields, Bool.and_eq_true, Bool.and_eq_true] at h
    rw [dumpFields, encodes_cons, encodes_append, encodes_cons, encodes_append,
      encodes_dumpStr h.1.1, encodes_dump x h.1.2, encodes_dumpFields fs h.2]
    decide
end

theorem textualFields_insertField (key : Str) (x : Value) (fs : List (Str × Value)) :
    textualFields floatText (insertField (key, x) fs) =
      (Py.encodes key && textual floatText x && textualFields floatText fs) := by
  induction fs with
  | nil => rfl
  | cons f fs ih =>
    rw [insertField]
    by_cases hle : key ≤ f.1
    · rw [if_pos hle, textualFields]
    · rw [if_neg hle, textualFields, textualFields, ih]
      simp only [Bool.and_left_comm]

mutual
theorem textual_sortKeys : ∀ v : Value, textual floatText (sortKeys v) = textual floatText v
  | .none => rfl
  | .bool _ => rfl
  | .int _ => rfl
  | .float _ => rfl
  | .nonfinite _ => rfl
  | .str _ => rfl
  | .list xs => by rw [sortKeys, textual, textual, textual_sortKeysItems xs]
  | .dict fs => by rw [sortKeys, textual, textual, textual_sortKeysFields fs]

theorem textual_sortKeysItems : ∀ xs : List Value,
    textualItems floatText (sortKeysItems xs) = textualItems floatText xs
  | [] => by rw [sortKeysItems]
  | x :: xs => by
    rw [sortKeysItems, textualItems, textualItems, textual_sortKeys x, textual_sortKeysItems xs]

theorem textual_sortKeysFields : ∀ fs : List (Str × Value),
    textualFields floatText (sortKeysFields fs) = textualFields floatText fs
  | [] => by rw [sortKeysFields]
  | (key, x) :: fs => by
    rw [sortKeysFields, textualFields_insertField, textualFields, textual_sortKeys x,
      textual_sortKeysFields fs]
end

theorem dumpsFields_insertField (key : Str) (x : Value) (fs : List (Str × Value)) :
    dumpsFields (insertField (key, x) fs) = (dumps x && dumpsFields fs) := by
  induction fs with
  | nil => rfl
  | cons f fs ih =>
    rw [insertField]
    by_cases hle : key ≤ f.1
    · rw [if_pos hle, dumpsFields]
    · rw [if_neg hle, dumpsFields, dumpsFields, ih, Bool.and_left_comm]

mutual
theorem dumps_sortKeys : ∀ v : Value, dumps (sortKeys v) = dumps v
  | .none => rfl
  | .bool _ => rfl
  | .int _ => rfl
  | .float _ => rfl
  | .nonfinite _ => rfl
  | .str _ => rfl
  | .list xs => by rw [sortKeys, dumps, dumps, dumps_sortKeysItems xs]
  | .dict fs => by rw [sortKeys, dumps, dumps, dumps_sortKeysFields fs]

theorem dumps_sortKeysItems : ∀ xs : List Value, dumpsItems (sortKeysItems xs) = dumpsItems xs
  | [] => by rw [sortKeysItems]
  | x :: xs => by
    rw [sortKeysItems, dumpsItems, dumpsItems, dumps_sortKeys x, dumps_sortKeysItems xs]

theorem dumps_sortKeysFields : ∀ fs : List (Str × Value),
    dumpsFields (sortKeysFields fs) = dumpsFields fs
  | [] => by rw [sortKeysFields]
  | (key, x) :: fs => by
    rw [sortKeysFields, dumpsFields_insertField, dumpsFields, dumps_sortKeys x,
      dumps_sortKeysFields fs]
end

/-- A value that can be written has a canonical text of its size. -/
theorem canonical_ok {v : Value} (hdumps : dumps v = true) (htext : textual floatText v = true) :
    ∃ bytes, canonical floatText v = .ok bytes ∧ bytes.length = size floatText v := by
  have henc : Py.encodes (dump floatText (sortKeys v)) = true := by
    apply encodes_dump
    rw [textual_sortKeys, htext]
  refine ⟨encodeUtf8 (dump floatText (sortKeys v)), ?_, ?_⟩
  · rw [canonical, hdumps, henc]
    rfl
  · rw [length_encodeUtf8, width_dump _ (by rw [dumps_sortKeys, hdumps]), size_sortKeys]

end

end Value

end Py
end FlashNext
