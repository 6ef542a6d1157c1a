import FlashNext.Json.Value

/-!
# Reading JSON strictly

The scanner of `json.loads` with the three refusals every strict reader here asks for: a
repeated key, a literal `NaN` or `Infinity`, and a float that is not finite.  An integer of
more than 4300 digits is refused, as `int` refuses it.  A `\u` escape that is half of a
surrogate pair names no character and is refused.

Every recursive call is made on less text, so a budget of the text's length is never used
up before the text is.
-/

namespace FlashNext
namespace Json

def isSpace (c : Char) : Bool := c = ' ' || c = '\t' || c = '\n' || c = '\r'

def skipSpace : List Char → List Char
  | [] => []
  | c :: cs => if isSpace c then skipSpace cs else c :: cs

/-! ## Strings -/

def hexValue (c : Char) : Option Nat :=
  if '0' ≤ c ∧ c ≤ '9' then some (c.toNat - 48)
  else if 'a' ≤ c ∧ c ≤ 'f' then some (c.toNat - 87)
  else if 'A' ≤ c ∧ c ≤ 'F' then some (c.toNat - 55)
  else none

def hexUnit (a b c d : Char) : Option Nat := do
  let a ← hexValue a
  let b ← hexValue b
  let c ← hexValue c
  let d ← hexValue d
  return ((a * 16 + b) * 16 + c) * 16 + d

/-- What a one-letter escape stands for. -/
def unescape (c : Char) : Option Char :=
  if c = '"' then some '"'
  else if c = '\\' then some '\\'
  else if c = '/' then some '/'
  else if c = 'b' then some '\x08'
  else if c = 'f' then some '\x0c'
  else if c = 'n' then some '\n'
  else if c = 'r' then some '\r'
  else if c = 't' then some '\t'
  else none

/-- Put a character in front of what the rest of the literal reads as. -/
def consChar (c : Char) : Option (List Char × List Char) → Option (List Char × List Char) :=
  Option.map fun p => (c :: p.1, p.2)

/-- The characters of a literal after its opening quote, and the text after it. -/
def scanString : List Char → Option (List Char × List Char)
  | [] => none
  | '"' :: r => some ([], r)
  | '\\' :: 'u' :: a :: b :: c :: d :: r =>
    match hexUnit a b c d with
    | none => none
    | some u =>
      if 0xd800 ≤ u ∧ u < 0xdc00 then
        match r with
        | '\\' :: 'u' :: a :: b :: c :: d :: r =>
          match hexUnit a b c d with
          | none => none
          | some v =>
            if 0xdc00 ≤ v ∧ v < 0xe000 then
              consChar (Char.ofNat (0x10000 + (u - 0xd800) * 0x400 + (v - 0xdc00))) (scanString r)
            else none
        | _ => none
      else if 0xdc00 ≤ u ∧ u < 0xe000 then none
      else consChar (Char.ofNat u) (scanString r)
  | '\\' :: e :: r =>
    match unescape e with
    | none => none
    | some c => consChar c (scanString r)
  | c :: r => if c.toNat < 0x20 then none else consChar c (scanString r)

def loadString (cs : List Char) : Option (String × List Char) :=
  (scanString cs).map fun p => (String.ofList p.1, p.2)

/-! ## Numbers -/

def intMaxStrDigits : Nat := 4300

def signed (neg : Bool) (n : Nat) : Int := if neg then -(n : Int) else n

/-- The digits after a point; a point without digits is not part of the number. -/
def scanFrac : List Char → List Char × List Char
  | '.' :: r =>
    match r.span Char.isDigit with
    | ([], _) => ([], '.' :: r)
    | (ds, r') => (ds, r')
  | r => ([], r)

/-- The digits of an exponent after its letter and sign. -/
def scanExpDigits (neg : Bool) (whole r : List Char) : Option Int × List Char :=
  match r.span Char.isDigit with
  | ([], _) => (none, whole)
  | (ds, r') => (some (signed neg (Nat.ofDigitChars 10 ds 0)), r')

def scanExp : List Char → Option Int × List Char
  | [] => (none, [])
  | e :: r =>
    if e = 'e' ∨ e = 'E' then
      match r with
      | '-' :: r' => scanExpDigits true (e :: r) r'
      | '+' :: r' => scanExpDigits false (e :: r) r'
      | _ => scanExpDigits false (e :: r) r
    else (none, e :: r)

/-- The number whose integer digits are `ds`, with the text after them. -/
def finishNumber (neg : Bool) (ds r : List Char) : Option (Json × List Char) :=
  let (fr, r₁) := scanFrac r
  let (ex, r₂) := scanExp r₁
  if fr = [] ∧ ex = none then
    if ds.length ≤ intMaxStrDigits then
      some (.int (signed neg (Nat.ofDigitChars 10 ds 0)), r₂)
    else none
  else
    let d := Decimal.normalize (signed neg (Nat.ofDigitChars 10 (ds ++ fr) 0))
      (ex.getD 0 - fr.length)
    if d.overflows then none else some (.float d, r₂)

def loadUnsigned (neg : Bool) : List Char → Option (Json × List Char)
  | '0' :: r => finishNumber neg ['0'] r
  | cs =>
    match cs.span Char.isDigit with
    | ([], _) => none
    | (ds, r) => finishNumber neg ds r

def loadNumber : List Char → Option (Json × List Char)
  | '-' :: r => loadUnsigned true r
  | cs => loadUnsigned false cs

/-! ## Values -/

mutual
/-- One value at the head of the text, and the text after it. -/
def loadValue : Nat → List Char → Option (Json × List Char)
  | 0, _ => none
  | _ + 1, [] => none
  | fuel + 1, c :: cs =>
    if c = '"' then (loadString cs).map fun p => (.str p.1, p.2)
    else if c = '{' then
      match skipSpace cs with
      | '}' :: r => some (.obj [], r)
      | r =>
        match loadFields fuel r with
        | none => none
        | some (fs, r) => if (fs.map (·.1)).Nodup then some (.obj fs, r) else none
    else if c = '[' then
      match skipSpace cs with
      | ']' :: r => some (.arr [], r)
      | r => (loadItems fuel r).map fun p => (.arr p.1, p.2)
    else
      match c :: cs with
      | 'n' :: 'u' :: 'l' :: 'l' :: r => some (.null, r)
      | 't' :: 'r' :: 'u' :: 'e' :: r => some (.bool true, r)
      | 'f' :: 'a' :: 'l' :: 's' :: 'e' :: r => some (.bool false, r)
      | cs => loadNumber cs

/-- The items of an array up to its closing bracket. -/
def loadItems : Nat → List Char → Option (List Json × List Char)
  | 0, _ => none
  | fuel + 1, cs =>
    match loadValue fuel cs with
    | none => none
    | some (v, r) =>
      match skipSpace r with
      | ',' :: r => (loadItems fuel (skipSpace r)).map fun p => (v :: p.1, p.2)
      | ']' :: r => some ([v], r)
      | _ => none

/-- The fields of an object up to its closing brace. -/
def loadFields : Nat → List Char → Option (List (String × Json) × List Char)
  | 0, _ => none
  | _ + 1, [] => none
  | fuel + 1, c :: cs =>
    if c = '"' then
      match loadString cs with
      | none => none
      | some (k, r) =>
        match skipSpace r with
        | ':' :: r =>
          match loadValue fuel (skipSpace r) with
          | none => none
          | some (v, r) =>
            match skipSpace r with
            | ',' :: r => (loadFields fuel (skipSpace r)).map fun p => ((k, v) :: p.1, p.2)
            | '}' :: r => some ([(k, v)], r)
            | _ => none
        | _ => none
    else none
end

/-- `json.loads`, refusing repeated keys and numbers that are not finite. -/
def loadsStrict (cs : List Char) : Option Json :=
  match loadValue (cs.length + 1) (skipSpace cs) with
  | none => none
  | some (v, r) => if skipSpace r = [] then some v else none

end Json
end FlashNext
