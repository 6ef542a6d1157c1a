import FlashNext.Text.Ascii

/-!
# Incremental UTF-8

The decoder keeps the bytes of a character that has begun and refuses a byte as soon as no
character can go on with it.  A refusal carries what the exception's text shows: the place of
the character in the data, its first byte and how many of its bytes were read.
-/

namespace FlashNext
namespace Text

/-- The length of the character a first byte begins, and 0 when it begins none. -/
def sequenceLength (b : UInt8) : Nat :=
  if b < 0x80 then 1
  else if b < 0xc2 then 0
  else if b < 0xe0 then 2
  else if b < 0xf0 then 3
  else if b < 0xf5 then 4
  else 0

def isTail (b : UInt8) : Bool := 0x80 ≤ b && b < 0xc0

/-- The second byte is a tail that keeps the character short, in range and no surrogate. -/
def isSecond (first b : UInt8) : Bool :=
  isTail b && (first != 0xe0 || 0xa0 ≤ b) && (first != 0xed || b < 0xa0) &&
    (first != 0xf0 || 0x90 ≤ b) && (first != 0xf4 || b < 0x90)

/-- The code point of a complete character. -/
def codePoint (first : UInt8) (tail : Bytes) : Nat :=
  let lead := match tail.length with
    | 0 => first.toNat
    | 1 => first.toNat % 32
    | 2 => first.toNat % 16
    | _ => first.toNat % 8
  tail.foldl (fun code b => code * 64 + b.toNat % 64) lead

structure Utf8Error where
  reason : String
  first : UInt8
  position : Nat
  length : Nat
  deriving DecidableEq

/-- What one byte does to a character that has begun. -/
inductive Utf8Step where
  | invalid
  | more (pending : Bytes)
  | done (code : Nat)

def utf8Step (pending : Bytes) (b : UInt8) : Utf8Step :=
  match pending with
  | [] =>
    match sequenceLength b with
    | 0 => .invalid
    | 1 => .done b.toNat
    | _ => .more [b]
  | first :: tail =>
    if if tail = [] then isSecond first b else isTail b then
      if tail.length + 2 = sequenceLength first then .done (codePoint first (tail ++ [b]))
      else .more (first :: (tail ++ [b]))
    else .invalid

def refusal (pending : Bytes) (position : Nat) (b : UInt8) : Utf8Error :=
  match pending with
  | [] => ⟨"invalid start byte", b, position, 1⟩
  | first :: tail =>
    ⟨"invalid continuation byte", first, position - (tail.length + 1), tail.length + 1⟩

/-- The code points of the bytes that follow `pending`, and the character left unfinished. -/
def decodeFrom (pending : Bytes) (position : Nat) :
    Bytes → Except Utf8Error (List Nat × Bytes)
  | [] => .ok ([], pending)
  | b :: bs =>
    match utf8Step pending b with
    | .invalid => .error (refusal pending position b)
    | .more pending' => decodeFrom pending' (position + 1) bs
    | .done code => (decodeFrom [] (position + 1) bs).map fun r => (code :: r.1, r.2)

/-- `decoder.decode(data)`: the decoder holds `pending`. -/
def decodeUtf8 (pending data : Bytes) : Except Utf8Error (List Nat × Bytes) :=
  decodeFrom pending pending.length data

/-- `decoder.decode(data, final=True)`. -/
def decodeUtf8Final (pending data : Bytes) : Except Utf8Error (List Nat) :=
  match decodeUtf8 pending data with
  | .error e => .error e
  | .ok (text, []) => .ok text
  | .ok (_, first :: tail) =>
    .error ⟨"unexpected end of data", first, pending.length + data.length - (tail.length + 1),
      tail.length + 1⟩

/-- The bytes are a text on their own. -/
def validUtf8 (data : Bytes) : Bool :=
  match decodeUtf8 [] data with
  | .ok (_, []) => true
  | _ => false

/-- "你" in two pieces, and a surrogate refused at its second byte. -/
example : decodeUtf8 [0xe4] [0xbd, 0xa0] = .ok ([0x4f60], []) ∧
    decodeUtf8 [] [0x61, 0xed, 0xa0] = .error ⟨"invalid continuation byte", 0xed, 1, 1⟩ := by
  decide

end Text
end FlashNext
