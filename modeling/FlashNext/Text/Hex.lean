import FlashNext.Text.Ascii

/-!
# Digests as text

A digest travels as lower-case hexadecimal text of a fixed length.  `Hex n` is such a text,
so a function that takes one need not look at it again.
-/

namespace FlashNext
namespace Text

def isHexDigit (c : Char) : Bool :=
  ('0' ≤ c && c ≤ '9') || ('a' ≤ c && c ≤ 'f')

def isHex (n : Nat) (s : String) : Bool :=
  s.toList.length == n && s.toList.all isHexDigit

@[ext]
structure Hex (n : Nat) where
  text : String
  isHex : isHex n text = true
  deriving DecidableEq

namespace Hex

variable {n : Nat}

def ofText? (n : Nat) (s : String) : Option (Hex n) :=
  if h : Text.isHex n s = true then some ⟨s, h⟩ else none

@[simp] theorem ofText?_text (h : Hex n) : ofText? n h.text = some h := by
  have hv : Text.isHex n h.text = true := h.isHex
  rw [ofText?, dif_pos hv]

theorem ofText?_eq_some {s : String} {h : Hex n} : ofText? n s = some h ↔ s = h.text := by
  unfold ofText?
  split
  · next hs =>
    rw [Option.some.injEq, Hex.ext_iff]
  · next hs =>
    constructor
    · intro he
      cases he
    · intro he
      exact absurd (he ▸ h.isHex) hs

theorem length_text (h : Hex n) : h.text.toList.length = n := by
  have hv := h.isHex
  simp only [Text.isHex, Bool.and_eq_true, beq_iff_eq] at hv
  exact hv.1

/-- A digest of positive length is not the empty text. -/
theorem text_ne_empty {n : Nat} (h : Hex (n + 1)) : h.text ≠ "" := by
  intro he
  have hl := h.length_text
  rw [he] at hl
  exact absurd hl (by simp)

end Hex

end Text
end FlashNext
