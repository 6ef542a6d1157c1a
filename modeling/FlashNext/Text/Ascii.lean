import Mathlib.Data.List.Basic

/-!
# ASCII text as bytes
-/

namespace FlashNext
namespace Text

abbrev Bytes := List UInt8

/-- Every character of the text is an ASCII character. -/
def Ascii (cs : List Char) : Prop := ∀ c ∈ cs, c.toNat < 128

/-- `s.encode()`. -/
def encode (s : String) : Bytes := s.toByteArray.data.toList

def asciiChars (bs : Bytes) : List Char := bs.map fun b => Char.ofNat b.toNat

theorem ascii_of_all {cs : List Char} (h : cs.all (fun c => c.toNat < 128) = true) : Ascii cs := by
  intro c hc
  exact of_decide_eq_true (List.all_eq_true.mp h c hc)

theorem ascii_nil : Ascii [] := by
  intro c hc
  cases hc

theorem ascii_cons {c : Char} {cs : List Char} (hc : c.toNat < 128) (hcs : Ascii cs) :
    Ascii (c :: cs) := by
  intro d hd
  rcases List.mem_cons.mp hd with rfl | hd
  · exact hc
  · exact hcs d hd

theorem ascii_append {cs ds : List Char} (hcs : Ascii cs) (hds : Ascii ds) : Ascii (cs ++ ds) := by
  intro d hd
  rcases List.mem_append.mp hd with hd | hd
  · exact hcs d hd
  · exact hds d hd

end Text
end FlashNext
