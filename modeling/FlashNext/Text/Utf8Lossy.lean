import FlashNext.Text.Utf8

/-!
# Lossy UTF-8

`decodeReplace` puts the replacement character in the place of every piece that no text has,
so it always delivers a text that can be encoded again.
-/

namespace FlashNext
namespace Text

/-- Half of a surrogate pair, which no encoder writes. -/
def isSurrogate (c : Nat) : Bool := 0xD800 ≤ c && c ≤ 0xDFFF

def replacement : Nat := 0xFFFD

/-- What follows `pending` under `errors="replace"`. -/
def decodeReplaceFrom (pending : Bytes) : Bytes → List Nat
  | [] => if pending = [] then [] else [replacement]
  | b :: bs =>
    match utf8Step pending b with
    | .more pending' => decodeReplaceFrom pending' bs
    | .done code => code :: decodeReplaceFrom [] bs
    | .invalid =>
      if pending = [] then replacement :: decodeReplaceFrom [] bs
      else
        -- the piece before the byte is replaced, and the byte is read again
        match utf8Step [] b with
        | .more pending' => replacement :: decodeReplaceFrom pending' bs
        | .done code => replacement :: code :: decodeReplaceFrom [] bs
        | .invalid => replacement :: replacement :: decodeReplaceFrom [] bs

/-- `data.decode("utf-8", errors="replace")`. -/
def decodeReplace (data : Bytes) : List Nat := decodeReplaceFrom [] data

/-! ## What it delivers can be encoded -/

/-- The bytes of a character that has begun. -/
def Begun : Bytes → Prop
  | [] => True
  | first :: tail => 0x80 ≤ first ∧ tail.length + 1 < sequenceLength first ∧
    ∀ b, tail.head? = some b → isSecond first b = true

theorem sequenceLength_toNat (b : UInt8) :
    sequenceLength b = if b.toNat < 0x80 then 1 else if b.toNat < 0xc2 then 0
      else if b.toNat < 0xe0 then 2 else if b.toNat < 0xf0 then 3
      else if b.toNat < 0xf5 then 4 else 0 := by
  simp only [sequenceLength, UInt8.lt_iff_toNat_lt]
  rfl

theorem isSecond_toNat {first b : UInt8} (h : isSecond first b = true) :
    0x80 ≤ b.toNat ∧ b.toNat < 0xc0 ∧ (first.toNat = 0xed → b.toNat < 0xa0) ∧
      (first.toNat = 0xf0 → 0x90 ≤ b.toNat) := by
  simp only [isSecond, isTail, Bool.and_eq_true, Bool.or_eq_true, bne_iff_ne, decide_eq_true_eq,
    ne_eq, UInt8.lt_iff_toNat_lt, UInt8.le_iff_toNat_le, ← UInt8.toNat_inj] at h
  obtain ⟨⟨⟨⟨⟨h₁, h₂⟩, -⟩, hed⟩, hf0⟩, -⟩ := h
  exact ⟨h₁, h₂, fun he => hed.resolve_left fun hne => hne he,
    fun he => hf0.resolve_left fun hne => hne he⟩

theorem begun_of_more {pending pending' : Bytes} {b : UInt8} (h : Begun pending)
    (hstep : utf8Step pending b = .more pending') : Begun pending' := by
  cases pending with
  | nil =>
    unfold utf8Step at hstep
    dsimp only at hstep
    split at hstep
    · cases hstep
    · cases hstep
    · next hzero hone =>
      rw [Utf8Step.more.injEq] at hstep
      subst hstep
      have hlen := sequenceLength_toNat b
      refine ⟨?_, ?_, ?_⟩
      · by_cases hlow : b.toNat < 0x80
        · rw [if_pos hlow] at hlen
          exact absurd hlen hone
        · rw [UInt8.le_iff_toNat_le]
          show 0x80 ≤ b.toNat
          omega
      · show 1 < sequenceLength b
        have hzero' : sequenceLength b ≠ 0 := hzero
        have hone' : sequenceLength b ≠ 1 := hone
        omega
      · intro c hc
        cases hc
  | cons first tail =>
    obtain ⟨hfirst, hlen, hsecond⟩ := h
    unfold utf8Step at hstep
    dsimp only at hstep
    by_cases hok : (if tail = [] then isSecond first b else isTail b) = true
    · rw [if_pos hok] at hstep
      by_cases hlast : tail.length + 2 = sequenceLength first
      · rw [if_pos hlast] at hstep
        cases hstep
      · rw [if_neg hlast, Utf8Step.more.injEq] at hstep
        subst hstep
        refine ⟨hfirst, ?_, ?_⟩
        · rw [List.length_append, List.length_singleton]
          omega
        · intro c hc
          cases tail with
          | nil =>
            rw [if_pos rfl] at hok
            rw [List.nil_append, List.head?_cons, Option.some.injEq] at hc
            exact hc ▸ hok
          | cons t tail => exact hsecond c hc
    · rw [if_neg hok] at hstep
      cases hstep

theorem not_surrogate_of_done {pending : Bytes} {b : UInt8} {code : Nat} (h : Begun pending)
    (hstep : utf8Step pending b = .done code) : isSurrogate code = false := by
  have hfalse : ¬ (0xD800 ≤ code ∧ code ≤ 0xDFFF) → isSurrogate code = false := by
    intro hnot
    simp only [isSurrogate, Bool.and_eq_false_iff, decide_eq_false_iff_not]
    omega
  apply hfalse
  cases pending with
  | nil =>
    unfold utf8Step at hstep
    dsimp only at hstep
    split at hstep
    · cases hstep
    · next hone =>
      rw [Utf8Step.done.injEq] at hstep
      have hb := UInt8.toNat_lt b
      omega
    · cases hstep
  | cons first tail =>
    obtain ⟨hfirst, hlen, hsecond⟩ := h
    have hfirstNat : 0x80 ≤ first.toNat := UInt8.le_iff_toNat_le.mp hfirst
    unfold utf8Step at hstep
    dsimp only at hstep
    by_cases hok : (if tail = [] then isSecond first b else isTail b) = true
    · rw [if_pos hok] at hstep
      by_cases hlast : tail.length + 2 = sequenceLength first
      · rw [if_pos hlast, Utf8Step.done.injEq] at hstep
        rw [sequenceLength_toNat] at hlast
        match tail, hlast, hsecond, hok, hstep with
        | [], hlast, _, _, hstep =>
          simp only [codePoint, List.nil_append, List.length_singleton, List.foldl_cons,
            List.foldl_nil] at hstep
          omega
        | [b₁], hlast, hsecond, _, hstep =>
          obtain ⟨h₁, h₂, hed, -⟩ := isSecond_toNat (hsecond b₁ rfl)
          simp only [codePoint, List.singleton_append, List.length_cons, List.length_nil,
            List.foldl_cons, List.foldl_nil] at hstep hlast
          split_ifs at hlast
          all_goals omega
        | [b₁, b₂], hlast, hsecond, _, hstep =>
          obtain ⟨h₁, h₂, -, hf0⟩ := isSecond_toNat (hsecond b₁ rfl)
          simp only [codePoint, List.cons_append, List.nil_append, List.length_cons,
            List.length_nil, List.foldl_cons, List.foldl_nil] at hstep hlast
          split_ifs at hlast
          all_goals omega
        | _ :: _ :: _ :: tail, hlast, _, _, _ =>
          simp only [List.length_cons] at hlast
          split_ifs at hlast
          all_goals omega
      · rw [if_neg hlast] at hstep
        cases hstep
    · rw [if_neg hok] at hstep
      cases hstep

theorem decodeReplaceFrom_encodes {pending : Bytes} (h : Begun pending) (data : Bytes) :
    ∀ c ∈ decodeReplaceFrom pending data, isSurrogate c = false := by
  induction data generalizing pending with
  | nil =>
    rw [decodeReplaceFrom]
    split
    · simp
    · simp only [List.mem_singleton, forall_eq]
      decide
  | cons b bs ih =>
    have hreplace : isSurrogate replacement = false := by decide
    have hnil : Begun [] := trivial
    rw [decodeReplaceFrom]
    split
    · next pending' hstep => exact ih (begun_of_more h hstep)
    · next code hstep =>
      rw [List.forall_mem_cons]
      exact ⟨not_surrogate_of_done h hstep, ih hnil⟩
    · split
      · rw [List.forall_mem_cons]
        exact ⟨hreplace, ih hnil⟩
      · split
        · next pending' hstep =>
          rw [List.forall_mem_cons]
          exact ⟨hreplace, ih (begun_of_more hnil hstep)⟩
        · next code hstep =>
          rw [List.forall_mem_cons, List.forall_mem_cons]
          exact ⟨hreplace, not_surrogate_of_done hnil hstep, ih hnil⟩
        · rw [List.forall_mem_cons, List.forall_mem_cons]
          exact ⟨hreplace, hreplace, ih hnil⟩

theorem decodeReplace_encodes (data : Bytes) :
    ∀ c ∈ decodeReplace data, isSurrogate c = false :=
  decodeReplaceFrom_encodes (show Begun [] from trivial) data

/-- A character cut short and a byte that begins none. -/
example : decodeReplace [0xe4, 0xbd, 0x61, 0xff] = [0xFFFD, 0x61, 0xFFFD] := by decide

end Text
end FlashNext
