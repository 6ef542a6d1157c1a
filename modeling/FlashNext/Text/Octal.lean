import Mathlib.Data.List.Basic

/-!
# Octal escapes

Special characters of a text are written as a backslash and three octal digits.  In a text that is
well escaped every backslash begins the escape of a special character; what is read back from it
holds nothing but its own characters and special ones.
-/

namespace FlashNext
namespace Text

variable {special : Nat → Bool} {s t : List Nat} {c : Nat}

def octal (c : Nat) : List Nat := [48 + c / 64, 48 + c / 8 % 8, 48 + c % 8]

def isOctal (c : Nat) : Bool := 48 ≤ c && c ≤ 55

/-- The character, or its escape. -/
def escapePoint (special : Nat → Bool) (c : Nat) : List Nat :=
  if special c then 92 :: octal c else [c]

def escape (special : Nat → Bool) (s : List Nat) : List Nat := s.flatMap (escapePoint special)

/-- Every backslash that three octal digits follow is read with them as one character. -/
def unescape : List Nat → List Nat
  | 92 :: x :: y :: z :: s =>
    if isOctal x && isOctal y && isOctal z then
      (64 * (x - 48) + 8 * (y - 48) + (z - 48)) :: unescape s
    else 92 :: unescape (x :: y :: z :: s)
  | c :: s => c :: unescape s
  | [] => []

/-- The special characters are those that may not stand for themselves; the backslash is one. -/
structure Escapes (special : Nat → Bool) : Prop where
  backslash : special 92 = true
  small : ∀ c, special c = true → c < 512

theorem isOctal_of_mem_octal {d : Nat} (hd : d < 512) (h : c ∈ octal d) : isOctal c = true := by
  rw [isOctal, Bool.and_eq_true, decide_eq_true_eq, decide_eq_true_eq]
  simp only [octal, List.mem_cons, List.not_mem_nil, or_false] at h
  omega

theorem unescape_octal {d : Nat} (hd : d < 512) : unescape (92 :: (octal d ++ s)) = d :: unescape s := by
  have hdigits : ∀ x ∈ octal d, isOctal x = true := fun x hx => isOctal_of_mem_octal hd hx
  simp only [octal, List.forall_mem_cons] at hdigits
  obtain ⟨hx, hy, hz, -⟩ := hdigits
  show unescape (92 :: (48 + d / 64) :: (48 + d / 8 % 8) :: (48 + d % 8) :: s) = _
  rw [unescape, hx, hy, hz]
  simp only [Bool.and_self, if_true]
  congr 1
  omega

theorem unescape_cons (hc : c ≠ 92) : unescape (c :: s) = c :: unescape s := by
  rw [unescape]
  intro x y z rest heq
  exact absurd heq hc

theorem escape_cons : escape special (c :: s) = escapePoint special c ++ escape special s := rfl

theorem unescape_escape (h : Escapes special) (s : List Nat) :
    unescape (escape special s) = s := by
  induction s with
  | nil => rfl
  | cons c s ih =>
    rw [escape_cons, escapePoint]
    by_cases hc : special c = true
    · rw [if_pos hc, List.cons_append, unescape_octal (h.small c hc), ih]
    · have hne : c ≠ 92 := by
        rintro rfl
        exact hc h.backslash
      rw [if_neg hc, List.singleton_append, unescape_cons hne, ih]

theorem escape_eq_self (h : ∀ c ∈ s, special c = false) : escape special s = s := by
  induction s with
  | nil => rfl
  | cons c s ih =>
    obtain ⟨hc, hs⟩ := List.forall_mem_cons.mp h
    rw [escape_cons, escapePoint, hc, ih hs]
    rfl

theorem length_le_escape (s : List Nat) : s.length ≤ (escape special s).length := by
  induction s with
  | nil => exact Nat.le_refl 0
  | cons c s ih =>
    rw [escape_cons, escapePoint, List.length_append, List.length_cons]
    split
    · rw [List.length_cons]
      omega
    · rw [List.length_singleton]
      omega

/-- An escaped text is as it was only where nothing was special. -/
theorem escape_eq_self_iff : escape special s = s ↔ ∀ c ∈ s, special c = false := by
  refine ⟨fun h => ?_, escape_eq_self⟩
  induction s with
  | nil => exact fun c hc => absurd hc List.not_mem_nil
  | cons c s ih =>
    rw [escape_cons, escapePoint] at h
    by_cases hc : special c = true
    · rw [if_pos hc] at h
      have hlength := congrArg List.length h
      have hle : s.length ≤ (escape special s).length := length_le_escape s
      simp only [octal, List.cons_append, List.nil_append, List.length_cons] at hlength
      omega
    · rw [if_neg hc] at h
      exact List.forall_mem_cons.mpr
        ⟨Bool.eq_false_iff.mpr hc, ih (List.cons.inj h).2⟩

theorem mem_escape (h : Escapes special) {x : Nat} (hx : x ∈ escape special s) :
    x ∈ s ∧ special x = false ∨ x = 92 ∨ isOctal x = true := by
  obtain ⟨c, hc, hxc⟩ := List.mem_flatMap.mp hx
  unfold escapePoint at hxc
  split at hxc
  · next hspecial =>
    rcases List.mem_cons.mp hxc with hxc | hxc
    · exact .inr (.inl hxc)
    · exact .inr (.inr (isOctal_of_mem_octal (h.small c hspecial) hxc))
  · next hplain =>
    rw [List.mem_singleton.mp hxc]
    exact .inl ⟨hc, Bool.eq_false_iff.mpr hplain⟩

theorem escape_ne_nil (h : s ≠ []) : escape special s ≠ [] := by
  have hlength : s.length ≤ (escape special s).length := length_le_escape s
  have hpos := List.length_pos_iff.mpr h
  exact List.length_pos_iff.mp (Nat.lt_of_lt_of_le hpos hlength)

/-! ## Texts that are well escaped -/

def WellEscaped (special : Nat → Bool) : List Nat → Prop
  | [] => True
  | c :: s => (c = 92 → ∃ d, special d = true ∧ octal d <+: s) ∧ WellEscaped special s

theorem WellEscaped.right (h : WellEscaped special (s ++ t)) : WellEscaped special t := by
  induction s with
  | nil => exact h
  | cons c s ih => exact ih h.2

theorem WellEscaped.suffix (h : WellEscaped special t) (hs : s <:+ t) : WellEscaped special s := by
  obtain ⟨front, rfl⟩ := hs
  exact h.right

/-- A cut in front of a character that is no digit goes through no escape. -/
theorem WellEscaped.left (hspecial : Escapes special) (h : WellEscaped special (s ++ t))
    (hcut : ∀ c ∈ t.head?, isOctal c = false) : WellEscaped special s := by
  induction s with
  | nil => exact trivial
  | cons c s ih =>
    refine ⟨fun hc => ?_, ih h.2⟩
    obtain ⟨d, hd, hdigits⟩ := h.1 hc
    change octal d <+: s ++ t at hdigits
    refine ⟨d, hd, ?_⟩
    rcases List.prefix_or_prefix_of_prefix hdigits (List.prefix_append s t) with hstem | hstem
    · exact hstem
    · obtain ⟨rest, hrest⟩ := hstem
      cases rest with
      | nil =>
        rw [List.append_nil] at hrest
        exact hrest ▸ List.prefix_rfl
      | cons x rest =>
        -- The escape would reach over the cut.
        rw [← hrest, List.prefix_append_right_inj] at hdigits
        obtain ⟨tail, rfl⟩ := hdigits
        have hx : x ∈ octal d := by
          rw [← hrest]
          exact List.mem_append_right _ List.mem_cons_self
        have hdigit := isOctal_of_mem_octal (hspecial.small d hd) hx
        rw [hcut x rfl] at hdigit
        cases hdigit

theorem WellEscaped.append (hspecial : Escapes special) (s : List Nat)
    (ht : WellEscaped special t) : WellEscaped special (escape special s ++ t) := by
  induction s with
  | nil => exact ht
  | cons c s ih =>
    rw [escape_cons, escapePoint, List.append_assoc]
    by_cases hc : special c = true
    · rw [if_pos hc, List.cons_append]
      have hdigits : ∀ x ∈ octal c, x ≠ 92 := by
        rintro x hx rfl
        exact absurd (isOctal_of_mem_octal (hspecial.small c hc) hx) (by decide)
      simp only [octal, List.forall_mem_cons] at hdigits
      obtain ⟨hx, hy, hz, -⟩ := hdigits
      exact ⟨fun _ => ⟨c, hc, List.prefix_append _ _⟩, fun h => absurd h hx, fun h => absurd h hy,
        fun h => absurd h hz, ih⟩
    · rw [if_neg hc]
      refine ⟨fun h => ?_, ih⟩
      rw [h] at hc
      exact absurd hspecial.backslash hc

theorem WellEscaped.cons (hc : c ≠ 92) (h : WellEscaped special s) : WellEscaped special (c :: s) :=
  ⟨fun heq => absurd heq hc, h⟩

/-- What is read back is a character of the text or a special one. -/
theorem mem_unescape (hspecial : Escapes special) (h : WellEscaped special s)
    (hc : c ∈ unescape s) : c ∈ s ∨ special c = true := by
  fun_induction unescape s with
  | case1 x y z s hdigits ih =>
    obtain ⟨d, hd, hstem⟩ := h.1 rfl
    rcases List.mem_cons.mp hc with rfl | hc
    · refine .inr ?_
      obtain ⟨tail, htail⟩ := hstem
      simp only [octal, List.cons_append, List.nil_append, List.cons.injEq] at htail
      obtain ⟨rfl, rfl, rfl, -⟩ := htail
      have hsmall := hspecial.small d hd
      have hvalue : 64 * (48 + d / 64 - 48) + 8 * (48 + d / 8 % 8 - 48) + (48 + d % 8 - 48) = d := by
        omega
      rw [hvalue]
      exact hd
    · have hrest : WellEscaped special s := h.right (s := [92, x, y, z])
      rcases ih hrest hc with hmem | hmem
      · refine .inl ?_
        exact List.mem_append_right [92, x, y, z] hmem
      · exact .inr hmem
  | case2 x y z s hdigits ih =>
    rcases List.mem_cons.mp hc with rfl | hc
    · exact .inl List.mem_cons_self
    · exact (ih h.2 hc).imp_left (List.mem_cons_of_mem _)
  | case3 x s hother ih =>
    rcases List.mem_cons.mp hc with rfl | hc
    · exact .inl List.mem_cons_self
    · exact (ih h.2 hc).imp_left (List.mem_cons_of_mem _)
  | case4 => exact absurd hc List.not_mem_nil

theorem unescape_ne_nil (h : s ≠ []) : unescape s ≠ [] := by
  fun_cases unescape s with
  | case1 => exact List.cons_ne_nil _ _
  | case2 => exact List.cons_ne_nil _ _
  | case3 => exact List.cons_ne_nil _ _
  | case4 => exact absurd rfl h

end Text
end FlashNext
