import FlashNext.Py.Dump
import FlashNext.Py.Load

/-!
# Writing a document and reading it back

`json.dumps` with ASCII escapes, in any layout.  A value whose strings need no escapes, whose floats
are fractions that read back and whose objects have no key twice is read back as it is
(`loads_write`), whatever the layout.  The text of a float comes from the interpreter.
-/

namespace FlashNext
namespace Py

/-! ## The writer -/

/-- What stands between two items and between a key and its value, and by how many blanks a level
is indented. -/
structure Style where
  comma : Str
  colon : Str
  indent : Option Nat

namespace Style

/-- The layout of `json.dumps(value)`. -/
def plain : Style := ⟨str ", ", str ": ", none⟩

/-- `separators=(",", ":")`. -/
def compact : Style := ⟨str ",", str ":", none⟩

/-- `indent=n`. -/
def indented (n : Nat) : Style := ⟨str ",", str ": ", some n⟩

def newline (st : Style) (level : Nat) : Str :=
  match st.indent with
  | none => []
  | some n => 10 :: List.replicate (n * level) 32

end Style

/-- Four hexadecimal digits. -/
def hex4 (n : Nat) : Str :=
  [hexDigit (n / 4096 % 16), hexDigit (n / 256 % 16), hexDigit (n / 16 % 16), hexDigit (n % 16)]

/-- One character of a literal that is all ASCII. -/
def escapeAscii (c : Nat) : Str :=
  if c = 34 then [92, 34]
  else if c = 92 then [92, 92]
  else if c = 10 then [92, 110]
  else if c = 13 then [92, 114]
  else if c = 9 then [92, 116]
  else if c = 8 then [92, 98]
  else if c = 12 then [92, 102]
  else if 32 ≤ c ∧ c ≤ 126 then [c]
  else if c < 0x10000 then 92 :: 117 :: hex4 c
  else 92 :: 117 :: (hex4 (0xD800 + (c - 0x10000) / 1024) ++
    92 :: 117 :: hex4 (0xDC00 + (c - 0x10000) % 1024))

def writeStr (s : Str) : Str := 34 :: (s.flatMap escapeAscii ++ [34])

section

variable (text : ℚ → Str) (st : Style)

mutual
/-- `json.dumps`, from a level on. -/
def write (level : Nat) : Value → Str
  | .none => str "null"
  | .bool true => str "true"
  | .bool false => str "false"
  | .int n => dumpInt n
  | .float q => text q
  | .nonfinite .nan => str "NaN"
  | .nonfinite .inf => str "Infinity"
  | .nonfinite .negInf => str "-Infinity"
  | .str s => writeStr s
  | .list [] => [91, 93]
  | .list (x :: xs) =>
    91 :: (st.newline (level + 1) ++ write (level + 1) x ++ writeItems (level + 1) xs ++
      st.newline level ++ [93])
  | .dict [] => [123, 125]
  | .dict ((key, x) :: fs) =>
    123 :: (st.newline (level + 1) ++ writeStr key ++ st.colon ++ write (level + 1) x ++
      writeFields (level + 1) fs ++ st.newline level ++ [125])

/-- The items after the first. -/
def writeItems (level : Nat) : List Value → Str
  | [] => []
  | x :: xs => st.comma ++ st.newline level ++ write level x ++ writeItems level xs

/-- The fields after the first. -/
def writeFields (level : Nat) : List (Str × Value) → Str
  | [] => []
  | (key, x) :: fs =>
    st.comma ++ st.newline level ++ writeStr key ++ st.colon ++ write level x ++
      writeFields level fs
end

end

/-! ## Blanks -/

theorem skipBlank_append {blanks s : Str} (h : ∀ c ∈ blanks, isBlank c = true) :
    skipBlank (blanks ++ s) = skipBlank s := by
  induction blanks with
  | nil => rfl
  | cons c blanks ih =>
    have hc : isBlank c = true := h c (by simp)
    rw [List.cons_append, skipBlank, List.dropWhile_cons_of_pos hc]
    exact ih fun d hd => h d (by simp [hd])

theorem skipBlank_cons {c : Nat} {s : Str} (h : isBlank c = false) : skipBlank (c :: s) = c :: s := by
  rw [skipBlank, List.dropWhile_cons_of_neg (by simp [h])]

theorem newline_blank {st : Style} {level : Nat} : ∀ c ∈ st.newline level, isBlank c = true := by
  intro c hc
  unfold Style.newline at hc
  split at hc
  · simp at hc
  · simp only [List.mem_cons, List.mem_replicate] at hc
    cases hc with
    | inl hc => rw [hc]; rfl
    | inr hc => rw [hc.2]; rfl

/-- The marks are followed by blanks alone. -/
structure Style.Spaced (st : Style) : Prop where
  comma : ∃ blanks, st.comma = 44 :: blanks ∧ ∀ c ∈ blanks, isBlank c = true
  colon : ∃ blanks, st.colon = 58 :: blanks ∧ ∀ c ∈ blanks, isBlank c = true

theorem Style.plain_spaced : Style.plain.Spaced :=
  ⟨⟨[32], by decide, by decide⟩, ⟨[32], by decide, by decide⟩⟩

theorem Style.compact_spaced : Style.compact.Spaced :=
  ⟨⟨[], by decide, by decide⟩, ⟨[], by decide, by decide⟩⟩

theorem Style.indented_spaced (n : Nat) : (Style.indented n).Spaced :=
  ⟨⟨[], rfl, by decide⟩, ⟨[32], rfl, by decide⟩⟩

/-! ## Strings -/

/-- The literal of the string has no escapes. -/
def Unescaped (s : Str) : Prop := ∀ c ∈ s, 32 ≤ c ∧ c ≤ 126 ∧ c ≠ 34 ∧ c ≠ 92

theorem scanPoints_unescaped {s rest : Str} (h : Unescaped s) :
    scanPoints (s ++ 34 :: rest) = .ok (s.map fun c => (c, false), rest) := by
  induction s with
  | nil => rfl
  | cons c s ih =>
    obtain ⟨hlow, _, hquote, hslash⟩ := h c (by simp)
    have hrest : Unescaped s := fun d hd => h d (by simp [hd])
    have hstep : scanPoints (c :: (s ++ 34 :: rest)) =
        consPoint (c, false) (scanPoints (s ++ 34 :: rest)) := by
      have hnot : ¬ c < 32 := by omega
      rw [scanPoints.eq_def]
      split <;> simp_all
    rw [List.cons_append, hstep, ih hrest]
    rfl

theorem joinPoints_unmarked (s : Str) : joinPoints (s.map fun c => (c, false)) = s := by
  induction s with
  | nil => rfl
  | cons c s ih =>
    rw [List.map_cons, joinPoints, ih]
    simp

theorem escapeAscii_unescaped {c : Nat} (h : 32 ≤ c ∧ c ≤ 126 ∧ c ≠ 34 ∧ c ≠ 92) :
    escapeAscii c = [c] := by
  unfold escapeAscii
  split_ifs
  all_goals first
    | rfl
    | omega

theorem writeStr_unescaped {s : Str} (h : Unescaped s) : writeStr s = 34 :: (s ++ [34]) := by
  have hbody : s.flatMap escapeAscii = s := by
    induction s with
    | nil => rfl
    | cons c s ih =>
      rw [List.flatMap_cons, escapeAscii_unescaped (h c (by simp)),
        ih fun d hd => h d (by simp [hd])]
      rfl
  rw [writeStr, hbody]

/-- The literal of a string without escapes is read back. -/
theorem scanStr_unescaped {s rest : Str} (h : Unescaped s) :
    scanStr (s ++ 34 :: rest) = .ok (s, rest) := by
  rw [scanStr, scanPoints_unescaped h]
  show Except.ok (joinPoints _, rest) = _
  rw [joinPoints_unmarked]

/-! ## Numbers -/

/-- The text does not go on with a number. -/
def Stops (s : Str) : Prop :=
  ∀ c, s.head? = some c → isDigit c = false ∧ c ≠ 46 ∧ c ≠ 101 ∧ c ≠ 69

theorem scanDigits_append {ds s : Str} (hds : ∀ c ∈ ds, isDigit c = true)
    (hs : ∀ c, s.head? = some c → isDigit c = false) : scanDigits (ds ++ s) = (ds, s) := by
  unfold scanDigits
  have hstop : s.takeWhile isDigit = [] ∧ s.dropWhile isDigit = s := by
    cases s with
    | nil => exact ⟨rfl, rfl⟩
    | cons c s =>
      have hc : isDigit c = false := hs c rfl
      simp [hc]
  rw [List.takeWhile_append_of_pos hds, List.dropWhile_append_of_pos hds, hstop.1, hstop.2,
    List.append_nil]

theorem scanFrac_stops {s : Str} (h : Stops s) : scanFrac s = ([], s) := by
  cases s with
  | nil => rfl
  | cons c s =>
    have hpoint := (h c rfl).2.1
    unfold scanFrac
    split <;> simp_all

theorem scanExp_stops {s : Str} (h : Stops s) : scanExp s = ([], s) := by
  cases s with
  | nil => rfl
  | cons c s =>
    obtain ⟨_, _, hsmall, hlarge⟩ := h c rfl
    unfold scanExp
    simp [hsmall, hlarge]

/-- The decimal digits of a number. -/
def digitsOf (n : Nat) : Str := (Nat.toDigits 10 n).map Char.toNat

theorem isDigit_digitsOf {n c : Nat} (h : c ∈ digitsOf n) : isDigit c = true := by
  obtain ⟨d, hd, rfl⟩ := List.mem_map.mp h
  have hdigit : d.isDigit = true := Nat.isDigit_of_mem_toDigits (by decide) (by decide) hd
  simp only [Char.isDigit, Bool.and_eq_true, decide_eq_true_eq] at hdigit
  have hlow : 48 ≤ d.toNat := UInt32.le_iff_toNat_le.mp hdigit.1
  have hhigh : d.toNat ≤ 57 := UInt32.le_iff_toNat_le.mp hdigit.2
  simp only [isDigit, Bool.and_eq_true, decide_eq_true_eq]
  exact ⟨hlow, hhigh⟩

theorem ofDigits_digitsOf (n : Nat) : ofDigits (digitsOf n) = n := by
  have hchars : ofDigits (digitsOf n) = Nat.ofDigitChars 10 (Nat.toDigits 10 n) 0 := by
    rw [Nat.ofDigitChars_eq_foldl, ofDigits, digitsOf, List.foldl_map]
    congr 1
    funext m c
    rw [Nat.mul_comm]
    rfl
  rw [hchars, Nat.ofDigitChars_ten_toDigits]

/-- Only zero starts with a zero. -/
theorem head_digitsOf {n : Nat} (hn : 0 < n) : ∃ c cs, digitsOf n = c :: cs ∧ c ≠ 48 := by
  induction n using Nat.strongRecOn with
  | ind n ih =>
    by_cases hsmall : n < 10
    · refine ⟨(Nat.digitChar n).toNat, [], ?_, ?_⟩
      · rw [digitsOf, Nat.toDigits_of_lt_base hsmall]
        rfl
      · have hall : ∀ m < 10, 0 < m → (Nat.digitChar m).toNat ≠ 48 := by decide
        exact hall n hsmall hn
    · obtain ⟨c, cs, hc, hne⟩ := ih (n / 10) (by omega) (by omega)
      refine ⟨c, cs ++ [(Nat.digitChar (n % 10)).toNat], ?_, hne⟩
      rw [digitsOf, Nat.toDigits_of_base_le (by decide) (by omega), List.map_append]
      rw [digitsOf] at hc
      rw [hc]
      rfl

theorem scanWhole_digitsOf (n : Nat) {s : Str} (hs : Stops s) :
    scanWhole (digitsOf n ++ s) = (digitsOf n, s) := by
  by_cases hn : n = 0
  · subst hn
    rfl
  · obtain ⟨c, cs, hc, hne⟩ := head_digitsOf (show 0 < n by omega)
    have hscan : scanDigits (digitsOf n ++ s) = (digitsOf n, s) :=
      scanDigits_append (fun d hd => isDigit_digitsOf hd) fun d hd => (hs d hd).1
    have hwhole : scanWhole (digitsOf n ++ s) = scanDigits (digitsOf n ++ s) := by
      rw [hc, List.cons_append]
      unfold scanWhole
      split <;> simp_all
    rw [hwhole, hscan]

theorem dumpInt_eq (n : Int) :
    dumpInt n = (if n < 0 then [45] else []) ++ digitsOf n.natAbs := by
  have hnat : ∀ m : Nat, str (toString m) = digitsOf m := by
    intro m
    rw [str, Nat.toString_eq_ofList_toDigits, String.toList_ofList, digitsOf]
  cases n with
  | ofNat m =>
    have hpos : ¬ Int.ofNat m < 0 := by simp
    rw [if_neg hpos]
    exact hnat m
  | negSucc m =>
    have hneg : Int.negSucc m < 0 := Int.negSucc_lt_zero m
    rw [if_pos hneg, Int.natAbs_negSucc, ← hnat]
    show str ("-" ++ toString (m + 1)) = _
    rw [str, String.toList_append, List.map_append]
    rfl

/-- A fraction of one, as `repr` writes it without an exponent. -/
def FractionText (s : Str) : Prop :=
  ∃ ds, s = 48 :: 46 :: ds ∧ ds ≠ [] ∧ ∀ c ∈ ds, isDigit c = true

section

variable {read : Str → Option ℚ}

theorem fits_length {n : Int} (h : fits n = true) : (digitsOf n.natAbs).length ≤ 4300 := by
  have hlimit : 0 < 4300 := by decide
  unfold fits at h
  generalize 4300 = limit at h hlimit ⊢
  rw [decide_eq_true_eq] at h
  rw [digitsOf, List.length_map]
  exact (Nat.length_toDigits_le_iff (by decide) hlimit).mpr h

theorem scanUnsigned_int {n : Int} (h : fits n = true) {s : Str} (hs : Stops s) :
    scanUnsigned read (decide (n < 0)) (digitsOf n.natAbs ++ s) = .ok (.int n, s) := by
  have hlength := fits_length h
  have hne : digitsOf n.natAbs ≠ [] := by
    rw [digitsOf, ne_eq, List.map_eq_nil_iff]
    exact Nat.toDigits_ne_nil
  have hvalue : (if decide (n < 0) = true then -((ofDigits (digitsOf n.natAbs) : Nat) : Int)
      else (ofDigits (digitsOf n.natAbs) : Nat)) = n := by
    rw [ofDigits_digitsOf]
    by_cases hneg : n < 0
    · rw [if_pos (by simpa using hneg)]
      omega
    · rw [if_neg (by simpa using hneg)]
      omega
  unfold scanUnsigned
  simp only [scanWhole_digitsOf n.natAbs hs, scanFrac_stops hs, scanExp_stops hs]
  rw [if_neg hne, if_pos (by simp), if_neg (by omega), hvalue]

theorem scanNumber_int {n : Int} (h : fits n = true) {s : Str} (hs : Stops s) :
    scanNumber read (dumpInt n ++ s) = .ok (.int n, s) := by
  have hscan : scanUnsigned read (decide (n < 0)) (digitsOf n.natAbs ++ s) = .ok (.int n, s) :=
    scanUnsigned_int h hs
  rw [dumpInt_eq]
  by_cases hneg : n < 0
  · rw [if_pos hneg]
    simp only [hneg, decide_true] at hscan
    exact hscan
  · rw [if_neg hneg, List.nil_append]
    simp only [hneg, decide_false] at hscan
    have hfirst : scanNumber read (digitsOf n.natAbs ++ s) =
        scanUnsigned read false (digitsOf n.natAbs ++ s) := by
      unfold scanNumber
      split
      · next r hr =>
        -- no digit is a sign
        have hsign : 45 ∈ digitsOf n.natAbs := by
          cases hds : digitsOf n.natAbs with
          | nil =>
            rw [digitsOf, List.map_eq_nil_iff] at hds
            exact absurd hds Nat.toDigits_ne_nil
          | cons c cs =>
            rw [hds] at hr
            obtain ⟨rfl, _⟩ := List.cons.inj hr
            simp
        exact absurd (isDigit_digitsOf hsign) (by decide)
      · rfl
    rw [hfirst, hscan]

theorem scanNumber_fraction {f : Str} (h : FractionText f) {s : Str} (hs : Stops s) :
    scanNumber read (f ++ s) = .ok (floatOf read false f, s) := by
  obtain ⟨ds, rfl, hne, hds⟩ := h
  have hdigits : scanDigits (ds ++ s) = (ds, s) := scanDigits_append hds fun c hc => (hs c hc).1
  have hfrac : scanFrac (46 :: (ds ++ s)) = (46 :: ds, s) := by
    rw [scanFrac, hdigits, if_neg hne]
  show scanUnsigned read false (48 :: 46 :: (ds ++ s)) = _
  unfold scanUnsigned
  simp only [scanWhole, hfrac, scanExp_stops hs]
  rw [if_neg (by simp), if_neg (by simp)]
  simp

end

/-! ## Values -/

section

variable (read : Str → Option ℚ) (text : ℚ → Str)

mutual
/-- What is read back as it was written. -/
def Loadable : Value → Prop
  | .int n => fits n = true
  | .float q => FractionText (text q) ∧ read (text q) = some q
  | .nonfinite _ => False
  | .str s => Unescaped s
  | .list xs => LoadableItems xs
  | .dict fs => (fs.map (·.1)).Nodup ∧ LoadableFields fs
  | _ => True

def LoadableItems : List Value → Prop
  | [] => True
  | x :: xs => Loadable x ∧ LoadableItems xs

def LoadableFields : List (Str × Value) → Prop
  | [] => True
  | (key, x) :: fs => Unescaped key ∧ Loadable x ∧ LoadableFields fs
end

end

section

variable {read : Str → Option ℚ} {text : ℚ → Str} {st : Style}

theorem isBlank_of_isDigit {c : Nat} (h : isDigit c = true) :
    isBlank c = false ∧ c ≠ 93 ∧ c ≠ 125 ∧ c ≠ 34 := by
  simp only [isDigit, Bool.and_eq_true, decide_eq_true_eq] at h
  have hblank : isBlank c = false := by
    simp [isBlank]
    omega
  exact ⟨hblank, by omega, by omega, by omega⟩

/-- The first character of a number. -/
theorem head_dumpInt (n : Int) : ∃ c cs, dumpInt n = c :: cs ∧ (c = 45 ∨ isDigit c = true) := by
  rw [dumpInt_eq]
  by_cases hneg : n < 0
  · rw [if_pos hneg]
    exact ⟨45, _, rfl, Or.inl rfl⟩
  · rw [if_neg hneg, List.nil_append]
    cases hds : digitsOf n.natAbs with
    | nil =>
      rw [digitsOf, List.map_eq_nil_iff] at hds
      exact absurd hds Nat.toDigits_ne_nil
    | cons c cs =>
      refine ⟨c, cs, rfl, Or.inr ?_⟩
      have hmem : c ∈ digitsOf n.natAbs := by simp [hds]
      exact isDigit_digitsOf hmem

/-- A value starts with a character that is neither a blank nor a closing mark. -/
theorem write_head (st : Style) {v : Value} (h : Loadable read text v) (level : Nat) :
    ∃ c cs, write text st level v = c :: cs ∧ isBlank c = false ∧ c ≠ 93 ∧ c ≠ 125 := by
  cases v with
  | none => exact ⟨110, _, rfl, by decide⟩
  | bool b => cases b <;> exact ⟨_, _, rfl, by decide⟩
  | int n =>
    obtain ⟨c, cs, hc, hfirst⟩ := head_dumpInt n
    refine ⟨c, cs, hc, ?_⟩
    cases hfirst with
    | inl hfirst => rw [hfirst]; decide
    | inr hfirst =>
      have hc := isBlank_of_isDigit hfirst
      exact ⟨hc.1, hc.2.1, hc.2.2.1⟩
  | float q =>
    obtain ⟨⟨ds, hds, _⟩, _⟩ := h
    exact ⟨48, 46 :: ds, hds, by decide⟩
  | nonfinite x => exact absurd h id
  | str s => exact ⟨34, _, rfl, by decide⟩
  | list xs => cases xs <;> exact ⟨91, _, rfl, by decide⟩
  | dict fs => cases fs <;> exact ⟨123, _, rfl, by decide⟩

/-- A number ends before a blank, a comma and a closing mark. -/
theorem stops_cons {c : Nat} {s : Str} (h : isBlank c = true ∨ c = 44 ∨ c = 93 ∨ c = 125) :
    Stops (c :: s) := by
  intro d hd
  obtain rfl : c = d := by simpa using hd
  simp only [isBlank, Bool.or_eq_true, beq_iff_eq] at h
  have hdigit : isDigit c = false := by
    simp [isDigit]
    omega
  exact ⟨hdigit, by omega, by omega, by omega⟩

theorem stops_blank {blanks s : Str} (hblanks : ∀ c ∈ blanks, isBlank c = true) (hs : Stops s) :
    Stops (blanks ++ s) := by
  cases blanks with
  | nil => exact hs
  | cons c blanks => exact stops_cons (Or.inl (hblanks c (by simp)))

theorem stops_items (hst : st.Spaced) (level : Nat) (xs : List Value) {s : Str} (hs : Stops s) :
    Stops (writeItems text st level xs ++ s) := by
  cases xs with
  | nil => exact hs
  | cons x xs =>
    obtain ⟨blanks, hcomma, _⟩ := hst.comma
    rw [writeItems, hcomma]
    exact stops_cons (Or.inr (Or.inl rfl))

theorem stops_fields (hst : st.Spaced) (level : Nat) (fs : List (Str × Value)) {s : Str}
    (hs : Stops s) : Stops (writeFields text st level fs ++ s) := by
  cases fs with
  | nil => exact hs
  | cons f fs =>
    obtain ⟨key, x⟩ := f
    obtain ⟨blanks, hcomma, _⟩ := hst.comma
    rw [writeFields, hcomma]
    exact stops_cons (Or.inr (Or.inl rfl))

theorem constants_eq : constants = [[78, 97, 78], [73, 110, 102, 105, 110, 105, 116, 121],
    [45, 73, 110, 102, 105, 110, 105, 116, 121]] := by
  decide

/-- A number is scanned as one: none of the other values starts as it does. -/
theorem scanValue_number {c : Nat} {cs : Str} (fuel : Nat) (hc : c = 45 ∨ isDigit c = true)
    (hsecond : c = 45 → ∃ d ds, cs = d :: ds ∧ isDigit d = true) :
    scanValue read (fuel + 1) (c :: cs) = scanNumber read (c :: cs) := by
  have hrange : c = 45 ∨ 48 ≤ c ∧ c ≤ 57 := by simpa [isDigit] using hc
  have hnone : constants.find? (fun name => name.isPrefixOf (c :: cs)) = none := by
    have hnan : (78 == c) = false := beq_eq_false_iff_ne.mpr (by omega)
    have hinf : (73 == c) = false := beq_eq_false_iff_ne.mpr (by omega)
    have hneg : ((45 == c) && List.isPrefixOf [73, 110, 102, 105, 110, 105, 116, 121] cs) =
        false := by
      by_cases hminus : c = 45
      · obtain ⟨d, ds, rfl, hd⟩ := hsecond hminus
        have hne : (73 == d) = false := by
          rw [beq_eq_false_iff_ne]
          intro heq
          rw [← heq] at hd
          exact absurd hd (by decide)
        rw [List.isPrefixOf, hne, Bool.false_and, Bool.and_false]
      · have hne : (45 == c) = false := beq_eq_false_iff_ne.mpr fun heq => hminus heq.symm
        rw [hne, Bool.false_and]
    rw [constants_eq]
    simp only [List.find?_cons, List.isPrefixOf, hnan, hinf, Bool.false_and, List.find?_nil]
    rw [hneg]
  rw [scanValue.eq_def]
  dsimp only
  split
  all_goals first
    | (rename_i heq; obtain ⟨rfl, _⟩ := List.cons.inj heq; omega)
    | rw [hnone]

theorem scanValue_int {n : Int} (h : fits n = true) (fuel : Nat) {s : Str} (hs : Stops s) :
    scanValue read (fuel + 1) (dumpInt n ++ s) = .ok (.int n, s) := by
  have hscan : scanNumber read (dumpInt n ++ s) = .ok (.int n, s) := scanNumber_int h hs
  obtain ⟨c, cs, hc, hfirst⟩ := head_dumpInt n
  rw [hc, List.cons_append] at hscan ⊢
  rw [scanValue_number fuel hfirst, hscan]
  intro hminus
  -- behind the sign there is a digit
  rw [dumpInt_eq] at hc
  by_cases hneg : n < 0
  · rw [if_pos hneg] at hc
    obtain ⟨_, hcs⟩ := List.cons.inj hc
    have hcs : digitsOf n.natAbs = cs := hcs
    cases hds : digitsOf n.natAbs with
    | nil =>
      rw [digitsOf, List.map_eq_nil_iff] at hds
      exact absurd hds Nat.toDigits_ne_nil
    | cons d ds =>
      have hmem : d ∈ digitsOf n.natAbs := by simp [hds]
      rw [hds] at hcs
      exact ⟨d, ds ++ s, by rw [← hcs]; rfl, isDigit_digitsOf hmem⟩
  · rw [if_neg hneg, List.nil_append] at hc
    have hmem : c ∈ digitsOf n.natAbs := by simp [hc]
    have hdigit := isDigit_digitsOf hmem
    rw [hminus] at hdigit
    exact absurd hdigit (by decide)

theorem scanValue_fraction {f : Str} (h : FractionText f) (fuel : Nat) {s : Str} (hs : Stops s) :
    scanValue read (fuel + 1) (f ++ s) = .ok (floatOf read false f, s) := by
  have hscan : scanNumber read (f ++ s) = .ok (floatOf read false f, s) :=
    scanNumber_fraction h hs
  obtain ⟨ds, rfl, _⟩ := h
  have hfirst : scanValue read (fuel + 1) (48 :: (46 :: ds ++ s)) =
      scanNumber read (48 :: (46 :: ds ++ s)) :=
    scanValue_number fuel (Or.inr rfl) fun h48 => absurd h48 (by decide)
  exact hfirst.trans hscan

theorem repeated?_eq_none {seen : List Str} {fs : List (Str × Value)}
    (h : (fs.map (·.1)).Nodup) (hseen : ∀ key ∈ fs.map (·.1), key ∉ seen) :
    repeated? seen fs = none := by
  induction fs generalizing seen with
  | nil => rfl
  | cons f fs ih =>
    obtain ⟨key, x⟩ := f
    rw [List.map_cons, List.nodup_cons] at h
    have hkey : key ∉ seen := hseen key (by simp)
    rw [repeated?, if_neg hkey]
    apply ih h.2
    intro other hother hmem
    cases List.mem_cons.mp hmem with
    | inl heq => exact h.1 (heq ▸ hother)
    | inr hmem => exact hseen other (List.mem_cons_of_mem _ hother) hmem

theorem objectPairs_nodup {fs : List (Str × Value)} (h : (fs.map (·.1)).Nodup) :
    objectPairs fs = .ok (.dict fs) := by
  rw [objectPairs, repeated?_eq_none h (by simp)]

mutual
/-- A value is read back from its text, up to what follows it. -/
theorem scanValue_write (hst : st.Spaced) : ∀ (v : Value) (level fuel : Nat) (r : Str),
    Loadable read text v → (write text st level v).length ≤ fuel → Stops r →
      scanValue read (fuel + 1) (write text st level v ++ r) = .ok (v, r)
  | .none, _, _, _, _, _, _ => rfl
  | .bool true, _, _, _, _, _, _ => rfl
  | .bool false, _, _, _, _, _, _ => rfl
  | .int n, level, fuel, r, h, _, hr => scanValue_int h fuel hr
  | .float q, level, fuel, r, h, _, hr => by
    have hscan : scanValue read (fuel + 1) (text q ++ r) = .ok (floatOf read false (text q), r) :=
      scanValue_fraction h.1 fuel hr
    rw [floatOf, h.2] at hscan
    exact hscan
  | .nonfinite _, _, _, _, h, _, _ => absurd h id
  | .str s, level, fuel, r, h, _, _ => by
    have htext : write text st level (.str s) ++ r = 34 :: (s ++ 34 :: r) := by
      rw [write, writeStr_unescaped h]
      simp
    rw [htext, scanValue]
    rw [scanStr_unescaped h]
    rfl
  | .list [], _, _, _, _, _, _ => rfl
  | .list (x :: xs), level, fuel, r, h, hfuel, _ => by
    obtain ⟨hx, hxs⟩ := h
    obtain ⟨c, cs, hc, hblank, hclose, _⟩ := write_head st hx (level + 1)
    have hitems := scanItems_write hst x xs (level + 1) (fuel - 1) (st.newline level) r hx hxs
      (by rw [write] at hfuel; simp at hfuel; omega) newline_blank
    have hpos : fuel - 1 + 1 = fuel := by rw [write] at hfuel; simp at hfuel; omega
    rw [hpos] at hitems
    have hskip : skipBlank (st.newline (level + 1) ++ (write text st (level + 1) x ++
        writeItems text st (level + 1) xs ++ st.newline level ++ 93 :: r)) =
        write text st (level + 1) x ++ writeItems text st (level + 1) xs ++ st.newline level ++
          93 :: r := by
      rw [skipBlank_append newline_blank, hc]
      exact skipBlank_cons hblank
    have htext : write text st level (.list (x :: xs)) ++ r =
        91 :: (st.newline (level + 1) ++ (write text st (level + 1) x ++
          writeItems text st (level + 1) xs ++ st.newline level ++ 93 :: r)) := by
      rw [write]
      simp
    rw [htext, scanValue]
    rw [hskip]
    rw [hc] at hitems ⊢
    simp only [List.cons_append] at hitems ⊢
    split
    · next heq =>
      obtain ⟨rfl, _⟩ := List.cons.inj heq
      exact absurd rfl hclose
    · rw [hitems]
      rfl
  | .dict [], _, _, _, _, _, _ => rfl
  | .dict ((key, x) :: fs), level, fuel, r, h, hfuel, _ => by
    obtain ⟨hnodup, hkey, hx, hfs⟩ := h
    have hfields := scanFields_write hst key x fs (level + 1) (fuel - 1) (st.newline level) r hkey
      hx hfs (by rw [write] at hfuel; simp at hfuel; omega) newline_blank
    have hpos : fuel - 1 + 1 = fuel := by rw [write] at hfuel; simp at hfuel; omega
    rw [hpos] at hfields
    have hskip : skipBlank (st.newline (level + 1) ++ (writeStr key ++ st.colon ++
        write text st (level + 1) x ++ writeFields text st (level + 1) fs ++ st.newline level ++
          125 :: r)) =
        writeStr key ++ st.colon ++ write text st (level + 1) x ++
          writeFields text st (level + 1) fs ++ st.newline level ++ 125 :: r := by
      rw [skipBlank_append newline_blank]
      exact skipBlank_cons rfl
    have htext : write text st level (.dict ((key, x) :: fs)) ++ r =
        123 :: (st.newline (level + 1) ++ (writeStr key ++ st.colon ++
          write text st (level + 1) x ++ writeFields text st (level + 1) fs ++ st.newline level ++
            125 :: r)) := by
      rw [write]
      simp
    rw [htext, scanValue]
    rw [hskip]
    have hopen : ∃ rest, writeStr key ++ st.colon ++ write text st (level + 1) x ++
        writeFields text st (level + 1) fs ++ st.newline level ++ 125 :: r = 34 :: rest :=
      ⟨_, rfl⟩
    obtain ⟨rest, hrest⟩ := hopen
    rw [hrest] at hfields ⊢
    simp only [hfields, objectPairs_nodup hnodup]
    rfl

termination_by v => sizeOf v

theorem scanItems_write (hst : st.Spaced) : ∀ (x : Value) (xs : List Value) (level fuel : Nat)
    (blanks r : Str), Loadable read text x → LoadableItems read text xs →
      (write text st level x).length + (writeItems text st level xs).length < fuel →
      (∀ c ∈ blanks, isBlank c = true) →
      scanItems read (fuel + 1) (write text st level x ++ writeItems text st level xs ++ blanks ++
        93 :: r) = .ok (x :: xs, r)
  | x, [], level, fuel, blanks, r, hx, _, hfuel, hblanks => by
    have hpos : fuel - 1 + 1 = fuel := by omega
    have hvalue := scanValue_write hst x level (fuel - 1) (blanks ++ 93 :: r) hx (by omega)
      (stops_blank hblanks (stops_cons (by simp)))
    rw [hpos] at hvalue
    have hclose : skipBlank (blanks ++ 93 :: r) = 93 :: r := by
      rw [skipBlank_append hblanks]
      exact skipBlank_cons rfl
    rw [scanItems, writeItems, List.append_nil, List.append_assoc, hvalue]
    simp only [hclose]
  | x, y :: xs, level, fuel, blanks, r, hx, hxs, hfuel, hblanks => by
    obtain ⟨hy, hxs⟩ := hxs
    obtain ⟨gap, hcomma, hgap⟩ := hst.comma
    obtain ⟨c, cs, hc, hblank, _⟩ := write_head st hy level
    have hpos : fuel - 1 + 1 = fuel := by omega
    rw [writeItems, hcomma] at hfuel
    simp only [List.length_append, List.length_cons] at hfuel
    have hvalue := scanValue_write hst x level (fuel - 1)
      (writeItems text st level (y :: xs) ++ (blanks ++ 93 :: r)) hx (by omega)
      (stops_items hst level _ (stops_blank hblanks (stops_cons (by simp))))
    have hitems := scanItems_write hst y xs level (fuel - 1) blanks r hy hxs (by omega) hblanks
    rw [hpos] at hvalue hitems
    have hopen : skipBlank (writeItems text st level (y :: xs) ++ (blanks ++ 93 :: r)) =
        44 :: (gap ++ (st.newline level ++ (write text st level y ++ writeItems text st level xs ++
          blanks ++ 93 :: r))) := by
      rw [writeItems, hcomma]
      simp only [List.cons_append, List.append_assoc]
      exact skipBlank_cons rfl
    have hskip : skipBlank (gap ++ (st.newline level ++ (write text st level y ++
        writeItems text st level xs ++ blanks ++ 93 :: r))) =
        write text st level y ++ writeItems text st level xs ++ blanks ++ 93 :: r := by
      rw [skipBlank_append hgap, skipBlank_append newline_blank, hc]
      exact skipBlank_cons hblank
    have htext : write text st level x ++ writeItems text st level (y :: xs) ++ blanks ++ 93 :: r =
        write text st level x ++ (writeItems text st level (y :: xs) ++ (blanks ++ 93 :: r)) := by
      simp
    rw [htext, scanItems, hvalue]
    simp only [hopen, hskip, hitems]
    rfl

termination_by x xs => sizeOf (x :: xs)

theorem scanFields_write (hst : st.Spaced) : ∀ (key : Str) (x : Value) (fs : List (Str × Value))
    (level fuel : Nat) (blanks r : Str), Unescaped key → Loadable read text x →
      LoadableFields read text fs →
      (write text st level x).length + (writeFields text st level fs).length < fuel →
      (∀ c ∈ blanks, isBlank c = true) →
      scanFields read (fuel + 1) (writeStr key ++ st.colon ++ write text st level x ++
        writeFields text st level fs ++ blanks ++ 125 :: r) = .ok ((key, x) :: fs, r)
  | key, x, [], level, fuel, blanks, r, hkey, hx, _, hfuel, hblanks => by
    obtain ⟨gap, hcolon, hgap⟩ := hst.colon
    obtain ⟨c, cs, hc, hblank, _⟩ := write_head st hx level
    have hpos : fuel - 1 + 1 = fuel := by omega
    have hvalue := scanValue_write hst x level (fuel - 1) (blanks ++ 125 :: r) hx (by omega)
      (stops_blank hblanks (stops_cons (by simp)))
    rw [hpos] at hvalue
    have hclose : skipBlank (blanks ++ 125 :: r) = 125 :: r := by
      rw [skipBlank_append hblanks]
      exact skipBlank_cons rfl
    have hskip : skipBlank (gap ++ (write text st level x ++ (blanks ++ 125 :: r))) =
        write text st level x ++ (blanks ++ 125 :: r) := by
      rw [skipBlank_append hgap, hc]
      exact skipBlank_cons hblank
    have htext : writeStr key ++ st.colon ++ write text st level x ++
        writeFields text st level [] ++ blanks ++ 125 :: r =
        34 :: (key ++ 34 :: (58 :: (gap ++ (write text st level x ++ (blanks ++ 125 :: r))))) := by
      rw [writeStr_unescaped hkey, hcolon, writeFields]
      simp
    have hmark : skipBlank (58 :: (gap ++ (write text st level x ++ (blanks ++ 125 :: r)))) =
        58 :: (gap ++ (write text st level x ++ (blanks ++ 125 :: r))) := skipBlank_cons rfl
    rw [htext, scanFields]
    simp only [scanStr_unescaped hkey, hmark, hskip, hvalue, hclose]
  | key, x, (key', y) :: fs, level, fuel, blanks, r, hkey, hx, hfs, hfuel, hblanks => by
    obtain ⟨hkey', hy, hfs⟩ := hfs
    obtain ⟨sep, hcomma, hsep⟩ := hst.comma
    obtain ⟨gap, hcolon, hgap⟩ := hst.colon
    obtain ⟨c, cs, hc, hblank, _⟩ := write_head st hx level
    have hpos : fuel - 1 + 1 = fuel := by omega
    rw [writeFields, hcomma] at hfuel
    simp only [List.length_append, List.length_cons] at hfuel
    have hvalue := scanValue_write hst x level (fuel - 1)
      (writeFields text st level ((key', y) :: fs) ++ (blanks ++ 125 :: r)) hx (by omega)
      (stops_fields hst level _ (stops_blank hblanks (stops_cons (by simp))))
    have hfields := scanFields_write hst key' y fs level (fuel - 1) blanks r hkey' hy hfs
      (by omega) hblanks
    rw [hpos] at hvalue hfields
    have hopen : skipBlank (writeFields text st level ((key', y) :: fs) ++ (blanks ++ 125 :: r)) =
        44 :: (sep ++ (st.newline level ++ (writeStr key' ++ st.colon ++ write text st level y ++
          writeFields text st level fs ++ blanks ++ 125 :: r))) := by
      rw [writeFields, hcomma]
      simp only [List.cons_append, List.append_assoc]
      exact skipBlank_cons rfl
    have hnext : skipBlank (sep ++ (st.newline level ++ (writeStr key' ++ st.colon ++
        write text st level y ++ writeFields text st level fs ++ blanks ++ 125 :: r))) =
        writeStr key' ++ st.colon ++ write text st level y ++ writeFields text st level fs ++
          blanks ++ 125 :: r := by
      rw [skipBlank_append hsep, skipBlank_append newline_blank]
      exact skipBlank_cons rfl
    have hskip : skipBlank (gap ++ (write text st level x ++
        (writeFields text st level ((key', y) :: fs) ++ (blanks ++ 125 :: r)))) =
        write text st level x ++ (writeFields text st level ((key', y) :: fs) ++
          (blanks ++ 125 :: r)) := by
      rw [skipBlank_append hgap, hc]
      exact skipBlank_cons hblank
    have htext : writeStr key ++ st.colon ++ write text st level x ++
        writeFields text st level ((key', y) :: fs) ++ blanks ++ 125 :: r =
        34 :: (key ++ 34 :: (58 :: (gap ++ (write text st level x ++
          (writeFields text st level ((key', y) :: fs) ++ (blanks ++ 125 :: r)))))) := by
      rw [writeStr_unescaped hkey, hcolon]
      simp
    have hmark : skipBlank (58 :: (gap ++ (write text st level x ++
        (writeFields text st level ((key', y) :: fs) ++ (blanks ++ 125 :: r))))) =
        58 :: (gap ++ (write text st level x ++
          (writeFields text st level ((key', y) :: fs) ++ (blanks ++ 125 :: r)))) :=
      skipBlank_cons rfl
    rw [htext, scanFields]
    simp only [scanStr_unescaped hkey, hmark, hskip, hvalue, hopen, hnext, hfields]
    rfl
termination_by key x fs => sizeOf ((key, x) :: fs)
end

/-- What is loadable is read back from its text in any layout. -/
theorem loads_write (hst : st.Spaced) {v : Value} (h : Loadable read text v) :
    loads read (write text st 0 v) = .ok v := by
  obtain ⟨c, cs, hc, hblank, _⟩ := write_head st h 0
  have hscan := scanValue_write hst v 0 (2 * (write text st 0 v).length + 1) [] h (by omega)
    (by intro c hc; simp at hc)
  have hskip : skipBlank (write text st 0 v) = write text st 0 v := by
    rw [hc]
    exact skipBlank_cons hblank
  rw [List.append_nil] at hscan
  rw [loads, hskip, hscan]
  rfl

/-- Texts that are the same in a layout are texts of one value. -/
theorem write_inj (hst : st.Spaced) {v w : Value} (hv : Loadable read text v)
    (hw : Loadable read text w) (h : write text st 0 v = write text st 0 w) : v = w := by
  have hread := loads_write hst hv
  rw [h, loads_write hst hw] at hread
  exact (Except.ok.inj hread).symm

/-! ## The bytes of a text -/

def Ascii (s : Str) : Prop := ∀ c ∈ s, c < 0x80

instance (s : Str) : Decidable (Ascii s) := inferInstanceAs (Decidable (∀ c ∈ s, c < 0x80))

theorem ascii_append {s t : Str} : Ascii (s ++ t) ↔ Ascii s ∧ Ascii t := List.forall_mem_append

theorem ascii_cons {c : Nat} {s : Str} : Ascii (c :: s) ↔ c < 0x80 ∧ Ascii s :=
  List.forall_mem_cons

theorem ascii_hex4 (n : Nat) : Ascii (hex4 n) := by
  have hdigit : ∀ m < 16, hexDigit m < 0x80 := by decide
  intro c hc
  simp only [hex4, List.mem_cons, List.not_mem_nil, or_false] at hc
  obtain rfl | rfl | rfl | rfl := hc
  all_goals exact hdigit _ (Nat.mod_lt _ (by omega))

theorem ascii_escapeAscii (c : Nat) : Ascii (escapeAscii c) := by
  unfold escapeAscii
  split_ifs
  all_goals try decide
  · intro d hd
    rw [List.mem_singleton] at hd
    omega
  · rw [ascii_cons, ascii_cons]
    exact ⟨by omega, by omega, ascii_hex4 _⟩
  · rw [ascii_cons, ascii_cons, ascii_append, ascii_cons, ascii_cons]
    exact ⟨by omega, by omega, ascii_hex4 _, by omega, by omega, ascii_hex4 _⟩

theorem ascii_writeStr (s : Str) : Ascii (writeStr s) := by
  rw [writeStr, ascii_cons, ascii_append]
  refine ⟨by omega, ?_, by decide⟩
  intro c hc
  obtain ⟨d, _, hd⟩ := List.mem_flatMap.mp hc
  exact ascii_escapeAscii d c hd

theorem ascii_dumpInt (n : Int) : Ascii (dumpInt n) := by
  rw [dumpInt_eq, ascii_append]
  constructor
  · by_cases hneg : n < 0
    · rw [if_pos hneg]
      decide
    · rw [if_neg hneg]
      decide
  · intro c hc
    have hdigit := isDigit_digitsOf hc
    simp only [isDigit, Bool.and_eq_true, decide_eq_true_eq] at hdigit
    omega

theorem ascii_fraction {s : Str} (h : FractionText s) : Ascii s := by
  obtain ⟨ds, rfl, _, hds⟩ := h
  rw [ascii_cons, ascii_cons]
  refine ⟨by omega, by omega, ?_⟩
  intro c hc
  have hdigit := hds c hc
  simp only [isDigit, Bool.and_eq_true, decide_eq_true_eq] at hdigit
  omega

theorem ascii_blank {s : Str} (h : ∀ c ∈ s, isBlank c = true) : Ascii s := by
  intro c hc
  have hblank := h c hc
  simp only [isBlank, Bool.or_eq_true, beq_iff_eq] at hblank
  omega

theorem Style.Spaced.ascii (h : st.Spaced) : Ascii st.comma ∧ Ascii st.colon := by
  obtain ⟨⟨bs, hcomma, hbs⟩, cs, hcolon, hcs⟩ := h
  rw [hcomma, hcolon, ascii_cons, ascii_cons]
  exact ⟨⟨by omega, ascii_blank hbs⟩, by omega, ascii_blank hcs⟩

mutual
theorem ascii_write (hst : st.Spaced) : ∀ (v : Value) (level : Nat), Loadable read text v →
    Ascii (write text st level v)
  | .none, _, _ => by
    show Ascii (str "null")
    decide
  | .bool true, _, _ => by
    show Ascii (str "true")
    decide
  | .bool false, _, _ => by
    show Ascii (str "false")
    decide
  | .int n, _, _ => ascii_dumpInt n
  | .float q, _, h => ascii_fraction h.1
  | .nonfinite _, _, h => h.elim
  | .str s, _, _ => ascii_writeStr s
  | .list [], level, _ => by
    show Ascii [91, 93]
    decide
  | .list (x :: xs), level, h => by
    simp only [write, ascii_cons, ascii_append]
    exact ⟨by omega, ⟨⟨⟨ascii_blank newline_blank, ascii_write hst x (level + 1) h.1⟩,
      ascii_writeItems hst xs (level + 1) h.2⟩, ascii_blank newline_blank⟩, by decide⟩
  | .dict [], level, _ => by
    show Ascii [123, 125]
    decide
  | .dict ((key, x) :: fs), level, h => by
    simp only [write, ascii_cons, ascii_append]
    exact ⟨by omega, ⟨⟨⟨⟨⟨ascii_blank newline_blank, ascii_writeStr key⟩, hst.ascii.2⟩,
      ascii_write hst x (level + 1) h.2.2.1⟩, ascii_writeFields hst fs (level + 1) h.2.2.2⟩,
      ascii_blank newline_blank⟩, by decide⟩

theorem ascii_writeItems (hst : st.Spaced) : ∀ (xs : List Value) (level : Nat),
    LoadableItems read text xs → Ascii (writeItems text st level xs)
  | [], level, _ => by
    show Ascii []
    decide
  | x :: xs, level, h => by
    simp only [writeItems, ascii_append]
    exact ⟨⟨⟨hst.ascii.1, ascii_blank newline_blank⟩, ascii_write hst x level h.1⟩,
      ascii_writeItems hst xs level h.2⟩

theorem ascii_writeFields (hst : st.Spaced) : ∀ (fs : List (Str × Value)) (level : Nat),
    LoadableFields read text fs → Ascii (writeFields text st level fs)
  | [], level, _ => by
    show Ascii []
    decide
  | (key, x) :: fs, level, h => by
    simp only [writeFields, ascii_append]
    exact ⟨⟨⟨⟨⟨hst.ascii.1, ascii_blank newline_blank⟩, ascii_writeStr key⟩, hst.ascii.2⟩,
      ascii_write hst x level h.2.1⟩, ascii_writeFields hst fs level h.2.2⟩
end

theorem encodeUtf8_ascii {s : Str} (h : Ascii s) : encodeUtf8 s = s.map UInt8.ofNat := by
  induction s with
  | nil => rfl
  | cons c s ih =>
    rw [ascii_cons] at h
    rw [encodeUtf8, List.flatMap_cons, ← encodeUtf8, ih h.2, encodePoint, if_pos h.1]
    rfl

theorem encodeUtf8_inj {s t : Str} (hs : Ascii s) (ht : Ascii t)
    (h : encodeUtf8 s = encodeUtf8 t) : s = t := by
  rw [encodeUtf8_ascii hs, encodeUtf8_ascii ht] at h
  have hback : ∀ u : Str, Ascii u → (u.map UInt8.ofNat).map UInt8.toNat = u := by
    intro u hu
    rw [List.map_map]
    refine (List.map_congr_left ?_).trans (List.map_id u)
    intro c hc
    have hsmall := hu c hc
    show (UInt8.ofNat c).toNat = c
    rw [UInt8.toNat_ofNat']
    omega
  rw [← hback s hs, h, hback t ht]

end

end Py
end FlashNext
