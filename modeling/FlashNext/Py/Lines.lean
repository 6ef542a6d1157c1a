import FlashNext.Py.Text

/-!
# Lines

The translation of line ends that a file opened as text undergoes, `splitlines` and `partition`.
-/

namespace FlashNext
namespace Py

/-- What is read where the file holds the text: every line end is a newline. -/
def universalNewlines : Str → Str
  | 13 :: 10 :: s => 10 :: universalNewlines s
  | c :: s => (if c = 13 then 10 else c) :: universalNewlines s
  | [] => []

/-- `str.splitlines` ends a line there. -/
def isBoundary (c : Nat) : Bool :=
  (10 ≤ c && c ≤ 13) || (28 ≤ c && c ≤ 30) || c == 0x85 || c == 0x2028 || c == 0x2029

/-- A character in front of the first line. -/
def consLine (c : Nat) : List Str → List Str
  | [] => [[c]]
  | line :: lines => (c :: line) :: lines

/-- `s.splitlines()`. -/
def splitlines : Str → List Str
  | 13 :: 10 :: s => [] :: splitlines s
  | c :: s => if isBoundary c then [] :: splitlines s else consLine c (splitlines s)
  | [] => []

/-- `s.partition(sep)`, for a separator that is not empty: what is before its first occurrence and
what is after it, or nothing where it does not occur. -/
def partition (sep : Str) : Str → Option (Str × Str)
  | [] => none
  | c :: s =>
    if sep.isPrefixOf (c :: s) then some ([], (c :: s).drop sep.length)
    else (partition sep s).map fun parts => (c :: parts.1, parts.2)

variable {s line rest sep left right : Str} {c : Nat}

theorem isSpace_of_isBoundary (h : isBoundary c = true) : isSpace c = true := by
  simp only [isBoundary, Bool.or_eq_true, Bool.and_eq_true, decide_eq_true_eq, beq_iff_eq] at h
  simp only [isSpace, Bool.or_eq_true, Bool.and_eq_true, decide_eq_true_eq, beq_iff_eq]
  omega

theorem universalNewlines_cons (hc : c ≠ 13) :
    universalNewlines (c :: s) = c :: universalNewlines s := by
  rw [universalNewlines, if_neg hc]
  intro rest heq
  exact absurd heq hc

theorem universalNewlines_eq_self (h : 13 ∉ s) : universalNewlines s = s := by
  induction s with
  | nil => rfl
  | cons c s ih =>
    obtain ⟨hc, hs⟩ := List.ne_and_not_mem_of_not_mem_cons h
    rw [universalNewlines_cons (Ne.symm hc), ih hs]

/-- A stem without line ends is kept. -/
theorem stem_universalNewlines {stem : Str} (h : stem <+: s) (hstem : 13 ∉ stem) :
    stem <+: universalNewlines s := by
  induction stem generalizing s with
  | nil => exact List.nil_prefix
  | cons c stem ih =>
    obtain ⟨hc, htail⟩ := List.ne_and_not_mem_of_not_mem_cons hstem
    obtain ⟨rest, rfl⟩ := h
    rw [List.cons_append, universalNewlines_cons (Ne.symm hc)]
    exact List.cons_prefix_cons.mpr ⟨rfl, ih (List.prefix_append stem rest) htail⟩

theorem splitlines_cons (hc : isBoundary c = false) :
    splitlines (c :: s) = consLine c (splitlines s) := by
  have hne : c ≠ 13 := by
    rintro rfl
    cases hc
  rw [splitlines, hc]
  · rfl
  · intro rest heq
    exact absurd heq hne

/-- A line without boundaries and a newline in front of the rest. -/
theorem splitlines_line (h : ∀ c ∈ line, isBoundary c = false) :
    splitlines (line ++ 10 :: rest) = line :: splitlines rest := by
  induction line with
  | nil =>
    rw [List.nil_append, splitlines]
    · rfl
    · intro rest heq
      cases heq
  | cons c line ih =>
    obtain ⟨hc, hline⟩ := List.forall_mem_cons.mp h
    rw [List.cons_append, splitlines_cons hc, ih hline]
    rfl

/-- A line reaches from some place of the text to the next boundary. -/
theorem exists_suffix_of_mem_splitlines (h : line ∈ splitlines s) :
    ∃ rest, rest <:+ s ∧ line = rest.takeWhile fun c => !isBoundary c := by
  -- The first line is known; of the others it is enough that they are such pieces.
  have hpieces : splitlines s = [] ∧ s = [] ∨ ∃ others,
      splitlines s = (s.takeWhile fun c => !isBoundary c) :: others ∧
        ∀ line ∈ others, ∃ rest, rest <:+ s ∧ line = rest.takeWhile fun c => !isBoundary c := by
    clear h
    have hrest : ∀ (front : Str) {tail : Str}, (splitlines tail = [] ∧ tail = [] ∨ ∃ others,
        splitlines tail = (tail.takeWhile fun c => !isBoundary c) :: others ∧
          ∀ line ∈ others, ∃ rest, rest <:+ tail ∧ line = rest.takeWhile fun c => !isBoundary c) →
        ∀ line ∈ splitlines tail, ∃ rest, rest <:+ front ++ tail ∧
          line = rest.takeWhile fun c => !isBoundary c := by
      intro front tail htail line hline
      rcases htail with ⟨hnil, -⟩ | ⟨others, hsplit, hothers⟩
      · rw [hnil] at hline
        exact absurd hline List.not_mem_nil
      · rw [hsplit] at hline
        rcases List.mem_cons.mp hline with rfl | hline
        · exact ⟨tail, List.suffix_append front tail, rfl⟩
        · obtain ⟨rest, hsuffix, heq⟩ := hothers line hline
          exact ⟨rest, hsuffix.trans (List.suffix_append front tail), heq⟩
    fun_induction splitlines s with
    | case1 s ih => exact .inr ⟨splitlines s, rfl, hrest [13, 10] ih⟩
    | case2 c s hother hc ih =>
      rw [List.takeWhile_cons_of_neg (by simpa using hc)]
      exact .inr ⟨splitlines s, rfl, hrest [c] ih⟩
    | case3 c s hother hc ih =>
      rw [List.takeWhile_cons_of_pos (by simpa using hc)]
      rcases ih with ⟨hnil, rfl⟩ | ⟨others, hsplit, hothers⟩
      · rw [hnil]
        exact .inr ⟨[], rfl, fun line hline => absurd hline List.not_mem_nil⟩
      · rw [hsplit]
        refine .inr ⟨others, rfl, fun line hline => ?_⟩
        obtain ⟨rest, hsuffix, heq⟩ := hothers line hline
        exact ⟨rest, hsuffix.trans (List.suffix_cons c s), heq⟩
    | case4 => exact .inl ⟨rfl, rfl⟩
  rcases hpieces with ⟨hnil, -⟩ | ⟨others, hsplit, hothers⟩
  · rw [hnil] at h
    exact absurd h List.not_mem_nil
  · rw [hsplit] at h
    rcases List.mem_cons.mp h with rfl | h
    · exact ⟨s, List.suffix_rfl, rfl⟩
    · exact hothers line h

theorem partition_cons (h : sep.isPrefixOf (c :: s) = false) :
    partition sep (c :: s) = (partition sep s).map fun parts => (c :: parts.1, parts.2) := by
  rw [partition, h]
  rfl

/-- What is before the first occurrence and what is after it make up the text. -/
theorem partition_eq_some (h : partition sep s = some (left, right)) :
    s = left ++ (sep ++ right) := by
  induction s generalizing left with
  | nil => cases h
  | cons c s ih =>
    rw [partition] at h
    split at h
    · next hfound =>
      cases h
      obtain ⟨tail, htail⟩ := List.isPrefixOf_iff_prefix.mp hfound
      rw [← htail, List.drop_left]
      rfl
    · obtain ⟨parts, hparts, heq⟩ := Option.map_eq_some_iff.mp h
      cases heq
      rw [ih hparts]
      rfl

end Py
end FlashNext
