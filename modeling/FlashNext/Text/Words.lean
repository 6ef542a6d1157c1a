import Mathlib.Data.List.Basic

/-!
# Words

The words of a text are the pieces between its separators, without the empty ones.
-/

namespace FlashNext
namespace Text

variable {α : Type} {sep : α → Bool} {text rest word : List α} {c : α}

theorem sep_of_mem_splitOnP {piece : List α} (h : piece ∈ text.splitOnP sep) :
    ∀ c ∈ piece, sep c = false := by
  induction text generalizing piece with
  | nil =>
    rw [List.splitOnP_nil, List.mem_singleton] at h
    rw [h]
    exact fun c hc => absurd hc List.not_mem_nil
  | cons x text ih =>
    rw [List.splitOnP_cons_eq_if_modifyHead] at h
    by_cases hx : sep x = true
    · rw [if_pos hx] at h
      rcases List.mem_cons.mp h with rfl | h
      · exact fun c hc => absurd hc List.not_mem_nil
      · exact ih h
    · rw [if_neg hx] at h
      obtain ⟨first, others, hsplit⟩ := List.exists_cons_of_ne_nil (List.splitOnP_ne_nil sep text)
      rw [hsplit, List.modifyHead_cons] at h
      rcases List.mem_cons.mp h with rfl | h
      · refine List.forall_mem_cons.mpr ⟨Bool.eq_false_iff.mpr hx, ih ?_⟩
        rw [hsplit]
        exact List.mem_cons_self
      · refine ih ?_
        rw [hsplit]
        exact List.mem_cons_of_mem _ h

/-- A piece reaches from some place of the text to the next separator. -/
theorem exists_suffix_of_mem_splitOnP {piece : List α} (h : piece ∈ text.splitOnP sep) :
    ∃ rest, rest <:+ text ∧ piece = rest.takeWhile fun c => !sep c := by
  have hpieces : ∃ others, text.splitOnP sep = (text.takeWhile fun c => !sep c) :: others ∧
      ∀ piece ∈ others, ∃ rest, rest <:+ text ∧ piece = rest.takeWhile fun c => !sep c := by
    clear h
    induction text with
    | nil => exact ⟨[], rfl, fun piece hpiece => absurd hpiece List.not_mem_nil⟩
    | cons x text ih =>
      obtain ⟨others, hsplit, hothers⟩ := ih
      have hsuffix : text <:+ x :: text := List.suffix_cons x text
      rw [List.splitOnP_cons_eq_if_modifyHead, hsplit]
      by_cases hx : sep x = true
      · rw [if_pos hx, List.takeWhile_cons_of_neg (by simpa using hx)]
        refine ⟨_, rfl, List.forall_mem_cons.mpr ⟨⟨text, hsuffix, rfl⟩, fun piece hpiece => ?_⟩⟩
        obtain ⟨rest, hrest, heq⟩ := hothers piece hpiece
        exact ⟨rest, hrest.trans hsuffix, heq⟩
      · rw [if_neg hx, List.takeWhile_cons_of_pos (by simpa using hx), List.modifyHead_cons]
        refine ⟨_, rfl, fun piece hpiece => ?_⟩
        obtain ⟨rest, hrest, heq⟩ := hothers piece hpiece
        exact ⟨rest, hrest.trans hsuffix, heq⟩
  obtain ⟨others, hsplit, hothers⟩ := hpieces
  rw [hsplit] at h
  rcases List.mem_cons.mp h with rfl | h
  · exact ⟨text, List.suffix_rfl, rfl⟩
  · exact hothers piece h

def words (sep : α → Bool) (text : List α) : List (List α) :=
  (text.splitOnP sep).filter fun word => !word.isEmpty

theorem mem_words (h : word ∈ words sep text) : word ≠ [] ∧ ∀ c ∈ word, sep c = false := by
  obtain ⟨hmem, hne⟩ := List.mem_filter.mp h
  rw [Bool.not_eq_true', List.isEmpty_eq_false_iff] at hne
  exact ⟨hne, sep_of_mem_splitOnP hmem⟩

/-- A word and a separator in front of the rest. -/
theorem words_cons (hne : word ≠ []) (hword : ∀ c ∈ word, sep c = false) (hc : sep c = true) :
    words sep (word ++ c :: rest) = word :: words sep rest := by
  rw [words, List.splitOnP_append_cons_of_forall_mem hword c hc, List.filter_cons]
  have hkept : (!word.isEmpty) = true := by
    rw [Bool.not_eq_true', List.isEmpty_eq_false_iff]
    exact hne
  rw [if_pos hkept, words]

/-- The last word. -/
theorem words_last (hne : word ≠ []) (hword : ∀ c ∈ word, sep c = false) :
    words sep word = [word] := by
  have hkept : (!word.isEmpty) = true := by
    rw [Bool.not_eq_true', List.isEmpty_eq_false_iff]
    exact hne
  rw [words, List.splitOnP_eq_singleton hword, List.filter_cons, if_pos hkept, List.filter_nil]

/-- A separator parts the words before it from those behind it. -/
theorem words_append_cons (hc : sep c = true) :
    words sep (text ++ c :: rest) = words sep text ++ words sep rest := by
  have hsplit : (text ++ c :: rest).splitOnP sep = text.splitOnP sep ++ rest.splitOnP sep := by
    induction text with
    | nil => simp [List.splitOnP_cons_eq_if_modifyHead, hc]
    | cons x text ih =>
      obtain ⟨first, others, hfirst⟩ := List.exists_cons_of_ne_nil (List.splitOnP_ne_nil sep text)
      rw [List.cons_append, List.splitOnP_cons_eq_if_modifyHead, ih,
        List.splitOnP_cons_eq_if_modifyHead, hfirst]
      by_cases hx : sep x = true
      · simp [hx]
      · simp [hx]
  rw [words, hsplit, List.filter_append, words, words]

/-- Separators in front of a text add no words. -/
theorem words_append_front {front : List α} (hfront : ∀ c ∈ front, sep c = true)
    (text : List α) : words sep (front ++ text) = words sep text := by
  induction front with
  | nil => rfl
  | cons c front ih =>
    obtain ⟨hc, hrest⟩ := List.forall_mem_cons.mp hfront
    have hcons := @words_append_cons α sep [] (front ++ text) c hc
    rw [List.nil_append] at hcons
    rw [List.cons_append, hcons, ih hrest]
    rfl

/-- Separators behind a text add no words. -/
theorem words_append_back (text : List α) {back : List α} (hback : ∀ c ∈ back, sep c = true) :
    words sep (text ++ back) = words sep text := by
  cases back with
  | nil => rw [List.append_nil]
  | cons c back =>
    obtain ⟨hc, hrest⟩ := List.forall_mem_cons.mp hback
    have hnone : words sep back = [] := by
      have hfront := words_append_front hrest []
      rw [List.append_nil] at hfront
      exact hfront
    rw [words_append_cons hc, hnone, List.append_nil]

/-- Words that are written with a separator between them are read back. -/
theorem words_intercalate {ws : List (List α)} (hc : sep c = true)
    (hws : ∀ word ∈ ws, word ≠ [] ∧ ∀ c ∈ word, sep c = false) :
    words sep ([c].intercalate ws) = ws := by
  induction ws with
  | nil => rfl
  | cons word ws ih =>
    obtain ⟨⟨hne, hword⟩, hrest⟩ := List.forall_mem_cons.mp hws
    cases ws with
    | nil =>
      rw [List.intercalate_singleton]
      exact words_last hne hword
    | cons next ws =>
      have htext : [c].intercalate (word :: next :: ws) = word ++ c :: [c].intercalate (next :: ws) := by
        rw [List.intercalate_cons_cons, List.append_assoc]
        rfl
      rw [htext, words_cons hne hword hc, ih hrest]

end Text
end FlashNext
