import FlashNext.Niah.Run
import FlashNext.Py.Find

/-!
# The verdict on an answer

`check_response` compares where the two tags of thinking occur last and splits the text.  What it
lets pass reads simpler: the codes are all that stands behind the thinking.
-/

namespace FlashNext
namespace Niah

open Py (Str Value str OccursAt occursAt_iff_isInfix)

/-! ## The tags -/

theorem thinkOpen_ne_nil : thinkOpen ≠ [] := by decide

theorem thinkClose_ne_nil : thinkClose ≠ [] := by decide

/-- The tags are told apart by the character behind the first. -/
theorem tags_differ {text : Str} {i : Nat} (hopen : OccursAt thinkOpen text i)
    (hclose : OccursAt thinkClose text i) : False := by
  obtain ⟨v, hv⟩ := Py.occursAt_iff.mp hopen
  obtain ⟨w, hw⟩ := Py.occursAt_iff.mp hclose
  rw [hv] at hw
  have hopen : (thinkOpen ++ v)[1]? = some 116 := by
    rw [List.getElem?_append_left (by decide)]
    decide
  have hclose : (thinkClose ++ w)[1]? = some 47 := by
    rw [List.getElem?_append_left (by decide)]
    decide
  rw [hw, hclose] at hopen
  exact absurd (Option.some.inj hopen) (by omega)

/-- A tag that starts behind the start of another starts behind its end. -/
theorem tag_behind {tag other text : Str} {i : Nat} (htag : tag.head? = some 60)
    (hother : other.head? = some 60) (hinner : 60 ∉ other.tail)
    (hi : 0 < i) (h : OccursAt tag (other ++ text) i) : OccursAt tag text (i - other.length) := by
  cases other with
  | nil => cases hother
  | cons c inner =>
    rw [List.tail_cons] at hinner
    by_cases hinside : i - 1 < inner.length
    · have hoccurs : OccursAt tag (inner ++ text) (i - 1) := by
        have hbehind : OccursAt tag ([c] ++ (inner ++ text)) i := h
        exact (Py.occursAt_append (show [c].length ≤ i from hi)).mp hbehind
      exact absurd hoccurs (Py.not_occursAt_inside htag hinner hinside)
    · have hlength : (c :: inner).length ≤ i := by
        rw [List.length_cons]
        omega
      exact (Py.occursAt_append hlength).mp h

/-- A tag behind the start of the closing tag of a text stands in what is behind that tag. -/
theorem infix_behind_close {tag u v : Str} {i : Nat} (htag : tag.head? = some 60)
    (hi : u.length < i) (h : OccursAt tag (u ++ thinkClose ++ v) i) : tag <:+: v := by
  rw [List.append_assoc, Py.occursAt_append (by omega)] at h
  have hne : tag ≠ [] := by
    intro hnil
    rw [hnil] at htag
    cases htag
  apply (occursAt_iff_isInfix hne).mp
  exact ⟨_, tag_behind htag (by decide) (by decide) (by omega) h⟩

/-! ## The text that is read -/

/-- The final text of an answer: all of it where nothing is thought, and what is behind the
thinking else. -/
def Answers (case : NiahCase) (text final : Str) : Prop :=
  (¬ thinkOpen <:+: text ∧ ¬ thinkClose <:+: text ∧ case.responseStartsInThinking = false ∧
      final = text) ∨
    ∃ u v, text = u ++ thinkClose ++ v ∧ ¬ thinkOpen <:+: v ∧ ¬ thinkClose <:+: v ∧ final = v

/-- The thinking is not closed. -/
def unclosed (case : NiahCase) (text : Str) : Bool :=
  (case.responseStartsInThinking && !Py.contains thinkClose text) ||
    decide (Py.rfind thinkClose text < Py.rfind thinkOpen text)

theorem contains_iff {tag text : Str} (htag : tag ≠ []) :
    Py.contains tag text = true ↔ tag <:+: text := by
  unfold Py.contains
  rw [decide_eq_true_eq, ← occursAt_iff_isInfix htag]
  cases Py.rfind_cases htag text with
  | inl h =>
    obtain ⟨hrfind, hnone⟩ := h
    rw [hrfind]
    constructor
    · intro hle
      omega
    · intro hex
      obtain ⟨i, hi⟩ := hex
      exact absurd hi (hnone i)
  | inr h =>
    obtain ⟨i, hrfind, hi, _⟩ := h
    rw [hrfind]
    constructor
    · intro _
      exact ⟨i, hi⟩
    · intro _
      omega

/-- The text that is split off is the one that answers. -/
theorem answers_iff {case : NiahCase} {text final : Str} :
    Answers case text final ↔
      unclosed case text = false ∧ final = Py.afterLast thinkClose text := by
  unfold unclosed
  rw [Bool.or_eq_false_iff, Bool.and_eq_false_iff, Bool.not_eq_false', decide_eq_false_iff_not]
  cases Py.rfind_cases thinkClose_ne_nil text with
  | inl hclose =>
    -- without a closing tag the whole text answers, unless something is thought
    obtain ⟨hclose, hnone⟩ := hclose
    have hno : ¬ thinkClose <:+: text := by
      intro hinfix
      obtain ⟨i, hi⟩ := (occursAt_iff_isInfix thinkClose_ne_nil).mpr hinfix
      exact hnone i hi
    have hcontains : Py.contains thinkClose text = false := by
      rw [Bool.eq_false_iff, ne_eq, contains_iff thinkClose_ne_nil]
      exact hno
    have hopen : ¬ Py.rfind thinkClose text < Py.rfind thinkOpen text ↔
        ¬ thinkOpen <:+: text := by
      rw [← contains_iff thinkOpen_ne_nil, hclose, Py.contains, decide_eq_true_eq]
      omega
    rw [hopen, hcontains, Py.afterLast, hcontains]
    constructor
    · intro h
      cases h with
      | inl h =>
        obtain ⟨hnoOpen, _, hstarts, hfinal⟩ := h
        exact ⟨⟨Or.inl hstarts, hnoOpen⟩, by simpa using hfinal⟩
      | inr h =>
        obtain ⟨u, v, htext, _⟩ := h
        exact absurd ⟨u, v, htext.symm⟩ hno
    · intro h
      obtain ⟨⟨hstarts, hnoOpen⟩, hfinal⟩ := h
      have hstarts : case.responseStartsInThinking = false := by simpa using hstarts
      left
      exact ⟨hnoOpen, hno, hstarts, by simpa using hfinal⟩
  | inr hclose =>
    obtain ⟨i, hclose, hi, hlast⟩ := hclose
    have hcontains : Py.contains thinkClose text = true :=
      (contains_iff thinkClose_ne_nil).mpr ((occursAt_iff_isInfix thinkClose_ne_nil).mp ⟨i, hi⟩)
    have hafter : Py.afterLast thinkClose text = text.drop (i + thinkClose.length) := by
      rw [Py.afterLast, if_pos hcontains, hclose, Int.toNat_natCast]
    obtain ⟨hsplit, hlength⟩ := hi.split thinkClose_ne_nil
    rw [hafter, hclose]
    constructor
    · intro h
      cases h with
      | inl h => exact absurd ((contains_iff thinkClose_ne_nil).mp hcontains) h.2.1
      | inr h =>
        obtain ⟨u, v, htext, hnoOpen, hnoClose, hfinal⟩ := h
        have hle : u.length ≤ i := by
          apply hlast
          rw [htext]
          exact Py.occursAt_split
        have hplace : i = u.length := by
          by_cases hlt : u.length < i
          · rw [htext] at hi
            exact absurd (infix_behind_close (by decide) hlt hi) hnoClose
          · omega
        refine ⟨⟨Or.inr hcontains, ?_⟩, ?_⟩
        · intro hopen
          cases Py.rfind_cases thinkOpen_ne_nil text with
          | inl hnone =>
            rw [hnone.1] at hopen
            omega
          | inr hsome =>
            obtain ⟨j, hj, hoccurs, _⟩ := hsome
            rw [hj] at hopen
            rw [htext] at hoccurs
            exact hnoOpen (infix_behind_close (by decide) (by omega) hoccurs)
        · rw [hfinal, hplace, htext, ← List.length_append, List.drop_left]
    · intro h
      obtain ⟨⟨_, hopen⟩, hfinal⟩ := h
      right
      refine ⟨text.take i, text.drop (i + thinkClose.length), hsplit, ?_, ?_, hfinal⟩
      · intro hinfix
        obtain ⟨j, hj⟩ := (occursAt_iff_isInfix thinkOpen_ne_nil).mpr hinfix
        have hplace : OccursAt thinkOpen text (i + thinkClose.length + j) := by
          rw [OccursAt, ← List.drop_drop]
          exact hj
        cases Py.rfind_cases thinkOpen_ne_nil text with
        | inl hnone => exact hnone.2 _ hplace
        | inr hsome =>
          obtain ⟨k, hk, _, hmost⟩ := hsome
          have hle := hmost _ hplace
          have hpos : 0 < thinkClose.length := by decide
          rw [hk] at hopen
          omega
      · intro hinfix
        obtain ⟨j, hj⟩ := (occursAt_iff_isInfix thinkClose_ne_nil).mpr hinfix
        have hplace : OccursAt thinkClose text (i + thinkClose.length + j) := by
          rw [OccursAt, ← List.drop_drop]
          exact hj
        have hle := hlast _ hplace
        have hpos : 0 < thinkClose.length := by decide
        omega

/-- An opening tag with no closing tag behind it leaves no final text. -/
theorem not_answers_of_open {case : NiahCase} {u w final : Str} (hw : ¬ thinkClose <:+: w) :
    ¬ Answers case (u ++ thinkOpen ++ w) final := by
  intro h
  cases h with
  | inl h => exact h.1 ⟨u, w, rfl⟩
  | inr h =>
    obtain ⟨u', v, htext, hnoOpen, _⟩ := h
    have hopen : OccursAt thinkOpen (u' ++ thinkClose ++ v) u.length := by
      rw [← htext]
      exact Py.occursAt_split
    have hclose : OccursAt thinkClose (u ++ thinkOpen ++ w) u'.length := by
      rw [htext]
      exact Py.occursAt_split
    rcases Nat.lt_trichotomy u.length u'.length with hlt | heq | hgt
    · -- the closing tag stands behind the opening one
      rw [List.append_assoc, Py.occursAt_append (by omega)] at hclose
      have hbehind := tag_behind (by decide) (by decide) (by decide)
        (show 0 < u'.length - u.length by omega) hclose
      exact hw ((occursAt_iff_isInfix thinkClose_ne_nil).mp ⟨_, hbehind⟩)
    · rw [htext, ← heq] at hclose
      exact tags_differ hopen hclose
    · exact hnoOpen (infix_behind_close (by decide) hgt hopen)

/-! ## The verdict -/

/-- The codes of a case can be told apart in a text. -/
structure NiahCase.Readable (case : NiahCase) : Prop where
  some : case.codes ≠ []
  codes : ∀ code ∈ case.codes, code ≠ [] ∧ ∀ c ∈ code, Py.isSpace c = false

/-- A completion that is judged by its text alone. -/
structure Admissible (case : NiahCase) (res : Result) (text : Str) : Prop where
  error : res.error = some (.value .none)
  usage : ∃ usage promptTokens completionTokens totalTokens, res.usage = some usage ∧
    usageCounts usage = some (promptTokens, completionTokens, totalTokens) ∧
    promptTokens = case.nTokens ∧ 1 ≤ completionTokens ∧ completionTokens ≤ 4096 ∧
    totalTokens = promptTokens + completionTokens
  finish : res.finishReason = some (.value (.str (str "stop")))
  text : res.text = some (.value (.str text))

/-- The result is checked and passes. -/
def Passes (interp : Interp) (case : NiahCase) (res : Result) : Prop :=
  ∃ detail, checkResponse interp case res = some (.pass, detail)

theorem checkResponse_admissible {interp : Interp} {case : NiahCase} {res : Result} {text : Str}
    (h : Admissible case res text) :
    checkResponse interp case res = answerVerdict case (.value (.str text)) := by
  obtain ⟨usage, promptTokens, completionTokens, totalTokens, husage, hcounts, hprompt, hpos, hle,
    htotal⟩ := h.usage
  have hcompletion : ¬ (¬ (0 < completionTokens ∧ completionTokens ≤ maxTokens) ∨
      totalTokens ≠ promptTokens + completionTokens) := by
    unfold maxTokens
    omega
  unfold checkResponse
  simp only [Option.bind_eq_bind, h.error, husage, h.finish, h.text, Option.bind_some, hcounts]
  rw [if_neg hcompletion]
  simp [Obj.isNone, Value.isNone, Obj.asStr?, Value.asStr?, hprompt]

theorem answerVerdict_str {case : NiahCase} {text : Str} :
    (∃ detail, answerVerdict case (.value (.str text)) = some (.pass, detail)) ↔
      unclosed case text = false ∧
        Py.strip (Py.afterLast thinkClose text) ≠ [] ∧
        Py.spaced (Py.words (Py.strip (Py.afterLast thinkClose text))) =
          Py.spaced case.codes := by
  have htruthy : (if (Obj.value (.str text)).truthy then Obj.value (.str text)
      else .value (.str [])) = .value (.str text) := by
    cases text <;> rfl
  unfold answerVerdict unclosed
  simp only [Option.bind_eq_bind, htruthy]
  cases hstarts : case.responseStartsInThinking
  · by_cases hopen : Py.rfind thinkClose text < Py.rfind thinkOpen text
    · simp [Obj.asStr?, Value.asStr?, hopen]
    · by_cases hempty : Py.strip (Py.afterLast thinkClose text) = []
      · simp [Obj.asStr?, Value.asStr?, hopen, hempty]
      · by_cases hwords : Py.spaced (Py.words (Py.strip (Py.afterLast thinkClose text))) =
          Py.spaced case.codes
        · simp [Obj.asStr?, Value.asStr?, hopen, hempty, hwords]
        · simp [Obj.asStr?, Value.asStr?, hopen, hempty, hwords]
  · by_cases hcontains : Py.contains thinkClose text = true
    · by_cases hopen : Py.rfind thinkClose text < Py.rfind thinkOpen text
      · simp [Obj.asStr?, Obj.contains, Value.asStr?, hopen, hcontains]
      · by_cases hempty : Py.strip (Py.afterLast thinkClose text) = []
        · simp [Obj.asStr?, Obj.contains, Value.asStr?, hopen, hempty, hcontains]
        · by_cases hwords : Py.spaced (Py.words (Py.strip (Py.afterLast thinkClose text))) =
            Py.spaced case.codes
          · simp [Obj.asStr?, Obj.contains, Value.asStr?, hopen, hempty, hwords, hcontains]
          · simp [Obj.asStr?, Obj.contains, Value.asStr?, hopen, hempty, hwords, hcontains]
    · simp [Obj.contains, hcontains]

/-- Naming the codes is being made of them. -/
theorem names_codes_iff {case : NiahCase} (hcase : case.Readable) (final : Str) :
    (Py.strip final ≠ [] ∧ Py.spaced (Py.words (Py.strip final)) = Py.spaced case.codes) ↔
      Py.words final = case.codes := by
  rw [Py.words_strip]
  constructor
  · intro h
    exact Py.spaced_inj (fun w hw => Text.mem_words hw) hcase.codes h.2
  · intro h
    refine ⟨?_, by rw [h]⟩
    intro hnil
    have hwords : Py.words final = [] := by
      rw [← Py.words_strip, hnil]
      rfl
    exact hcase.some (h ▸ hwords)

/-- A response passes when the words of its final text are the codes of the case in their order;
what is thought and not closed never counts. -/
theorem response_passes_iff (interp : Interp) {case : NiahCase} {res : Result} {text : Str}
    (hcase : case.Readable) (hres : Admissible case res text) :
    (Passes interp case res ↔
      (¬ thinkOpen <:+: text ∧ ¬ thinkClose <:+: text ∧ case.responseStartsInThinking = false ∧
        Py.words text = case.codes) ∨
      ∃ u v, text = u ++ thinkClose ++ v ∧ ¬ thinkOpen <:+: v ∧ ¬ thinkClose <:+: v ∧
        Py.words v = case.codes) ∧
    ∀ u w, text = u ++ thinkOpen ++ w → ¬ thinkClose <:+: w → ¬ Passes interp case res := by
  have hpasses : Passes interp case res ↔
      ∃ final, Answers case text final ∧ Py.words final = case.codes := by
    unfold Passes
    rw [checkResponse_admissible hres, answerVerdict_str, names_codes_iff hcase]
    constructor
    · intro h
      exact ⟨_, answers_iff.mpr ⟨h.1, rfl⟩, h.2⟩
    · intro h
      obtain ⟨final, hanswers, hwords⟩ := h
      obtain ⟨hclosed, hfinal⟩ := answers_iff.mp hanswers
      exact ⟨hclosed, hfinal ▸ hwords⟩
  constructor
  · rw [hpasses]
    constructor
    · intro h
      obtain ⟨final, hanswers, hwords⟩ := h
      cases hanswers with
      | inl h =>
        obtain ⟨hopen, hclose, hstarts, hfinal⟩ := h
        left
        exact ⟨hopen, hclose, hstarts, hfinal ▸ hwords⟩
      | inr h =>
        obtain ⟨u, v, htext, hopen, hclose, hfinal⟩ := h
        right
        exact ⟨u, v, htext, hopen, hclose, hfinal ▸ hwords⟩
    · intro h
      cases h with
      | inl h =>
        obtain ⟨hopen, hclose, hstarts, hwords⟩ := h
        exact ⟨text, Or.inl ⟨hopen, hclose, hstarts, rfl⟩, hwords⟩
      | inr h =>
        obtain ⟨u, v, htext, hopen, hclose, hwords⟩ := h
        exact ⟨v, Or.inr ⟨u, v, htext, hopen, hclose, rfl⟩, hwords⟩
  · intro u w htext hw h
    obtain ⟨final, hanswers, _⟩ := hpasses.mp h
    rw [htext] at hanswers
    exact not_answers_of_open hw hanswers

def sampleCase : NiahCase :=
  ⟨str "single_8192_d50", 8192, [str "ABC123", str "DEF456"], str "", true⟩

def sampleAnswer : Str := str "I look </think>\n ABC123\tDEF456 "

def sampleUsage : Obj :=
  .value (.dict [(str "prompt_tokens", .int 8192), (str "completion_tokens", .int 40),
    (str "total_tokens", .int 8232)])

def sampleResult : Result where
  error := some (.value .none)
  errorDetail := some (.value (.str []))
  finishReason := some (.value (.str (str "stop")))
  usage := some sampleUsage
  wallS := some (.value .none)
  text := some (.value (.str sampleAnswer))
  rawBody := some (.value (.str []))

theorem response_passes_iff_sample :
    Passes ⟨fun _ => [], fun _ _ => []⟩ sampleCase sampleResult := by
  have hcase : sampleCase.Readable := ⟨by decide, by decide⟩
  have hres : Admissible sampleCase sampleResult sampleAnswer :=
    ⟨rfl, ⟨_, 8192, 40, 8232, rfl, by decide, rfl, by omega, by omega, by omega⟩, rfl, rfl⟩
  refine (response_passes_iff ⟨fun _ => [], fun _ _ => []⟩ hcase hres).1.mpr
    (Or.inr ⟨str "I look ", str "\n ABC123\tDEF456 ", by decide, ?_, ?_, by decide⟩)
  · rw [← contains_iff thinkOpen_ne_nil]
    decide
  · rw [← contains_iff thinkClose_ne_nil]
    decide

end Niah
end FlashNext
