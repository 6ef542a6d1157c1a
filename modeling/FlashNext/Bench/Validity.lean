import FlashNext.Http.Marks
import FlashNext.Py.Text

/-!
# The validity of a measured row

The producers judge a stream by `row_validity`, by the model it reported and, for a picture,
by its answer.
-/

namespace FlashNext
namespace Bench

open Http Py

/-- `MODEL_ID`. -/
def modelId : Str := str "nvidia/Qwen3.8-Flash-Next-NVFP4"

/-- `MIN_MEANINGFUL_CHARS`. -/
def minMeaningfulChars : Nat := 200

/-- The text of the `error` field. -/
def failureText : Failure → Str
  | .httpStatus code => str "http_status_" ++ str (toString code)
  | .transport => str "transport"
  | .timeout => str "timeout"
  | .streamFormat => str "stream_format"
  | .missingDone => str "missing_done"
  | .invalidUsage => str "invalid_usage"
  | .missingUsage => str "missing_usage"

/-- `_ERROR_CLASS_PREFIXES`. -/
def errorClassPrefixes : List Str :=
  ["http_status_", "transport", "timeout", "stream_format", "missing_done", "invalid_usage",
    "missing_usage"].map str

abbrev Verdict := Bool × Option Str

/-- `row_validity`. -/
def rowValidity (requireFinish : Option Str) (requireContent : Bool) (minContentChars : Nat)
    (result : StreamResult) : Verdict :=
  match result.error with
  | some error =>
    if errorClassPrefixes.any (·.isPrefixOf (failureText error)) then
      (false, some (failureText error))
    else (false, some (str "error_" ++ failureText error))
  | none =>
    if requireFinish.isSome && result.finishReason ≠ requireFinish then
      (false, some (str "finish_" ++ ((result.finishReason.filter (· ≠ [])).getD (str "none"))))
    else if result.usage.isNone then (false, some (str "missing_usage"))
    else if requireContent then
      if (strip result.content).isEmpty then (false, some (str "empty_final_content"))
      else if (strip result.content).length < minContentChars then
        (false, some (str "content_too_short"))
      else (true, none)
    else (true, none)

/-- The model is compared after the row. -/
def checkModel (result : StreamResult) (verdict : Verdict) : Verdict :=
  if result.modelReported ≠ some modelId then (false, some (str "wrong_reported_model"))
  else verdict

/-- The verdict of `run_bench` on a measured row. -/
def proseVerdict (result : StreamResult) : Verdict :=
  checkModel result (rowValidity (some (str "stop")) true minMeaningfulChars result)

/-! ## Pictures -/

/-- `mvf.EXPECTED`, and the pair of pictures. -/
def expectedAnswer (base : Str) : Option Str :=
  (([("multi_square_pair", "red blue"), ("red_square_on_blue", "red blue"),
    ("blue_square_on_red", "blue red"), ("circles_3", "3"), ("circles_5", "5"),
    ("ocr_text", "R7K9"), ("left_green_right_yellow", "left"),
    ("left_yellow_right_green", "right"), ("red_bar_tall_blue_short", "red"),
    ("colors_first_red", "red yellow"), ("colors_first_yellow", "yellow red")].find?
      fun entry => str entry.1 == base).map fun entry => str entry.2)

def isAlnum (c : Nat) : Bool := (48 ≤ c && c ≤ 57) || (65 ≤ c && c ≤ 90) || (97 ≤ c && c ≤ 122)

/-- `re.findall(r"[A-Za-z0-9]+", text)`. -/
def alnumWords (text : Str) : List Str :=
  (text.splitOnP fun c => !isAlnum c).filter fun word => !word.isEmpty

/-- The digit of a number word that is looked for. -/
def digitWord (word : Str) : Str :=
  if word = str "three" then str "3" else if word = str "five" then str "5" else word

/-- `semantic_answer`. -/
def semanticAnswer (caseId text : Str) : Bool :=
  let base := caseId.takeWhile (· ≠ 64)
  let final := strip (afterLast (str "</think>") text)
  if rfind (str "</think>") text < rfind (str "<think>") text then false
  else
    match expectedAnswer base with
    | none => false
    | some expected =>
      let found := alnumWords final
      if base = str "ocr_text" then found = [expected]
      else
        let found := found.map lowerAscii
        let found := if expected = str "3" ∨ expected = str "5" then found.map digitWord else found
        found = words expected

/-- The verdict of `request_one` on a measured row. -/
def visionVerdict (caseId : Str) (result : StreamResult) : Verdict :=
  let verdict := checkModel result (rowValidity (some (str "stop")) true 1 result)
  if semanticAnswer caseId result.content then verdict
  else (false, verdict.2.or (some (str "semantic_mismatch")))

/-! ## When a row is valid -/

/-- What a producer asks of an answer. -/
inductive Asked where
  | prose
  | vision (caseId : Str)

def Asked.verdict : Asked → StreamResult → Verdict
  | .prose => proseVerdict
  | .vision caseId => visionVerdict caseId

/-- The content is one the producer accepts. -/
def Asked.accepts : Asked → Str → Bool
  | .prose, content => minMeaningfulChars ≤ (strip content).length
  | .vision caseId, content => 1 ≤ (strip content).length && semanticAnswer caseId content

variable {res : StreamResult}

theorem rowValidity_iff {finish : Str} {n : Nat} (hn : 0 < n) :
    (rowValidity (some finish) true n res).1 = true ↔
      res.error = none ∧ res.finishReason = some finish ∧ res.usage ≠ none ∧
        n ≤ (strip res.content).length := by
  unfold rowValidity
  cases herror : res.error with
  | some error =>
    dsimp only
    split <;> simp
  | none =>
    dsimp only
    by_cases hfinish : res.finishReason = some finish
    · rw [if_neg (by simp [hfinish])]
      by_cases husage : res.usage = none
      · simp [husage]
      · have hsome : ¬ res.usage.isNone = true := by
          rw [Option.isNone_iff_eq_none]
          exact husage
        rw [if_neg hsome, if_pos rfl]
        by_cases hempty : (strip res.content).isEmpty = true
        · rw [if_pos hempty]
          have hlen : (strip res.content).length = 0 := by
            rw [List.isEmpty_iff.mp hempty, List.length_nil]
          simp only [Bool.false_eq_true, false_iff]
          omega
        · rw [if_neg hempty]
          by_cases hshort : (strip res.content).length < n
          · rw [if_pos hshort]
            simp only [Bool.false_eq_true, false_iff]
            omega
          · rw [if_neg hshort]
            simp only [true_iff]
            exact ⟨trivial, hfinish, husage, by omega⟩
    · rw [if_pos (by simp [hfinish])]
      simp [hfinish]

theorem checkModel_iff {verdict : Verdict} : (checkModel res verdict).1 = true ↔
    res.modelReported = some modelId ∧ verdict.1 = true := by
  unfold checkModel
  by_cases hmodel : res.modelReported = some modelId
  · simp [hmodel]
  · simp [hmodel]

/-- A measured row is valid when the stream was complete, stopped, named the model last and
brought an answer that is accepted. -/
theorem verdict_iff (asked : Asked) : (asked.verdict res).1 = true ↔
    res.modelReported = some modelId ∧ res.error = none ∧ res.finishReason = some (str "stop") ∧
      res.usage ≠ none ∧ asked.accepts res.content = true := by
  cases asked with
  | prose =>
    show (proseVerdict res).1 = true ↔ _
    rw [proseVerdict, checkModel_iff, rowValidity_iff (by decide), Asked.accepts, decide_eq_true_iff]
  | vision caseId =>
    show (visionVerdict caseId res).1 = true ↔ _
    rw [visionVerdict, Asked.accepts, Bool.and_eq_true, decide_eq_true_iff]
    by_cases hsemantic : semanticAnswer caseId res.content = true
    · rw [if_pos hsemantic, checkModel_iff, rowValidity_iff Nat.one_pos]
      simp [hsemantic]
    · rw [if_neg hsemantic]
      simp [hsemantic]

end Bench
end FlashNext
