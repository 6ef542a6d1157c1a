import FlashNext.Py.Text

/-!
# The needle runner

`executeCases` asks the client for every case, checks what it answers and writes a row for
every attempt.  A client may return any object and raise any exception; what it does at each
attempt for a case is a `Client`.  The output file is fresh and holds what was written to it,
also when a row that cannot be encoded ends the run.
-/

namespace FlashNext
namespace Niah

open Py (Str Value str)

def maxPrompt : Nat := 258044
def maxTokens : Int := 4096

/-- `DEFAULT_CASE_IDS`. -/
def defaultCaseIds : List Str :=
  ["single_8192_d50", "single_32768_d50", "single_131072_d50", "single_258044_d5",
    "single_258044_d25", "single_258044_d50", "single_258044_d75", "single_258044_d95",
    "multi_258044_d33_66"].map str

structure NiahCase where
  caseId : Str
  nTokens : Int
  codes : List Str
  promptSha256 : Str
  responseStartsInThinking : Bool

/-! ## What a client returns -/

/-- An object: one that JSON can hold, or another, which has none of the methods used here. -/
inductive Obj where
  | value (v : Value)
  | other (truthy : Bool)

/-- An attribute, if the object has it. -/
abbrev Attr := Option Obj

/-- The object a client returns, as far as its attributes are read. -/
structure Result where
  error : Attr
  errorDetail : Attr
  finishReason : Attr
  usage : Attr
  wallS : Attr
  text : Attr
  rawBody : Attr

/-- How a call ends.  An exception is known by `f"{type(exc).__name__}: {exc}"`. -/
inductive Reply where
  | result (res : Result)
  | raised (description : Str)

/-- What the client does at the attempts for a case, counted from 1. -/
abbrev Client := NiahCase → Nat → Reply

/-- The texts the interpreter supplies. -/
structure Interp where
  /-- `str(value)`. -/
  text : Obj → Str
  /-- The description of the exception that `check_response` raises for an object. -/
  fault : NiahCase → Result → Str

inductive Verdict where
  | pass
  | needleMiss
  | invalidUsageEcho
  | invalidFinish
  | incompleteThinking
  | emptyAnswer
  | invalidUsage
  | infraError
  | notRunDry
  deriving DecidableEq

namespace Obj

def isNone : Obj → Bool
  | .value v => v.isNone
  | .other _ => false

def truthy : Obj → Bool
  | .value v => v.truthy
  | .other b => b

/-- `value[:300]`. -/
def firstPart : Obj → Option Obj
  | .value (.str s) => some (.value (.str (s.take 300)))
  | .value (.list xs) => some (.value (.list (xs.take 300)))
  | _ => none

/-- `text in value`. -/
def contains (text : Str) : Obj → Option Bool
  | .value (.str s) => some (Py.contains text s)
  | .value (.list xs) => some (xs.any fun x => decide (x = .str text))
  | .value (.dict fs) => some (fs.any fun f => f.1 == text)
  | _ => none

def asStr? : Obj → Option Str
  | .value v => v.asStr?
  | .other _ => none

/-- The row of it can be written. -/
def encodes : Obj → Bool
  | .value v => v.encodes
  | .other _ => false

end Obj

/-! ## `check_response` -/

def thinkOpen : Str := str "<think>"
def thinkClose : Str := str "</think>"

/-- The part of `check_response` for a result that carries an error. -/
def errorVerdict (interp : Interp) (error : Obj) (res : Result) : Option (Verdict × Str) := do
  let error ← error.asStr?
  let detail ← res.errorDetail
  let detail ← detail.firstPart
  let infra := (str "http_status_").isPrefixOf error || error == str "transport" ||
    error == str "timeout"
  return (if infra then .infraError else .invalidUsage, error ++ str ": " ++ interp.text detail)

/-- The three counts of the usage, if they are integers. -/
def usageCounts (usage : Obj) : Option (Int × Int × Int) :=
  match usage with
  | .value (.dict fs) => do
    let promptTokens ← (Value.field fs "prompt_tokens").asInt?
    let completionTokens ← (Value.field fs "completion_tokens").asInt?
    let totalTokens ← (Value.field fs "total_tokens").asInt?
    return (promptTokens, completionTokens, totalTokens)
  | _ => none

/-- The part of `check_response` that reads the final text. -/
def answerVerdict (case : NiahCase) (text : Obj) : Option (Verdict × Str) := do
  let text := if text.truthy then text else .value (.str [])
  let unclosed ← if case.responseStartsInThinking then (text.contains thinkClose).map (!·)
    else some false
  if unclosed then return (.incompleteThinking, str "unclosed <think> block")
  let text ← text.asStr?
  if Py.rfind thinkClose text < Py.rfind thinkOpen text then
    return (.incompleteThinking, str "unclosed <think> block")
  let final := Py.strip (Py.afterLast thinkClose text)
  if final.isEmpty then return (.emptyAnswer, str "no final text after thinking")
  if Py.spaced (Py.words final) ≠ Py.spaced case.codes then
    return (.needleMiss, str "final answer is not exactly the ordered code list")
  return (.pass, str "exact ordered final codes")

/-- `check_response`, or `none` where it raises. -/
def checkResponse (interp : Interp) (case : NiahCase) (res : Result) : Option (Verdict × Str) := do
  let error ← res.error
  if !error.isNone then errorVerdict interp error res
  else do
    let usage ← res.usage
    match usageCounts usage with
    | none => return (.invalidUsage, str "usage must contain exact JSON integers")
    | some (promptTokens, completionTokens, totalTokens) =>
      if ¬ (0 < completionTokens ∧ completionTokens ≤ maxTokens) ∨
          totalTokens ≠ promptTokens + completionTokens then
        return (.invalidUsage, str "invalid completion count or usage total")
      if promptTokens ≠ case.nTokens then
        return (.invalidUsageEcho, str "api prompt_tokens=" ++ str (toString promptTokens) ++
          str " != constructed " ++ str (toString case.nTokens))
      let finish ← res.finishReason
      if finish.asStr? ≠ some (str "stop") then
        return (.invalidFinish, str "finish_reason=" ++ interp.text finish)
      let text ← res.text
      answerVerdict case text

/-! ## Rows -/

/-- The row of an attempt. -/
structure Attempt where
  caseId : Str
  nTokens : Int
  verdict : Verdict
  attempt : Nat
  detail : Str
  finishReason : Obj
  usage : Obj
  wallS : Obj
  finalText : Obj
  rawBody : Obj
  promptSha256 : Str

inductive Row where
  /-- The row of a dry run. -/
  | dry (caseId : Str) (nTokens : Int) (promptSha256 : Str)
  | attempted (row : Attempt)

/-- `getattr(res, name, default)`. -/
def getAttr (attr : Attr) (default : Value) : Obj := attr.getD (.value default)

/-- The row of an answer that was checked. -/
def checkedRow (case : NiahCase) (attempt : Nat) (res : Result) (verdict : Verdict) (detail : Str) :
    Attempt where
  caseId := case.caseId
  nTokens := case.nTokens
  verdict := verdict
  attempt := attempt
  detail := detail
  finishReason := getAttr res.finishReason .none
  usage := getAttr res.usage .none
  wallS := getAttr res.wallS .none
  finalText :=
    let text := getAttr res.text (.str [])
    if text.truthy then text else .value (.str [])
  rawBody := getAttr res.rawBody (.str [])
  promptSha256 := case.promptSha256

/-- The row of an exception: `res` is `None`. -/
def infraRow (case : NiahCase) (attempt : Nat) (description : Str) : Attempt where
  caseId := case.caseId
  nTokens := case.nTokens
  verdict := .infraError
  attempt := attempt
  detail := description.take 500
  finishReason := .value .none
  usage := .value .none
  wallS := .value .none
  finalText := .value (.str [])
  rawBody := .value (.str [])
  promptSha256 := case.promptSha256

/-- One pass of the `while` body up to its row. -/
def attemptRow (interp : Interp) (client : Client) (case : NiahCase) (attempt : Nat) : Attempt :=
  match client case attempt with
  | .raised description => infraRow case attempt description
  | .result res =>
    match checkResponse interp case res with
    | some (verdict, detail) => checkedRow case attempt res verdict detail
    | none => infraRow case attempt (interp.fault case res)

/-- `json.dumps(row, ensure_ascii=False)` succeeds and the file takes its text. -/
def Attempt.encodes (row : Attempt) : Bool :=
  Py.encodes row.caseId && (Value.int row.nTokens).encodes && Py.encodes row.detail &&
    row.finishReason.encodes && row.usage.encodes && row.wallS.encodes && row.finalText.encodes &&
    row.rawBody.encodes && Py.encodes row.promptSha256

def Row.encodes : Row → Bool
  | .dry caseId nTokens promptSha256 =>
    Py.encodes caseId && (Value.int nTokens).encodes && Py.encodes promptSha256
  | .attempted row => row.encodes

/-! ## `_execute_cases` -/

/-- The file and the local variables of the run. -/
structure Progress where
  rows : List Row
  verdicts : List (Str × Verdict)
  ran : Nat

/-- `verdicts[key] = verdict`. -/
def setVerdict (key : Str) (verdict : Verdict) : List (Str × Verdict) → List (Str × Verdict)
  | [] => [(key, verdict)]
  | v :: verdicts => if v.1 = key then (key, verdict) :: verdicts
    else v :: setVerdict key verdict verdicts

inductive Fault where
  /-- `ValueError("case IDs must be nonempty and unique")`. -/
  | caseIds
  /-- A row could not be encoded; these had been written before it. -/
  | write (rows : List Row)

/-- `fout.write(json.dumps(row, ensure_ascii=False) + "\n")`. -/
def Progress.write (p : Progress) (row : Row) : Except Fault Progress :=
  if row.encodes then .ok { p with rows := p.rows ++ [row] } else .error (.write p.rows)

def Progress.judge (p : Progress) (caseId : Str) (verdict : Verdict) : Progress :=
  { p with verdicts := setVerdict caseId verdict p.verdicts }

def Progress.count (p : Progress) : Progress := { p with ran := p.ran + 1 }

section

variable (interp : Interp) (client : Client)

structure Summary where
  totalCases : Nat
  selectedCases : Nat
  selectedOk : Bool
  missingCaseIds : List Str
  ran : Nat
  passed : Nat
  isPartial : Bool
  verdicts : List (Str × Verdict)
  ok : Bool

end

end Niah
end FlashNext
