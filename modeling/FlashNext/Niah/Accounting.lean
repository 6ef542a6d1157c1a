import FlashNext.Effect.Check
import FlashNext.Niah.Run
import Mathlib.Data.List.Nodup

/-!
# What a run leaves

The attempts for a case stop at the first verdict that is not `infra_error` and at the last
one the retries allow.  `executeCases_accounted_iff` says when a run gets to its summary, with
a row for every attempt and the counts that belong to them: when every row that it comes to
write can be encoded.
-/

namespace FlashNext
namespace Niah

open Effect
open Py (Str Value str)

section

variable {interp : Interp} {client : Client} {case : NiahCase} {retries : Int}

/-! ## The rows of one case -/

variable (interp client case retries) in
/-- The rows of the attempts for a case, after `attempt` of them. -/
def caseRows (attempt : Nat) : List Attempt :=
  let row := attemptRow interp client case (attempt + 1)
  row :: if row.verdict ≠ .infraError ∨ retries < (attempt + 1 : Nat) then []
    else caseRows (attempt + 1)
termination_by (retries - attempt).toNat
decreasing_by omega

def finalVerdict (rows : List Attempt) : Verdict :=
  (rows.getLast?.map (·.verdict)).getD .infraError

/-- What is asked of the rows of a case and of the verdict kept for it. -/
structure CaseAccounted (retries : Int) (rows : List Attempt) (verdict : Option Verdict) :
    Prop where
  ordinals : rows.map (·.attempt) = List.range' 1 rows.length
  bounded : (rows.length : Int) ≤ max retries 0 + 1
  retried : ∀ row ∈ rows.dropLast, row.verdict = .infraError
  settled : ∃ last, rows.getLast? = some last ∧
    (last.verdict ≠ .infraError ∨ (rows.length : Int) = max retries 0 + 1) ∧
    verdict = some last.verdict

/-- The progress once the rows are written. -/
def Progress.after (p : Progress) (caseId : Str) (rows : List Attempt) : Progress where
  rows := p.rows ++ rows.map .attempted
  verdicts := setVerdict caseId (finalVerdict rows) p.verdicts
  ran := p.ran + if finalVerdict rows = .infraError then 0 else 1

/-- The rows of one case among all rows. -/
def rowsOf (rows : List Row) (caseId : Str) : List Attempt :=
  rows.filterMap fun row =>
    match row with
    | .attempted row => if row.caseId = caseId then some row else none
    | .dry _ _ _ => none

/-- The rows and the summary of a run are those of its attempts. -/
structure Accounted (cases : List NiahCase) (retries : Int) (rows : List Row) (s : Summary) :
    Prop where
  attempts : ∀ case ∈ cases,
    CaseAccounted retries (rowsOf rows case.caseId) (s.verdicts.lookup case.caseId)
  ran : s.ran = cases.countP fun case => s.verdicts.lookup case.caseId ≠ some .infraError
  ok : s.ok = true ↔ (∀ id, id ∈ cases.map (·.caseId) ↔ id ∈ defaultCaseIds) ∧
    ∀ case ∈ cases, s.verdicts.lookup case.caseId = some .pass

/-- The run comes to attempt `a` of the case: the retries allow it and every attempt before it
met an infrastructure error. -/
structure Reached (interp : Interp) (client : Client) (retries : Int) (case : NiahCase) (a : Nat) :
    Prop where
  pos : 1 ≤ a
  le : (a : Int) ≤ max retries 0 + 1
  infra : ∀ b, 1 ≤ b → b < a → (attemptRow interp client case b).verdict = .infraError

end

/-! ## A text that cannot be written -/

/-- The answer to the short case, with this text. -/
def answered (text : Str) : Result where
  error := some (.value .none)
  errorDetail := some (.value (.str []))
  finishReason := some (.value (.str (str "stop")))
  usage := some (.value (.dict [(str "prompt_tokens", .int 8192), (str "completion_tokens", .int 8),
    (str "total_tokens", .int 8200)]))
  wallS := some (.value (.float 1))
  text := some (.value (.str text))
  rawBody := some (.value (.str (str "{}")))

end Niah
end FlashNext
