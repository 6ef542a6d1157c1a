import FlashNext.Json.Value

/-!
# What the scripts raise

The exceptions of the launcher and of the checkpoint verifier, told apart as far as a
handler of either tells them apart.
-/

namespace FlashNext

inductive Exn where
  /-- `guard.LaunchError`. -/
  | launch (message : String)
  /-- `verify_files.VerifyError`, with the values its text shows. -/
  | verify (format : String) (args : List Json)
  /-- Any other `ValueError`: malformed JSON, text that is not UTF-8. -/
  | value (message : String)
  /-- `guard.TransportError`. -/
  | transport (message : String)
  /-- An `OSError`, and whether it is a `BlockingIOError`. -/
  | os (blocking : Bool) (message : String)
  /-- What no handler here names: a missing attribute, an unhashable key. -/
  | other (message : String)
  deriving DecidableEq

namespace Exn

/-- `except (OSError, ValueError, TransportError)` catches it. -/
def handled : Exn → Bool
  | .other _ => false
  | _ => true

/-- `str(error)`. -/
def text : Exn → String
  | .launch m => m
  | .verify format _ => format
  | .value m => m
  | .transport m => m
  | .os _ m => m
  | .other m => m

end Exn

namespace Json

/-- `value.get(key)`, on a value that may turn out not to be an object. -/
def get (j : Json) (key : String) : Except Exn Json :=
  match j with
  | .obj fs => .ok (field fs key)
  | _ => .error (.other "object has no attribute 'get'")

theorem get_ok {j v : Json} {key : String} :
    j.get key = .ok v ↔ ∃ fs, j = .obj fs ∧ field fs key = v := by
  cases j with
  | obj fs =>
    rw [get, Except.ok.injEq]
    constructor
    · intro h
      exact ⟨fs, rfl, h⟩
    · rintro ⟨gs, hgs, h⟩
      rw [Json.obj.injEq] at hgs
      rw [hgs]
      exact h
  | _ =>
    constructor
    · intro h
      cases h
    · rintro ⟨gs, hgs, -⟩
      cases hgs

/-- What `if value` asks of a value. -/
def truthy : Json → Bool
  | .null => false
  | .bool b => b
  | .int n => n ≠ 0
  | .float d => d.mant ≠ 0
  | .str s => s ≠ ""
  | .arr xs => !xs.isEmpty
  | .obj fs => !fs.isEmpty

/-- `value is None`. -/
def isNull : Json → Bool
  | .null => true
  | _ => false

/-- `value == text`, for a text. -/
def isText (j : Json) (s : String) : Bool := j.asStr? == some s

theorem isText_iff {j : Json} {s : String} : j.isText s = true ↔ j = .str s := by
  cases j with
  | str t => simp [isText, asStr?]
  | _ => simp [isText, asStr?]

end Json

end FlashNext
