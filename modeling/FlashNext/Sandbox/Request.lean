import FlashNext.Effect.Check
import FlashNext.Py.Dump
import FlashNext.Text.Hex

/-!
# Requests to the sandbox driver

`validateRequest` admits a request or raises; the driver tells no more of the exception than
its class.  What the interpreter supplies (the strict reader, SHA-256, the word characters of
`re`, the text of a float) and the hash of the driver's own source are an `Interp`.
-/

namespace FlashNext
namespace Sandbox

open Effect Text
open Py (Str Value str)

def driverVersion : Str := str "r0b0tlab.qwen38.q200_sandbox_driver.v1"
def requestSchema : Str := str "r0b0tlab.qwen38.q200_sandbox_request.v1"
def receiptSchema : Str := str "r0b0tlab.qwen38.q200_sandbox_receipt.v1"
def maxRequestBytes : Nat := 1024 * 1024
def maxCandidateBytes : Nat := 256 * 1024
def maxTestBytes : Nat := 256 * 1024
def maxOutputBytes : Nat := 64 * 1024
def maxOutputTailBytes : Nat := 4096
def maxReceiptBytes : Nat := 16 * 1024

/-- The bytes of an ASCII text. -/
def ascii (s : String) : Bytes := s.toList.map fun c => .ofNat c.toNat

/-- `COMPLETION_MARKER`. -/
def completionMarker : Bytes := ascii "Q200-CANDIDATE-COMPLETE\n"

/-- `RUNTIME_MANIFEST`. -/
def runtimeManifest : Value := .dict
  [(str "schema", .str (str "r0b0tlab.qwen38.q200_sandbox_runtime.v1")),
    (str "cpu_seconds", .int 9),
    (str "address_space_bytes", .int (256 * 1024 * 1024)),
    (str "file_size_bytes", .int (1024 * 1024)),
    (str "nproc", .int 32),
    (str "nofile", .int 64),
    (str "output_bytes", .int maxOutputBytes),
    (str "tmpfs_bytes", .int (64 * 1024 * 1024)),
    (str "network", .str (str "none")),
    (str "read_only_root", .bool true),
    (str "uid_gid", .str (str "65532:65532"))]

def requestKeys : List Str :=
  ["schema", "driver_version", "driver_source_sha256", "image_id", "candidate", "reference",
    "timeout_seconds", "runtime_manifest", "request_sha256"].map str

/-- An exception: its class, its text and whether it is an `OSError` or a `SubprocessError`. -/
structure Exc where
  kind : String
  text : Str
  ofSupervisor : Bool

def valueError (text : Str) : Exc := ⟨"ValueError", text, false⟩

structure Interp where
  /-- `_strict_load`, which refuses a repeated key. -/
  loads : Bytes → Except Exc Value
  loads_distinct : ∀ {raw v}, loads raw = .ok v → v.distinct = true
  sha256 : Bytes → Hex 64
  /-- `_source_hash()`. -/
  sourceHash : Hex 64
  /-- What `\w` matches. -/
  isWord : Nat → Bool
  word_encodes : ∀ {c}, isWord c = true → isSurrogate c = false
  floatText : ℚ → Str

section

variable (interp : Interp)

/-- `_canonical`. -/
def canonical (v : Value) : Except Exc Bytes :=
  (v.canonical interp.floatText).mapError fun kind => ⟨kind, [], false⟩

/-- `_sha256_json`. -/
def sha256Json (v : Value) : Except Exc (Hex 64) := (canonical interp v).map interp.sha256

/-- `_bounded_text`. -/
def boundedText (v : Value) (limit : Nat) (name : String) : Except Exc Str := do
  let text ← orRaise v.asStr? (valueError (str name ++ str " must be a string"))
  reject (!Py.encodes text) ⟨"UnicodeEncodeError", [], false⟩
  reject (limit < (Py.encodeUtf8 text).length)
    (valueError (str name ++ str " exceeds " ++ str (toString limit) ++ str " bytes"))
  return text

/-- `re.fullmatch(r"[0-9a-f]{64}", s)`. -/
def isHash (s : Str) : Bool :=
  s.length == 64 && s.all fun c => (48 ≤ c && c ≤ 57) || (97 ≤ c && c ≤ 102)

/-- `re.fullmatch(r"sha256:[0-9a-f]{64}", s)`. -/
def isImageId (s : Str) : Bool := s.take 7 == str "sha256:" && isHash (s.drop 7)

/-- `ENTRY_POINT_RE.fullmatch(s)`. -/
def isEntryPoint : Str → Bool
  | [] => false
  | c :: s => ((65 ≤ c && c ≤ 90) || c == 95 || (97 ≤ c && c ≤ 122)) && s.length ≤ 127 &&
    s.all interp.isWord

def hasKey (fs : List (Str × Value)) (key : String) : Bool := (Value.lookup fs key).isSome

/-- The checks of `reference`. -/
def validateReference (reference : Value) : Except Exc Unit := do
  let fs ← orRaise reference.asDict? (valueError (str "reference must be an object"))
  reject (!fs.all fun f => f.1 ∈ ["entry_point", "canonical", "test"].map str)
    (valueError (str "reference contains unknown fields"))
  if hasKey fs "test" then
    let _ ← boundedText (Value.field fs "test") maxTestBytes "reference.test"
  if hasKey fs "canonical" then
    let _ ← boundedText (Value.field fs "canonical") maxCandidateBytes "reference.canonical"
  reject (hasKey fs "entry_point" &&
      !((Value.field fs "entry_point").asStr?.any (isEntryPoint interp)))
    (valueError (str "reference.entry_point is not a safe Python identifier"))
  reject (!(hasKey fs "test" || hasKey fs "entry_point"))
    (valueError (str "reference must contain test or entry_point"))

/-- `float(timeout_seconds)`, within `(0, 30]`. -/
def validateTimeout (v : Value) : Except Exc ℚ := do
  let outside := valueError (str "timeout_seconds is outside the admitted range")
  let seconds ← match v with
    | .int n => do
      reject (2 ^ 1024 - 2 ^ 970 ≤ n.natAbs) ⟨"OverflowError", [], false⟩
      pure (n : ℚ)
    | .float q => pure q
    | _ => .error outside
  reject (!(0 < seconds && seconds ≤ 30)) outside
  return seconds

/-- What the driver uses of an admitted request. -/
structure Request where
  imageId : Str
  candidate : Str
  reference : Value
  timeoutSeconds : ℚ
  requestHash : Str

/-- `_validate_request`. -/
def validateRequest (request : Value) : Except Exc Request := do
  let fs ← orRaise request.asDict?
    (valueError (str "request schema is incomplete or has unknown fields"))
  reject (!(fs.all (·.1 ∈ requestKeys) && requestKeys.all (· ∈ fs.map (·.1))))
    (valueError (str "request schema is incomplete or has unknown fields"))
  reject (Value.field fs "schema" ≠ .str requestSchema ||
      Value.field fs "driver_version" ≠ .str driverVersion)
    (valueError (str "request schema or driver version mismatch"))
  let sourceHash ← orRaise (Value.field fs "driver_source_sha256").asStr?
    (valueError (str "invalid driver source hash"))
  reject (!isHash sourceHash) (valueError (str "invalid driver source hash"))
  reject (sourceHash ≠ str interp.sourceHash.text) (valueError (str "driver source hash mismatch"))
  let imageId ← orRaise (Value.field fs "image_id").asStr?
    (valueError (str "invalid immutable image ID"))
  reject (!isImageId imageId) (valueError (str "invalid immutable image ID"))
  let candidate ← boundedText (Value.field fs "candidate") maxCandidateBytes "candidate"
  validateReference interp (Value.field fs "reference")
  let seconds ← validateTimeout (Value.field fs "timeout_seconds")
  reject (!(Value.field fs "runtime_manifest").eqv runtimeManifest)
    (valueError (str "runtime manifest mismatch"))
  let supplied ← orRaise (Value.field fs "request_sha256").asStr?
    (valueError (str "invalid request hash"))
  reject (!isHash supplied) (valueError (str "invalid request hash"))
  let computed ← sha256Json interp (.dict (fs.filter fun f => f.1 ≠ str "request_sha256"))
  reject (str computed.text ≠ supplied) (valueError (str "request hash mismatch"))
  return ⟨imageId, candidate, Value.field fs "reference", seconds, supplied⟩

end

end Sandbox
end FlashNext
