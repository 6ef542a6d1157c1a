import FlashNext.Effect.Run
import FlashNext.Sandbox.Request

/-!
# The sandbox driver

`runCandidate` runs one candidate with its test and says how it ended; `main` turns that into
one receipt line.  The driver reaches the operating system through the calls of `Op`.  Its
loop has no bound in the source; here it goes round a given number of times, and a run that is
still in the loop then ends in `cut`.
-/

namespace FlashNext
namespace Sandbox

open Effect Text
open Py (Str Value str)

/-- The pipes of the candidate. -/
inductive Stream where
  | stdout
  | stderr
  | completion
  deriving DecidableEq

/-- `os.read(fd, 4096)`: bytes, `BlockingIOError`, or nothing (also for any other `OSError`). -/
inductive Reading where
  | chunk (bytes : Bytes)
  | blocked
  | ended
  deriving DecidableEq

inductive Op where
  /-- `sys.stdin.buffer.read(MAX_REQUEST_BYTES + 1)`. -/
  | readRequest
  /-- `os.pipe()`: the number of the descriptor to write to. -/
  | pipe
  | writeHarness (harness : Str)
  /-- `Popen`. -/
  | launch
  /-- The descriptor is closed and the three pipes are registered. -/
  | register
  | monotonic
  | children
  | poll
  | alive (pids : List Nat)
  | select (registered : List Stream)
  | read (stream : Stream)
  | terminate (pids : List Nat)
  /-- `proc.wait(timeout)`, or `none` when the time is up. -/
  | wait
  | emit (line : Bytes)

@[reducible] def Ans : Op → Type
  | .readRequest => Bytes
  | .pipe => Except Exc Nat
  | .writeHarness _ => Except Exc Unit
  | .launch => Except Exc Unit
  | .register => Except Exc Unit
  | .monotonic => ℚ
  | .children => List Nat
  | .poll => Option Int
  | .alive _ => List Nat
  | .select _ => Except Exc (List Stream)
  | .read _ => Reading
  | .terminate _ => Unit
  | .wait => Option Int
  | .emit _ => Unit

abbrev DriverM := Prog Op Ans Exc

abbrev ask (op : Op) : DriverM (Ans op) := Prog.perform op

def attempt {α : Type} (x : DriverM (Except Exc α)) : DriverM α := x >>= Prog.ofExcept

/-! ## The harness -/

/-- What is left of a text after `\s*`. -/
def skipSpace (s : Str) : Str := s.dropWhile Py.isSpace

/-- `check\s*\(\s*entry\s*\)` matches at the start of the text. -/
def checkCallAt (entry s : Str) : Bool :=
  let rest := skipSpace (s.drop 5)
  let argument := skipSpace (rest.drop 1)
  let after := skipSpace (argument.drop entry.length)
  (str "check").isPrefixOf s && rest.head? == some 40 && entry.isPrefixOf argument &&
    after.head? == some 41

/-- `re.search(rf"\bcheck\s*\(\s*{re.escape(entry)}\s*\)", text)`, after the character before. -/
def callsCheck (isWord : Nat → Bool) (entry : Str) (before : Option Nat) : Str → Bool
  | [] => false
  | c :: s => (!before.any isWord && checkCallAt entry (c :: s)) ||
    callsCheck isWord entry (some c) s

/-- `repr(COMPLETION_MARKER)`. -/
def markerLiteral : Str := str "b'Q200-CANDIDATE-COMPLETE\\n'"

/-- The program without its epilogue. -/
def harnessBody (interp : Interp) (candidate : Str) (test entry : Value) : Str :=
  match test.asStr?.filter fun text => !(Py.strip text).isEmpty, entry.asStr? with
  | some text, some name =>
    candidate ++ str "\n" ++ text ++ str "\n" ++
      if !name.isEmpty && !callsCheck interp.isWord name none text then
        str "check(" ++ name ++ str ")\n"
      else []
  | some text, none => candidate ++ str "\n" ++ text ++ str "\n"
  | none, some name =>
    if name.isEmpty then candidate
    else candidate ++ str "\nassert callable(" ++ name ++ str ")\n"
  | none, none => candidate

/-- The trusted end of the program: it sends the marker over the descriptor. -/
def epilogue (descriptor : Nat) : Str :=
  str "\nimport os as __q200_os\n" ++
    str "__q200_os.write(" ++ str (toString descriptor) ++ str ", " ++ markerLiteral ++ str ")\n" ++
    str "__q200_os.close(" ++ str (toString descriptor) ++ str ")\n"

/-! ## The run of a candidate -/

inductive Status where
  | ok
  | timeout
  | outputLimit
  | failed
  | oom
  | graderError
  deriving DecidableEq

def Status.text : Status → String
  | .ok => "ok"
  | .timeout => "timeout"
  | .outputLimit => "output_limit"
  | .failed => "failed"
  | .oom => "oom"
  | .graderError => "grader_error"

/-- The last bytes of what a stream carried, and how many there were. -/
structure Tail where
  bytes : Bytes
  count : Nat

/-- `_tail_append`. -/
def Tail.append (tail : Tail) (chunk : Bytes) : Tail where
  bytes := (tail.bytes ++ chunk).drop ((tail.bytes ++ chunk).length - maxOutputTailBytes)
  count := tail.count + chunk.length

/-- The local variables of `_run_candidate` from the launch on. -/
structure Locals where
  owned : List Nat
  stdout : Tail
  stderr : Tail
  completion : Bytes
  status : Status
  reason : String
  registered : List Stream
  deadline : ℚ
  pipeDeadline : Option ℚ
  /-- An exception of the loop. -/
  fault : Option Exc

def Locals.start (deadline : ℚ) : Locals :=
  ⟨[], ⟨[], 0⟩, ⟨[], 0⟩, [], .ok, "", [.stdout, .stderr, .completion], deadline, none, none⟩

def Locals.fail (l : Locals) (status : Status) (reason : String) : Locals :=
  { l with status := status, reason := reason }

def Locals.unregister (l : Locals) (stream : Stream) : Locals :=
  { l with registered := l.registered.filter (· ≠ stream) }

/-- The chunk goes to its tail, or to the marker. -/
def Locals.store (l : Locals) (stream : Stream) (chunk : Bytes) : Locals :=
  match stream with
  | .stdout => { l with stdout := l.stdout.append chunk }
  | .stderr => { l with stderr := l.stderr.append chunk }
  | .completion => { l with completion := l.completion ++ chunk }

@[simp] theorem store_status (l : Locals) (stream : Stream) (chunk : Bytes) :
    (l.store stream chunk).status = l.status := by
  cases l
  cases stream <;> rfl

@[simp] theorem store_registered (l : Locals) (stream : Stream) (chunk : Bytes) :
    (l.store stream chunk).registered = l.registered := by
  cases l
  cases stream <;> rfl

@[simp] theorem store_owned (l : Locals) (stream : Stream) (chunk : Bytes) :
    (l.store stream chunk).owned = l.owned := by
  cases l
  cases stream <;> rfl

@[simp] theorem store_deadline (l : Locals) (stream : Stream) (chunk : Bytes) :
    (l.store stream chunk).deadline = l.deadline := by
  cases l
  cases stream <;> rfl

@[simp] theorem store_pipeDeadline (l : Locals) (stream : Stream) (chunk : Bytes) :
    (l.store stream chunk).pipeDeadline = l.pipeDeadline := by
  cases l
  cases stream <;> rfl

@[simp] theorem store_fault (l : Locals) (stream : Stream) (chunk : Bytes) :
    (l.store stream chunk).fault = l.fault := by
  cases l
  cases stream <;> rfl

@[simp] theorem store_stdout (l : Locals) (stream : Stream) (chunk : Bytes) :
    (l.store stream chunk).stdout =
      if stream = .stdout then l.stdout.append chunk else l.stdout := by
  cases l
  cases stream <;> rfl

@[simp] theorem store_stderr (l : Locals) (stream : Stream) (chunk : Bytes) :
    (l.store stream chunk).stderr =
      if stream = .stderr then l.stderr.append chunk else l.stderr := by
  cases l
  cases stream <;> rfl

@[simp] theorem store_completion (l : Locals) (stream : Stream) (chunk : Bytes) :
    (l.store stream chunk).completion =
      if stream = .completion then l.completion ++ chunk else l.completion := by
  cases l
  cases stream <;> rfl

/-- The stream has carried more than it may. -/
def Locals.exceeds (l : Locals) : Stream → Bool
  | .stdout => maxOutputBytes < l.stdout.count
  | .stderr => maxOutputBytes < l.stderr.count
  | .completion => false

def limitReason : Stream → String
  | .stdout => "candidate stdout exceeded live bound"
  | .stderr => "candidate stderr exceeded live bound"
  | .completion => ""

/-- One ready stream. -/
def drain (stream : Stream) (l : Locals) : DriverM Locals := do
  let reading ← ask (.read stream)
  match reading with
  | .blocked => return l
  | .ended => return l.unregister stream
  | .chunk bytes =>
    let l := l.store stream bytes
    if l.exceeds stream && l.status = .ok then do
      ask (.terminate l.owned)
      return l.fail .outputLimit (limitReason stream)
    else return l

def drainAll : List Stream → Locals → DriverM Locals
  | [], l => return l
  | stream :: streams, l => do
    let l ← drain stream l
    drainAll streams l

/-- `PIPE_SETTLE_SECONDS`. -/
def pipeSettle : ℚ := 1 / 5

def union (xs ys : List Nat) : List Nat := xs ++ ys.filter (· ∉ xs)

/-- The end of the wait for the pipes. -/
def settle (l : Locals) : DriverM Locals := do
  let live ← ask (.alive l.owned)
  if !live.isEmpty || l.registered.any fun s => s = .stdout || s = .stderr then do
    ask (.terminate l.owned)
    return l.fail .failed "retained candidate process or pipe"
  else return l

/-- The select, the ready streams and the end of the round. -/
def pump (again : Locals → DriverM Locals) (l : Locals) : DriverM Locals := do
  let ready ← ask (.select l.registered)
  match ready with
  | .error e => return { l with fault := some e }
  | .ok streams => do
    let l ← drainAll streams l
    if l.status = .outputLimit then return l
    else do
      let code ← ask .poll
      if code.isSome && l.registered.isEmpty then return l
      else again l

/-- A round after its clock was read and the timeout was not met. -/
def round (again : Locals → DriverM Locals) (now : ℚ) (l : Locals) : DriverM Locals := do
  let code ← ask .poll
  let l := if code.isSome && l.pipeDeadline.isNone then
    { l with pipeDeadline := some (now + pipeSettle) } else l
  if l.pipeDeadline.any fun deadline => deadline ≤ now then settle l else pump again l

/-- The `while` loop, for a number of rounds. -/
def watch : Nat → Locals → DriverM Locals
  | 0, _ => .cut
  | rounds + 1, l => do
    let now ← ask .monotonic
    let kids ← ask .children
    let l := { l with owned := union l.owned kids }
    if l.deadline ≤ now then do
      let code ← ask .poll
      if code.isNone then do
        ask (.terminate l.owned)
        return l.fail .timeout "candidate wall-time limit exceeded"
      else round (watch rounds) now l
    else round (watch rounds) now l

structure RunResult where
  status : Status
  returncode : Option Int
  stdoutBytes : Nat
  stderrBytes : Nat
  stdoutTail : Str
  stderrTail : Str
  reason : String

def RunResult.passed (r : RunResult) : Bool := r.status = .ok

def RunResult.failureClass (r : RunResult) : Option String :=
  match r.status with
  | .ok => none
  | .graderError => some "HARNESS_BLOCK"
  | _ => some "MODEL_REJECT"

def Locals.result (l : Locals) (returncode : Option Int) : RunResult where
  status := l.status
  returncode := returncode
  stdoutBytes := l.stdout.count
  stderrBytes := l.stderr.count
  stdoutTail := decodeReplace l.stdout.bytes
  stderrTail := decodeReplace l.stderr.bytes
  reason := l.reason

/-- The verdict on a candidate that is neither late nor too loud. -/
def Locals.judge (l : Locals) (returncode : Option Int) : Locals :=
  if l.status ≠ .ok then l
  else if returncode ≠ some 0 then
    l.fail (if returncode = some (-9) ∨ returncode = some 137 then .oom else .failed)
      "candidate exited unsuccessfully"
  else if l.completion ≠ completionMarker then
    l.fail .failed "candidate did not reach the trusted completion marker"
  else l

/-- `proc.returncode` once the process was waited for. -/
def awaitExit (l : Locals) : DriverM (Option Int) := do
  let code ← ask .poll
  match code with
  | some code => return some code
  | none => do
    let code ← ask .wait
    match code with
    | some code => return some code
    | none => do
      ask (.terminate l.owned)
      ask .poll

/-- `except (OSError, subprocess.SubprocessError)`. -/
def blame (l : Locals) (e : Exc) (returncode : Option Int) : DriverM RunResult :=
  if e.ofSupervisor then
    let l := { l with
      status := .graderError, reason := "candidate supervisor error: " ++ e.kind }
    return l.result returncode
  else .throw e

/-- From the launch to the end of the loop. -/
def supervise (timeout : ℚ) (rounds : Nat) : DriverM Locals := do
  let registered ← ask .register
  match registered with
  | .error e => return { Locals.start timeout with fault := some e }
  | .ok _ => do
    let start ← ask .monotonic
    watch rounds (Locals.start (start + timeout))

/-- `_run_candidate`. -/
def runCandidate (interp : Interp) (candidate : Str) (reference : Value) (timeout : ℚ)
    (rounds : Nat) : DriverM RunResult := do
  let fs := (reference.asDict?).getD []
  let body := harnessBody interp candidate (Value.field fs "test") (Value.field fs "entry_point")
  let descriptor ← attempt (ask .pipe)
  attempt (ask (.writeHarness (body ++ epilogue descriptor)))
  let launched ← ask .launch
  match launched with
  | .error e => blame (Locals.start timeout) e none
  | .ok _ => do
    let l ← supervise timeout rounds
    match l.fault with
    | some e => do
      ask (.terminate l.owned)
      let code ← ask .poll
      blame l e code
    | none => do
      let code ← awaitExit l
      return (l.judge code).result code

/-! ## The receipt -/

def optText (s : Option String) : Value := s.elim .none fun text => .str (str text)

/-- `sha256(_canonical(RUNTIME_MANIFEST))`. -/
def manifestHash (interp : Interp) : Except Exc (Hex 64) := sha256Json interp runtimeManifest

/-- The receipt of a candidate that was run. -/
def receiptOf (request : Request) (sourceHash candidateHash referenceHash manifestHash : Hex 64)
    (r : RunResult) : Value := .dict
  [(str "schema", .str receiptSchema),
    (str "driver_version", .str driverVersion),
    (str "driver_source_sha256", .str (str sourceHash.text)),
    (str "image_id", .str request.imageId),
    (str "request_sha256", .str request.requestHash),
    (str "candidate_sha256", .str (str candidateHash.text)),
    (str "reference_sha256", .str (str referenceHash.text)),
    (str "runtime_manifest_sha256", .str (str manifestHash.text)),
    (str "runtime_manifest", runtimeManifest),
    (str "status", .str (str r.status.text)),
    (str "passed", .bool r.passed),
    (str "failure_class", optText r.failureClass),
    (str "returncode", r.returncode.elim .none .int),
    (str "stdout_bytes", .int r.stdoutBytes),
    (str "stderr_bytes", .int r.stderrBytes),
    (str "stdout_tail", .str r.stdoutTail),
    (str "stderr_tail", .str r.stderrTail),
    (str "reason", .str (str r.reason)),
    (str "stdin_isolated", .bool true)]

/-- `_error_receipt`. -/
def errorReceipt (manifestHash : Hex 64) (reason : Str) : Value := .dict
  [(str "schema", .str receiptSchema),
    (str "driver_version", .str driverVersion),
    (str "driver_source_sha256", .str []),
    (str "image_id", .str []),
    (str "request_sha256", .str []),
    (str "candidate_sha256", .str []),
    (str "reference_sha256", .str []),
    (str "runtime_manifest_sha256", .str (str manifestHash.text)),
    (str "runtime_manifest", runtimeManifest),
    (str "status", .str (str "grader_error")),
    (str "passed", .none),
    (str "failure_class", .str (str "HARNESS_BLOCK")),
    (str "returncode", .none),
    (str "stdout_bytes", .int 0),
    (str "stderr_bytes", .int 0),
    (str "stdout_tail", .str []),
    (str "stderr_tail", .str []),
    (str "reason", .str (reason.take 256)),
    (str "stdin_isolated", .bool true)]

section

variable (interp : Interp)

/-- The `try` block of `main` up to the run. -/
def admitRequest (raw : Bytes) : Except Exc Request := do
  reject (maxRequestBytes < raw.length) (valueError (str "request exceeds byte bound"))
  let request ← interp.loads raw
  validateRequest interp request

/-- The receipt of an admitted request. -/
def assemble (request : Request) (r : RunResult) : Except Exc Value := do
  let referenceHash ← sha256Json interp request.reference
  let manifestHash ← manifestHash interp
  return receiptOf request interp.sourceHash (interp.sha256 (Py.encodeUtf8 request.candidate))
    referenceHash manifestHash r

def runRequest (raw : Bytes) (rounds : Nat) : DriverM Value := do
  let request ← Prog.ofExcept (admitRequest interp raw)
  let r ← runCandidate interp request.candidate request.reference request.timeoutSeconds rounds
  Prog.ofExcept (assemble interp request r)

/-- The line of a receipt, or of the error receipt where it is too long. -/
def bounded (receipt : Value) : Except Exc Value := do
  let output ← canonical interp receipt
  let hash ← manifestHash interp
  if maxReceiptBytes < output.length + 1 then
    return errorReceipt hash (str "receipt exceeded bounded protocol size")
  else return receipt

/-- `except Exception` around the request. -/
def refuse (e : Exc) : DriverM Value := do
  let hash ← Prog.ofExcept (manifestHash interp)
  return errorReceipt hash (str "driver validation failed: " ++ str e.kind)

/-- `main`: the receipt whose line it writes. -/
def main (rounds : Nat) : DriverM Value := do
  let raw ← ask .readRequest
  let receipt ← (runRequest interp raw rounds).handle (refuse interp)
  let receipt ← Prog.ofExcept (bounded interp receipt)
  let line ← Prog.ofExcept (canonical interp receipt)
  ask (.emit (line ++ [10]))
  return receipt

end

end Sandbox
end FlashNext
