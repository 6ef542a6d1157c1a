import FlashNext.Checkpoint.Receipt
import FlashNext.Effect.Trace

/-!
# The calls of the launcher

`guard.run` and `guard_stop.main` reach Docker, the host and the file system through the
calls of `Op`.  The world may answer every call as it likes.  Where the launcher's own code
looks at files (`safePath`, `readJson`, `checkReceipt`) the world chooses only what the file
system shows and the answer is what that code makes of it.

The local variables that the handlers of `run` read are kept beside the trace and are
reached through `locals` and `assign`, which leave no event.
-/

namespace FlashNext
namespace Guard

open Effect Posix Text Checkpoint

def exitUsage : Nat := 2
def exitPreflight : Nat := 3
def exitVerify : Nat := 4
def exitSpawn : Nat := 5
def exitCleanup : Nat := 7
def exitWatchdog : Nat := 8
def exitLocked : Nat := 9

/-- The files of a state directory. -/
inductive StateFile where
  | preflight
  | profile
  | sources
  | cid
  | launchRecord
  | telemetry
  | containerFinal
  | serverLog
  deriving DecidableEq

def StateFile.name : StateFile → String
  | .preflight => "preflight.json"
  | .profile => "profile.json"
  | .sources => "sources.json"
  | .cid => "container.cid"
  | .launchRecord => "launch-record.json"
  | .telemetry => "telemetry.jsonl"
  | .containerFinal => "container.final.json"
  | .serverLog => "server.log"

/-- Where in the source a container is inspected. -/
inductive Site where
  /-- `run`, after `create`. -/
  | created
  /-- The watch loop. -/
  | watch
  /-- The recovery by name. -/
  | recover
  /-- The two inspections of `stop_owned`. -/
  | stopFirst
  | stopFinal
  deriving DecidableEq

/-- Which document a JSON file is read for. -/
inductive Document where
  | sources
  | profile
  | record
  deriving DecidableEq

/-- The local variables of `run` that its handlers read. -/
structure Locals where
  rc : Nat
  cid : Option String
  record : List (String × Json)
  createAttempted : Bool

inductive Op where
  | imageInspect (image : String)
  | create (argv : List String) (cidfile : String)
  | start (cid : String)
  | inspect (site : Site) (name : String)
  | stop (cid : String)
  | logs (cid : String)
  | preflight (modelBytes pleBytes : Nat) (modelRoot pleDir : String)
  | safePath (value : String) (directory : Bool)
  | readJson (document : Document) (path : PurePath)
  | checkReceipt (path : PurePath) (expectedHash : String) (modelRoot : PurePath) (sources : Json)
  | isDir (path : PurePath)
  | mkdir (state : PurePath)
  | openLock (path : PurePath)
  | flock
  | closeLock
  | writeTemp (file : StateFile) (value : Json)
  | replace (file : StateFile) (value : Json)
  | writeNew (file : StateFile) (raw : Bytes)
  | writeText (file : StateFile) (text : String)
  | openTelemetry
  | writeTelemetry (line : Json)
  | closeTelemetry
  | cidfileExists
  | cidfileRead
  | tokenHex
  | eventIsSet
  | signal
  | monotonic
  | time
  | memAvailable
  | sleep
  | print (value : Json)
  | report (error : Exn)
  | locals
  | assign (f : Locals → Locals)

@[reducible] def Ans : Op → Type
  | .imageInspect _ => Except Exn Json
  | .create _ _ => Except Exn String
  | .start _ => Except Exn Unit
  | .inspect _ _ => Except Exn Json
  | .stop _ => Except Exn Unit
  | .logs _ => Except Exn String
  | .preflight _ _ _ _ => Except Exn Json
  | .safePath _ _ => Except Exn PurePath
  | .readJson _ _ => Except Exn (Json × Bytes)
  | .checkReceipt _ _ _ _ => Except Exn Json
  | .isDir _ => Except Exn Bool
  | .mkdir _ => Except Exn Unit
  | .openLock _ => Except Exn Unit
  | .flock => Except Exn Unit
  | .closeLock => Unit
  | .writeTemp _ _ => Except Exn Unit
  | .replace _ _ => Except Exn Unit
  | .writeNew _ _ => Except Exn Unit
  | .writeText _ _ => Except Exn Unit
  | .openTelemetry => Except Exn Unit
  | .writeTelemetry _ => Except Exn Unit
  | .closeTelemetry => Except Exn Unit
  | .cidfileExists => Except Exn Bool
  | .cidfileRead => Except Exn String
  | .tokenHex => Hex 32
  | .eventIsSet => Bool
  | .signal => Option Nat
  | .monotonic => Decimal
  | .time => Decimal
  | .memAvailable => Except Exn Json
  | .sleep => Except Exn Unit
  | .print _ => Except Exn Unit
  | .report _ => Unit
  | .locals => Locals
  | .assign _ => Unit

/-- What the file system shows of one path argument. -/
structure Look where
  isSymlink : Except Exn Bool
  resolve : Except Exn PurePath
  home : PurePath

/-- `guard.safe_path`. -/
def safePath (value : String) (directory : Bool) (look : Look) : Except Exn PurePath := do
  let path := PurePath.ofString value
  reject (!path.isAbsolute || path.str.toList.any fun c => c ∈ ['\x00', '\n', '\r', ','])
    (.launch "paths must be absolute and contain no control/comma characters")
  let link ← look.isSymlink
  reject link (.launch "symlink/noncanonical path rejected")
  let real ← look.resolve
  reject (real ≠ path) (.launch "symlink/noncanonical path rejected")
  reject (directory && (path = .ofString "/" || path = look.home))
    (.launch "root/home cannot be a runtime state/cache directory")
  return path

/-- The functions the launcher takes from elsewhere: `json.loads` with its strict hooks,
SHA-256, and the profile module, which turns the bytes of a profile and the source lock
into a server command. -/
structure Env where
  loads : Bytes → Except Exn Json
  sha256 : Bytes → Hex 64
  build : Bytes → Json → Except Exn Json

variable (env : Env)

/-- What the world chooses when a call is made. -/
def In : Op → Type
  | .safePath _ _ => Look
  | .readJson _ _ => View
  | .checkReceipt _ _ _ _ => View
  | .locals => Unit
  | .assign _ => Unit
  | op => Ans op

def answer : (op : Op) → In op → Locals → Ans op
  | .safePath value directory, look, _ => safePath value directory look
  | .readJson _ path, view, _ => readJson env.loads view path
  | .checkReceipt path hash root sources, view, _ =>
    checkReceipt env.loads env.sha256 view path hash root sources
  | .locals, _, l => l
  | .assign _, _, _ => ()
  | .imageInspect _, a, _ => a
  | .create _ _, a, _ => a
  | .start _, a, _ => a
  | .inspect _ _, a, _ => a
  | .stop _, a, _ => a
  | .logs _, a, _ => a
  | .preflight _ _ _ _, a, _ => a
  | .isDir _, a, _ => a
  | .mkdir _, a, _ => a
  | .openLock _, a, _ => a
  | .flock, a, _ => a
  | .closeLock, a, _ => a
  | .writeTemp _ _, a, _ => a
  | .replace _ _, a, _ => a
  | .writeNew _ _, a, _ => a
  | .writeText _ _, a, _ => a
  | .openTelemetry, a, _ => a
  | .writeTelemetry _, a, _ => a
  | .closeTelemetry, a, _ => a
  | .cidfileExists, a, _ => a
  | .cidfileRead, a, _ => a
  | .tokenHex, a, _ => a
  | .eventIsSet, a, _ => a
  | .signal, a, _ => a
  | .monotonic, a, _ => a
  | .time, a, _ => a
  | .memAvailable, a, _ => a
  | .sleep, a, _ => a
  | .print _, a, _ => a
  | .report _, a, _ => a

def update : Op → Locals → Locals
  | .assign f, l => f l
  | _, l => l

def quiet : Op → Bool
  | .locals => true
  | .assign _ => true
  | _ => false

/-- The calls over the local variables, for the answers that `ok` admits. -/
def device (ok : (op : Op) → Ans op → Prop) : Sem Op Ans Locals where
  In := In
  allowed op i l := ok op (answer env op i l)
  step op i l := (answer env op i l, update op l)

abbrev World := Traced Op Ans Locals

abbrev Log := List (Event Op Ans)

def semantics (ok : (op : Op) → Ans op → Prop) : Sem Op Ans World := traced (device env ok) quiet

/-- Every answer is possible. -/
def anyAnswer : (op : Op) → Ans op → Prop := fun _ _ => True

instance (op : Op) (i : (semantics env anyAnswer).In op) (w : World) :
    Decidable ((semantics env anyAnswer).allowed op i w) := .isTrue trivial

abbrev GuardM := Prog Op Ans Exn

abbrev ask (op : Op) : GuardM (Ans op) := Prog.perform op

/-- A call that may raise. -/
def attempt {α : Type} (x : GuardM (Except Exn α)) : GuardM α := x >>= Prog.ofExcept

def assign (f : Locals → Locals) : GuardM Unit := ask (.assign f)

def setRc (rc : Nat) : GuardM Unit := assign fun l => { l with rc := rc }

/-- `_save`. -/
def save (file : StateFile) (value : Json) : GuardM Unit := do
  attempt (ask (.writeTemp file value))
  attempt (ask (.replace file value))

end Guard
end FlashNext
