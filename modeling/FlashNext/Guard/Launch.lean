import FlashNext.Guard.Ownership

/-!
# The launcher

`guard.run` creates one container, starts it, watches it and cleans up.  The watch loop has
no bound in the source; here it is watched for a given number of rounds, and a run that is
still in the loop then ends in `cut`.
-/

namespace FlashNext
namespace Guard

open Effect Posix Text Checkpoint

def cacheLockName : String := ".qwen38fn-launch.lock"

def pleBytes : Nat := 51200245760

/-- SIGTERM. -/
def sigterm : Nat := 15

/-- The command line, after `argparse`.  A deadline that is not finite has no value. -/
structure Args where
  image : String
  profile : String
  modelRoot : String
  cacheDir : String
  sources : String
  receipt : String
  receiptSha256 : String
  stateDir : String
  printOnly : Bool
  maxWatchSeconds : Option Decimal
  memAvailableFloorGib : Decimal

/-- `re.fullmatch(r"sha256:[0-9a-f]{64}", image)`. -/
def isImageId (image : String) : Bool :=
  image.toList.take 7 = "sha256:".toList && isHex 64 (String.ofList (image.toList.drop 7))

/-- `a - b < limit`, exactly. -/
def elapsedBelow (a b limit : Decimal) : Bool :=
  let low := min a.exp (min b.exp limit.exp)
  let scaled (d : Decimal) : Int := d.mant * 10 ^ (d.exp - low).toNat
  scaled a - scaled b < scaled limit

/-- `_mem_floor_kb`. -/
def memFloorKb (floorGib : Decimal) : Int :=
  if 0 ≤ floorGib.exp then floorGib.mant * 10 ^ floorGib.exp.toNat * 2 ^ 30 / 1024
  else floorGib.mant * 2 ^ 30 / 10 ^ (-floorGib.exp).toNat / 1024

/-- `build_docker_argv`. -/
def buildDockerArgv (image : String) (profile sources model cache state : PurePath)
    (expect : Expect) : List String :=
  ["create",
    "--cidfile", (state.child StateFile.cid.name).str,
    "--name", "qwen38fn-" ++ expect.nonce.text,
    "--label", ownerLabelKey ++ "=" ++ expect.nonce.text,
    "--label", labelProfile ++ "=" ++ expect.profileSha256.text,
    "--label", labelImage ++ "=" ++ image,
    "--gpus", "device=0",
    "--cpus", "14",
    "--memory", "112g",
    "--memory-swap", "112g",
    "--pids-limit", "2048",
    "--shm-size", "8g",
    "--cap-drop", "ALL",
    "--log-driver", "local",
    "--log-opt", "max-size=8m",
    "--log-opt", "max-file=3",
    "--security-opt", "no-new-privileges",
    "--read-only",
    "--publish", "127.0.0.1:30080:30000",
    "--mount", "type=bind,src=" ++ profile.str ++ ",dst=/work/profile.json,readonly",
    "--mount", "type=bind,src=" ++ sources.str ++ ",dst=/work/sources.json,readonly",
    "--mount", "type=bind,src=" ++ model.str ++ ",dst=/model,readonly",
    "--mount", "type=bind,src=" ++ cache.str ++ ",dst=/cache",
    "--tmpfs", "/tmp:rw,nosuid,nodev,size=4g,mode=1777",
    image,
    "--profile", "/work/profile.json",
    "--sources", "/work/sources.json"]

/-- `record[key] = value`. -/
def setItem (record : List (String × Json)) (key : String) (value : Json) :
    List (String × Json) :=
  match record with
  | [] => [(key, value)]
  | (k, v) :: rest => if k = key then (k, value) :: rest else (k, v) :: setItem rest key value

def optText (s : Option String) : Json := s.elim .null .str

section

variable (env : Env)

/-! ## Admission -/

/-- What the launcher knows once its arguments and documents are admitted. -/
structure Admitted where
  receiptPath : PurePath
  model : PurePath
  cache : PurePath
  state : PurePath
  sources : Json
  sourceRaw : Bytes
  inventory : Inventory
  profileRaw : Bytes
  built : Json
  expectedHash : Hex 64

def related (a b : PurePath) : Bool := a.isRelativeTo b || b.isRelativeTo a

/-- The part of `run` before anything is printed or changed. -/
def admitLaunch (args : Args) : GuardM Admitted := do
  Prog.require (isImageId args.image) (.launch "image must be an exact sha256 config ID")
  Prog.require (args.maxWatchSeconds.any fun d => 0 ≤ d.mant) (.launch "invalid watch deadline")
  let profilePath ← attempt (ask (.safePath args.profile false))
  let sourcePath ← attempt (ask (.safePath args.sources false))
  let receiptPath ← attempt (ask (.safePath args.receipt false))
  let model ← attempt (ask (.safePath args.modelRoot false))
  let cache ← attempt (ask (.safePath args.cacheDir true))
  let state ← attempt (ask (.safePath args.stateDir true))
  Prog.require (!(related state model || related state cache || related model cache))
    (.launch "state, model and cache must be disjoint")
  let (sources, sourceRaw) ← attempt (ask (.readJson .sources sourcePath))
  let inventory ← Prog.ofExcept (sourceInventory sources)
  let (_, profileRaw) ← attempt (ask (.readJson .profile profilePath))
  let built ← Prog.ofExcept (env.build profileRaw sources)
  let expectedHash ← Prog.ofExcept
    (requireHex (.str args.receiptSha256) 64 "verified receipt SHA256")
  return ⟨receiptPath, model, cache, state, sources, sourceRaw, inventory, profileRaw, built,
    expectedHash⟩

/-! ## The watch loop -/

/-- `rc = 128 + (interrupted["signal"] or signal.SIGTERM)`. -/
def setInterrupted : GuardM Unit := do
  let number ← ask .signal
  setRc (128 + number.getD sigterm)

/-- `type(value) is int and 0 <= value <= 255`. -/
def exitCodeOf (value : Json) : Except Exn Nat := do
  let code ← orRaise value.asInt? (.launch "invalid container exit code")
  reject (code < 0 || 255 < code) (.launch "invalid container exit code")
  return code.toNat

/-- The exit code of a container that has stopped running. -/
def observeExit (current : Json) : GuardM Unit := do
  let value ← Prog.ofExcept (current.get "ExitCode")
  let code ← Prog.ofExcept (exitCodeOf value)
  if code ≠ 0 then setRc code
  else do
    let oom ← Prog.ofExcept (current.get "OOMKilled")
    setRc (if oom.truthy then exitWatchdog else code)

/-- `type(available) is int and available >= 0`. -/
def knownMemory (available : Json) : Option Int :=
  available.asInt?.filter fun kb => 0 ≤ kb

/-- One sample of the memory goes to the telemetry. -/
def sampleMemory (cid : String) : GuardM (Option Int) := do
  let available ← attempt (ask .memAvailable)
  let now ← ask .time
  attempt (ask (.writeTelemetry (.obj [("time", .float now), ("cid", .str cid),
    ("mem_available_kb", (knownMemory available).elim .null .int)])))
  return knownMemory available

def deadlinePassed (args : Args) (start : Decimal) : GuardM Bool :=
  match args.maxWatchSeconds with
  | none => return false
  | some limit =>
    if limit.mant = 0 then return false
    else do
      let now ← ask .monotonic
      return !elapsedBelow now start limit

/-- The watch loop, for a number of rounds.  `low` counts the samples in a row that were
below the floor. -/
def watchLoop (args : Args) (expect : Expect) (cid : String) (start : Decimal) :
    Nat → Nat → GuardM Unit
  | 0, _ => .cut
  | rounds + 1, low => do
    let doc ← attempt (ask (.inspect .watch cid))
    let doc ← Prog.ofExcept (verifyOwnership doc expect cid)
    let state ← Prog.ofExcept (doc.get "State")
    let current := orEmpty state
    let running ← Prog.ofExcept (current.get "Running")
    if running = .bool false then observeExit current
    else do
      Prog.require (running = .bool true) (.launch "container running state unknown")
      let stop ← ask .eventIsSet
      if stop then setInterrupted
      else do
        let sample ← sampleMemory cid
        match sample with
        | none => setRc exitWatchdog
        | some available => do
          let floor := memFloorKb args.memAvailableFloorGib
          let low := if available < floor then low + 1 else 0
          if available < floor / 2 ∨ 5 ≤ low then setRc exitWatchdog
          else do
            let late ← deadlinePassed args start
            if late then setRc exitWatchdog
            else do
              attempt (ask .sleep)
              watchLoop args expect cid start rounds low

/-! ## Create, start and watch -/

def saveRecord : GuardM Unit := do
  let l ← ask .locals
  save .launchRecord (.obj l.record)

def setRecord (key : String) (value : Json) : GuardM Unit :=
  assign fun l => { l with record := setItem l.record key value }

def recheck (args : Args) (a : Admitted) : GuardM Json :=
  attempt (ask (.checkReceipt a.receiptPath args.receiptSha256 a.model a.sources))

/-- From the start of the container to the end of the watch. -/
def startAndWatch (args : Args) (a : Admitted) (expect : Expect) (cid : String) (rounds : Nat) :
    GuardM Unit := do
  setRc exitVerify
  let _ ← recheck args a
  setRc exitSpawn
  attempt (ask (.start cid))
  setRc exitWatchdog
  let start ← ask .monotonic
  attempt (ask .openTelemetry)
  (watchLoop args expect cid start rounds 0).finally_ (attempt (ask .closeTelemetry))

/-- `create` and the checks of what it returned. -/
def createContainer (a : Admitted) (expect : Expect) (command : List String) : GuardM String := do
  assign fun l => { l with createAttempted := true }
  let cid ← attempt (ask (.create command (a.state.child StateFile.cid.name).str))
  assign fun l => { l with cid := some cid }
  let _ ← Prog.ofExcept (requireHex (.str cid) 64 "container ID")
  setRecord "cid" (.str cid)
  saveRecord
  let doc ← attempt (ask (.inspect .created cid))
  let _ ← Prog.ofExcept (verifyOwnership doc expect cid)
  return cid

def spawn (args : Args) (a : Admitted) (expect : Expect) (command : List String)
    (rounds : Nat) : GuardM Unit := do
  let stop ← ask .eventIsSet
  if stop then setInterrupted
  else do
    let cid ← createContainer a expect command
    let stop ← ask .eventIsSet
    if stop then setInterrupted
    else startAndWatch args a expect cid rounds

/-- `except (OSError, ValueError, TransportError)` around the spawn. -/
def recordError (e : Exn) : GuardM Unit :=
  if e.handled then setRecord "error" (.str (String.ofList (e.text.toList.take 1500)))
  else .throw e

/-! ## Cleanup -/

/-- Characters that `str.strip` removes. -/
def isStripped (c : Char) : Bool :=
  c.toNat ∈ [0x09, 0x0a, 0x0b, 0x0c, 0x0d, 0x1c, 0x1d, 0x1e, 0x1f, 0x20, 0x85, 0xa0, 0x1680,
    0x2028, 0x2029, 0x202f, 0x205f, 0x3000] || (0x2000 ≤ c.toNat && c.toNat ≤ 0x200a)

def strip (s : String) : String :=
  String.ofList (((s.toList.dropWhile isStripped).reverse.dropWhile isStripped).reverse)

/-- `except (LaunchError, TransportError)` around the recovery by name. -/
def recordUnknown (e : Exn) : GuardM Unit :=
  match e with
  | .launch _ => setRecord "create_outcome" (.str "UNKNOWN")
  | .transport _ => setRecord "create_outcome" (.str "UNKNOWN")
  | e => .throw e

def recoverByName (expect : Expect) : GuardM Unit := do
  let doc ← attempt (ask (.inspect .recover ("qwen38fn-" ++ expect.nonce.text)))
  let id ← Prog.ofExcept (doc.get "Id")
  let candidate ← Prog.ofExcept (requireHex id 64 "recovered container ID")
  let _ ← Prog.ofExcept (verifyOwnership doc expect candidate.text)
  assign fun l => { l with cid := some candidate.text }

/-- Resolve an uncertain create from its cidfile or its name. -/
def resolveCreate (expect : Expect) : GuardM Unit := do
  let exists_ ← attempt (ask .cidfileExists)
  if exists_ then do
    let text ← attempt (ask .cidfileRead)
    assign fun l => { l with cid := some (strip text) }
  else (recoverByName expect).handle recordUnknown

/-- Stop the container and keep what it leaves. -/
def collect (expect : Expect) (cid : String) : GuardM Unit := do
  let _ ← Prog.ofExcept (requireHex (.str cid) 64 "cleanup container ID")
  let final ← stopOwned expect cid
  save .containerFinal final
  let text ← attempt (ask (.logs cid))
  attempt (ask (.writeText .serverLog text))

/-- `rc = rc or EXIT_CLEANUP`. -/
def rcOrCleanup : GuardM Unit :=
  assign fun l => { l with rc := if l.rc = 0 then exitCleanup else l.rc }

/-- `except (OSError, ValueError, TransportError)` around the collection. -/
def recordCleanupError (e : Exn) : GuardM Unit :=
  if e.handled then do
    setRecord "cleanup_error" (.str (String.ofList (e.text.toList.take 1500)))
    rcOrCleanup
  else .throw e

def resolveIfUncertain (expect : Expect) (l : Locals) : GuardM Unit :=
  if l.cid = none ∧ l.createAttempted = true then resolveCreate expect else return ()

def collectIfCreated (expect : Expect) (l : Locals) : GuardM Unit :=
  match l.cid with
  | none => return ()
  | some cid =>
    if cid = "" then return () else (collect expect cid).handle recordCleanupError

/-- The last entries of the launch record. -/
def finishRecord (l : Locals) : Locals :=
  { l with
    record := setItem (setItem (setItem l.record
      "status" (.str (if l.rc = 0 then "STOPPED" else "FAILED")))
      "exit_code" (.int l.rc)) "cid" (optText l.cid) }

/-- The `finally` block of the spawn. -/
def cleanup (expect : Expect) : GuardM Unit := do
  let l ← ask .locals
  resolveIfUncertain expect l
  let l ← ask .locals
  collectIfCreated expect l
  assign finishRecord
  saveRecord

/-! ## The whole run -/

/-- The record the launch starts with. -/
def startRecord (args : Args) (a : Admitted) (expect : Expect) (command : List String) :
    List (String × Json) :=
  [("nonce", .str expect.nonce.text), ("image", .str expect.image),
    ("profile_sha256", .str expect.profileSha256.text),
    ("source_sha256", .str (env.sha256 a.sourceRaw).text),
    ("receipt_sha256", .str a.expectedHash.text), ("model", .str modelId),
    ("model_sha", .str a.inventory.revision.text),
    ("mem_available_floor_gib", .float args.memAvailableFloorGib),
    ("argv", .arr (("docker" :: command).map .str)), ("status", .str "STARTING")]

/-- From the preflight to the files the container mounts. -/
def prepareLaunch (args : Args) (a : Admitted) : GuardM Unit := do
  setRc exitPreflight
  let findings ← attempt (ask (.preflight (a.inventory.files.list.map (·.size)).sum pleBytes
    a.model.str ((a.cache.child "ple").child a.inventory.revision.text).str))
  save .preflight findings
  let status ← Prog.ofExcept (findings.get "status")
  Prog.require (status.isText "PASS") (.launch "host preflight rejected")
  setRc exitVerify
  let _ ← recheck args a
  let image ← attempt (ask (.imageInspect args.image))
  let id ← Prog.ofExcept (image.get "Id")
  let architecture ← Prog.ofExcept (image.get "Architecture")
  let os ← Prog.ofExcept (image.get "Os")
  Prog.require (id.isText args.image && architecture.isText "arm64" && os.isText "linux")
    (.launch "image identity/platform mismatch")
  attempt (ask (.writeNew .profile a.profileRaw))
  attempt (ask (.writeNew .sources a.sourceRaw))

/-- What the container is expected to be, and the command that creates it. -/
def newEpoch (args : Args) (a : Admitted) : GuardM Expect := do
  let nonce ← ask .tokenHex
  return ⟨nonce, args.image, env.sha256 a.profileRaw⟩

def commandOf (args : Args) (a : Admitted) (expect : Expect) : List String :=
  buildDockerArgv args.image (a.state.child StateFile.profile.name)
    (a.state.child StateFile.sources.name) a.model a.cache a.state expect

/-- The body of `with lifetime_lock(cache)`. -/
def launch (args : Args) (a : Admitted) (rounds : Nat) : GuardM Unit := do
  prepareLaunch args a
  let expect ← newEpoch env args a
  let command := commandOf args a expect
  assign fun l => { l with record := startRecord env args a expect command }
  saveRecord
  setRc exitSpawn
  ((spawn args a expect command rounds).handle recordError).finally_ (cleanup expect)

/-- `lifetime_lock`. -/
def lifetimeLock (cache : PurePath) (inner : GuardM Unit) : GuardM Unit := do
  attempt (ask (.openLock (cache.child cacheLockName)))
  Prog.finally_ (do
    attempt (ask .flock)
    inner) (ask .closeLock)

/-- The `try` block of `run`: the early result of a run that only prints. -/
def body (args : Args) (rounds : Nat) : GuardM (Option Nat) := do
  let a ← admitLaunch env args
  if args.printOnly then do
    attempt (ask (.print (.obj [("status", .str "PLAN_ONLY"), ("server", a.built),
      ("image", .str args.image)])))
    return some 0
  else do
    let cacheDir ← attempt (ask (.isDir a.cache))
    Prog.require cacheDir (.launch "existing cache/model directories required")
    let modelDir ← attempt (ask (.isDir a.model))
    Prog.require modelDir (.launch "existing cache/model directories required")
    attempt (ask (.mkdir a.state))
    lifetimeLock a.cache (launch env args a rounds)
    return none

/-- The handlers of `run`. -/
def handleRun (e : Exn) : GuardM (Option Nat) :=
  match e with
  | .os true _ => do
    setRc exitLocked
    return none
  | e =>
    if e.handled then do
      rcOrCleanup
      ask (.report e)
      return none
    else .throw e

/-- `guard.run`: the exit code. -/
def run (args : Args) (rounds : Nat) : GuardM Nat := do
  let early ← (body env args rounds).handle handleRun
  let l ← ask .locals
  return early.getD l.rc

/-- The local variables before the `try` block. -/
def initialLocals : Locals where
  rc := exitUsage
  cid := none
  record := []
  createAttempted := false

def initialWorld : World := ⟨[], initialLocals⟩

end

end Guard
end FlashNext
