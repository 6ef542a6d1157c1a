import FlashNext.Compare.Number
import FlashNext.Ple.Build
import FlashNext.Preflight.Mounts
import Mathlib.Algebra.Order.Monoid.WithTop

/-!
# Admission of the host

`runPreflight` records one check after another and passes when each one passed.  A check that is not
recorded cannot fail: without a target nothing is charged, and no filesystem is looked at
(`pass_admitted`, `pass_without_target`).
-/

namespace FlashNext
namespace Preflight

open Compare (Double roundHalfEven)
open Py (Str str)

/-! ## The host, as the probes see it -/

structure Gpu where
  index : Int
  name : Str
  utilizationPercent : Double
  memoryUsedMib : Option Double

structure GpuState where
  gpus : List Gpu
  /-- The process names of the compute apps. -/
  computeApps : List Str

/-- What `os.statvfs` tells of a filesystem. -/
structure Vfs where
  bavail : Nat
  frsize : Nat

inductive Statvfs where
  | found (st : Vfs)
  | notFound
  | failed

/-- What `os.scandir` does. -/
inductive Scan (α : Type) where
  | gone
  | unreadable
  | entries (nodes : List α)

/-- What a scan meets. -/
inductive Node where
  | symlink
  | dir (scan : Scan Node)
  | file (dev ino blocks size : Nat)
  | other
  | failed

/-- What the probes of one run answer. -/
structure Host where
  cwd : Str
  machine : Str
  meminfo : Option (List (Str × Int))
  gpu : Option GpuState
  statvfs : Str → Statvfs
  mountinfo : Option (List MountEntry)
  scandir : Str → Scan Node

structure Request where
  phase : Str
  modelBytes : Int
  pleBytes : Int
  modelRoot : Option Str
  pleDir : Option Str
  buildRoot : Option Str
  buildAllowanceGib : Double
  machine : Option Str

def gib : ℚ := 1024 ^ 3

def ramAvailableMinGib : ℚ := 104

def diskReserveGib : ℚ := 32

def gpuIdleMemoryMibMax : ℚ := 256

def preflightPass : Str := str "PASS"

def preflightFail : Str := str "FAIL"

def archExpected : Str := str "aarch64"

/-- `REJECT_FILESYSTEMS`. -/
def rejectFilesystems : List Str :=
  ["fuse", "fuseblk", "nfs", "nfs4", "cifs", "smbfs", "sshfs", "nfsd", "9p"].map str

/-! ## Filesystems -/

structure Identity where
  fstype : Option Str
  source : Option Str
  known : Bool
  freeBytes : Option Nat

/-- The loop over the parents of the probe, for as many of them as its text may have. -/
def statUp (statvfs : Str → Statvfs) : Nat → Str → Option Vfs
  | 0, _ => none
  | fuel + 1, probe =>
    match statvfs probe with
    | .found st => some st
    | .failed => none
    | .notFound =>
      if Ple.dirname probe = probe then none else statUp statvfs fuel (Ple.dirname probe)

theorem dirname_stem (path : Str) : Ple.dirname path <+: path := by
  have hstem : ∀ (drop : Nat → Bool) (s : Str), (s.reverse.dropWhile drop).reverse <+: s := by
    intro drop s
    rw [← List.reverse_suffix, List.reverse_reverse]
    exact List.dropWhile_suffix drop
  unfold Ple.dirname
  dsimp only
  split
  · exact hstem _ path
  · exact (hstem _ _).trans (hstem _ path)

theorem statUp_succ (statvfs : Str → Statvfs) (fuel : Nat) (probe : Str) :
    statUp statvfs (fuel + 1) probe = match statvfs probe with
      | .found st => some st
      | .failed => none
      | .notFound =>
        if Ple.dirname probe = probe then none else statUp statvfs fuel (Ple.dirname probe) := rfl

/-- The loop ends at the root before the fuel does. -/
theorem statUp_fuel {statvfs : Str → Statvfs} {fuel : Nat} {probe : Str}
    (h : probe.length < fuel) : statUp statvfs (fuel + 1) probe = statUp statvfs fuel probe := by
  induction fuel generalizing probe with
  | zero => exact absurd h (Nat.not_lt_zero _)
  | succ fuel ih =>
    rw [statUp_succ statvfs (fuel + 1) probe, statUp_succ statvfs fuel probe]
    cases statvfs probe with
    | found st => rfl
    | failed => rfl
    | notFound =>
      by_cases hroot : Ple.dirname probe = probe
      · rw [if_pos hroot, if_pos hroot]
      · have hshorter : (Ple.dirname probe).length < probe.length := by
          apply Nat.lt_of_le_of_ne (dirname_stem probe).length_le
          exact fun hlength => hroot ((dirname_stem probe).eq_of_length hlength)
        rw [if_neg hroot, if_neg hroot]
        exact ih (by omega)

/-- `_fs_identity`. -/
def fsIdentity (h : Host) (mounts : List MountEntry) (target : Str) : Identity :=
  match mountFor h.cwd target mounts with
  | none => { fstype := none, source := none, known := false, freeBytes := none }
  | some entry =>
    let probe := Py.abspath h.cwd target
    match statUp h.statvfs (probe.length + 1) probe with
    | some st =>
      { fstype := some entry.fstype, source := some entry.source, known := true,
        freeBytes := some (st.bavail * st.frsize) }
    | none =>
      { fstype := some entry.fstype, source := some entry.source, known := false,
        freeBytes := none }

/-- One round over the entries of a directory: the files are added up, by their inode once. -/
def addEntries (allocated : Bool) : List Node → List (Nat × Nat) → Nat →
    Option (List (Nat × Nat) × Nat)
  | [], seen, total => some (seen, total)
  | .failed :: _, _, _ => none
  | .file dev ino blocks size :: nodes, seen, total =>
    if (dev, ino) ∈ seen then addEntries allocated nodes seen total
    else addEntries allocated nodes ((dev, ino) :: seen)
      (total + if allocated then blocks * 512 else size)
  | _ :: nodes, seen, total => addEntries allocated nodes seen total

/-- The directories of a listing, in the order in which they are pushed. -/
def subdirs : List Node → List (Scan Node)
  | [] => []
  | .dir scan :: nodes => scan :: subdirs nodes
  | _ :: nodes => subdirs nodes

theorem sizeOf_subdirs (nodes : List Node) (stack : List (Scan Node)) :
    sizeOf ((subdirs nodes).reverse ++ stack) ≤ sizeOf nodes + sizeOf stack := by
  induction nodes generalizing stack with
  | nil =>
    show sizeOf stack ≤ _
    omega
  | cons node nodes ih =>
    cases node with
    | dir scan =>
      have hnext := ih (scan :: stack)
      simp only [List.cons.sizeOf_spec] at hnext
      simp only [subdirs, List.reverse_cons, List.append_assoc, List.singleton_append,
        List.cons.sizeOf_spec, Node.dir.sizeOf_spec]
      omega
    | symlink | file | other | failed =>
      have hnext := ih stack
      simp only [subdirs, List.cons.sizeOf_spec]
      omega

/-- The loop over the stack of directories, the next one in front. -/
def presentLoop (allocated : Bool) : List (Scan Node) → List (Nat × Nat) → Nat → Option Nat
  | [], _, total => some total
  | .gone :: stack, seen, total => presentLoop allocated stack seen total
  | .unreadable :: _, _, _ => none
  | .entries nodes :: stack, seen, total =>
    match addEntries allocated nodes seen total with
    | none => none
    | some (seen', total') =>
      presentLoop allocated ((subdirs nodes).reverse ++ stack) seen' total'
termination_by stack => sizeOf stack
decreasing_by
  · simp only [List.cons.sizeOf_spec]
    omega
  · have := sizeOf_subdirs nodes stack
    simp only [List.cons.sizeOf_spec, Scan.entries.sizeOf_spec]
    omega

/-- `_present_bytes`. -/
def presentBytes (h : Host) (allocated : Bool) (root : Option Str) : Option Nat :=
  match root with
  | none => some 0
  | some root => if root = [] then some 0 else presentLoop allocated [h.scandir root] [] 0

/-! ## Checks -/

/-- What a detail is put together from. -/
inductive Piece where
  | text (s : String)
  | repr (s : Option Str)
  | names (ns : List Str)
  | labels (ls : List String)
  | count (n : Nat)
  | flag (b : Bool)
  | number (x : Option Double)
  | tenths (q : WithTop ℚ)

inductive Status where
  | pass
  | fail
  | unknown
  deriving DecidableEq

structure Check where
  name : Str
  status : Status
  detail : List Piece

/-- `_add_check`. -/
def check (name : Str) (ok : Bool) (detail : List Piece) (known : Bool) : Check where
  name := name
  status := if known then if ok then .pass else .fail else .unknown
  detail := detail

theorem check_pass_iff {name : Str} {ok known : Bool} {detail : List Piece} :
    (check name ok detail known).status = .pass ↔ known = true ∧ ok = true := by
  cases known <;> cases ok <;> simp [check]

def archCheck (arch : Str) : Check :=
  check (str "arch") (arch = archExpected)
    [.text "machine=", .repr (some arch), .text " expected ", .repr (some archExpected)]
    (arch != [])

def ramCheck (meminfo : Option (List (Str × Int))) : Check :=
  match meminfo.bind fun fields => fields.lookup (str "MemAvailable") with
  | none => check (str "ram_available") false [.text "MemAvailable unknown — failing closed"] false
  | some kb =>
    let availableGib : ℚ := kb * 1024 / gib
    check (str "ram_available") (ramAvailableMinGib ≤ availableGib)
      [.text "MemAvailable=", .tenths availableGib, .text " GiB required>=",
        .tenths ramAvailableMinGib, .text " GiB"] true

/-- `utilization_percent == 0.0 and (used is None or …)`. -/
def Gpu.idle (g : Gpu) : Bool :=
  (match g.utilizationPercent with
    | .finite q => q = 0
    | .nonfinite _ => false) &&
  match g.memoryUsedMib with
  | none => true
  | some (.finite used) => used ≤ gpuIdleMemoryMibMax
  | some (.nonfinite _) => false

def Gpu.isGb10 (g : Gpu) : Bool := g.index = 0 && (g.name = str "GB10" || g.name = str "NVIDIA GB10")

def inventoryCheck (gpus : List Gpu) : Check :=
  check (str "gpu_inventory")
    (match gpus with
      | [g] => g.isGb10
      | _ => false)
    [.text "found ", .count gpus.length, .text " GPU(s), need exactly 1: ",
      .names (gpus.map (·.name))] true

def idleCheck : List Gpu → Check
  | [] => check (str "gpu_idle") false [.text "no GPU present"] true
  | g :: _ => check (str "gpu_idle") g.idle
      [.text "utilization=", .number g.utilizationPercent, .text "% memory_used_mib=",
        .number g.memoryUsedMib, .text " (UMA RAM checked separately)"] true

def appsCheck (apps : List Str) : Check :=
  check (str "gpu_compute_apps") apps.isEmpty
    [.text "compute apps: ", if apps = [] then .text "none" else .names apps,
      .text " (graphics/Xorg allowed)"] true

def gpuChecks : Option GpuState → List Check
  | none =>
    [check (str "gpu_inventory") false [.text "GPU inventory unknown — failing closed"] false,
      check (str "gpu_idle") false [.text "GPU state unknown — failing closed"] false,
      check (str "gpu_compute_apps") false [.text "compute apps unknown — failing closed"] false]
  | some state =>
    [inventoryCheck state.gpus, idleCheck state.gpus, appsCheck state.computeApps]

/-! ## Charges -/

structure Row where
  target : Str
  fstype : Option Str
  source : Option Str
  known : Bool
  freeBytes : Option Nat
  requiredBytes : WithTop ℚ
  charges : List (String × WithTop ℚ)

/-- `(source, fstype)`. -/
def Row.key (row : Row) : Option Str × Option Str := (row.source, row.fstype)

/-- `round(gib, 3)`. -/
def roundThousandths (q : ℚ) : ℚ := roundHalfEven (q * 1000) / 1000

def Row.add (label : String) (amount : WithTop ℚ) (row : Row) : Row :=
  { row with
    requiredBytes := row.requiredBytes + amount.map (· * gib)
    charges := row.charges ++ [(label, amount.map roundThousandths)] }

def Identity.row (identity : Identity) (target : Str) : Row where
  target := target
  fstype := identity.fstype
  source := identity.source
  known := identity.known
  freeBytes := identity.freeBytes
  requiredBytes := 0
  charges := []

/-- `allowances.setdefault(key, row)`. -/
def setDefault (row : Row) (rows : List Row) : List Row :=
  if rows.any fun r => r.key = row.key then rows else rows ++ [row]

/-- `_charge`. -/
def charge (h : Host) (mounts : List MountEntry) (target : Option Str) (rows : List Row)
    (item : String × WithTop ℚ) : List Row :=
  match target with
  | none => rows
  | some target =>
    if target = [] ∨ item.2 ≤ 0 then rows
    else
      let row := (fsIdentity h mounts target).row target
      (setDefault row rows).map fun r => if r.key = row.key then r.add item.1 item.2 else r

/-- `build_allowance_gib if build_allowance_gib > 0 else 0.0`. -/
def allowance : Double → WithTop ℚ
  | .finite q => if 0 < q then q else 0
  | .nonfinite .inf => ⊤
  | .nonfinite _ => 0

/-- `max(0, …) / GIB`. -/
def missingGib (bytes : Int) (present : Nat) : ℚ := ((max 0 (bytes - present) : Int) : ℚ) / gib

/-- What is charged in the phase, and to which target. -/
def Request.target (r : Request) : Option Str :=
  if r.phase = str "build" then r.buildRoot else r.pleDir

def Request.charges (r : Request) (modelPresent plePresent : Nat) : List (String × WithTop ℚ) :=
  if r.phase = str "build" then
    [("model_missing", missingGib r.modelBytes modelPresent),
      ("ple_missing", missingGib r.pleBytes plePresent),
      ("build_allowance", allowance r.buildAllowanceGib), ("reserve", diskReserveGib)]
  else [("ple_missing", missingGib r.pleBytes plePresent), ("reserve", diskReserveGib)]

/-- `str(row["source"])`. -/
def textOf (s : Option Str) : Str := s.getD (str "None")

def diskRows (h : Host) (r : Request) (mounts : List MountEntry) (modelPresent plePresent : Nat) :
    List Row :=
  ((r.charges modelPresent plePresent).foldl (charge h mounts r.target) []).insertionSort
    fun a b => textOf a.source ≤ textOf b.source

def Row.enough (row : Row) : Bool :=
  row.known && match row.freeBytes with
    | none => false
    | some free => row.requiredBytes ≤ ((free : ℚ) : WithTop ℚ)

def diskCheck (row : Row) : Check :=
  check (str "disk[" ++ textOf row.fstype ++ 32 :: textOf row.source ++ str "]") row.enough
    [.text "free=", .tenths ((row.freeBytes.getD 0 : Nat) / gib : ℚ), .text " GiB required=",
      .tenths (row.requiredBytes.map (· / gib)), .text " GiB (", .labels (row.charges.map (·.1)),
      .text ") known=", .flag row.known] row.known

/-- The type is one of those that are never acceptable, or `fuse.` and a name. -/
def rejected (fstype : Str) : Bool := fstype ∈ rejectFilesystems || (str "fuse.").isPrefixOf fstype

def rejectChecks (rows : List Row) : List Check :=
  (rows.filter fun row => rejected (textOf row.fstype)).map fun row =>
    check (str "local_nvme[" ++ textOf row.source ++ str "]") false
      [.text "filesystem ", .repr row.fstype, .text " is not local NVMe (FUSE/NFS rejected)"] true

/-- The rows of the filesystems, and what is recorded of them. -/
def diskChecks (h : Host) (r : Request) : List Row × List Check :=
  match h.mountinfo with
  | none =>
    ([], [check (str "filesystems") false [.text "mountinfo unreadable — failing closed"] false])
  | some mounts =>
    match presentBytes h false r.modelRoot, presentBytes h true r.pleDir with
    | some modelPresent, some plePresent =>
      let rows := diskRows h r mounts modelPresent plePresent
      (rows, rows.map diskCheck ++ rejectChecks rows)
    | _, _ =>
      ([], [check (str "filesystems") false
        [.text "cannot measure existing trees — failing closed"] false])

/-! ## The findings -/

structure Findings where
  status : Str
  phase : Str
  checks : List Check
  disk : List Row
  deleteOnFailure : Bool
  sysctlOrDriverChanges : Bool

def runChecks (h : Host) (r : Request) : List Check :=
  archCheck (r.machine.getD h.machine) :: ramCheck h.meminfo :: gpuChecks h.gpu ++
    (diskChecks h r).2

/-- `run_preflight`. -/
def runPreflight (h : Host) (r : Request) : Except (List Piece) Findings :=
  if r.phase ≠ str "build" ∧ r.phase ≠ str "serve" then
    .error [.text "unknown phase ", .repr (some r.phase)]
  else
    .ok {
      status := if (runChecks h r).all fun c => c.status = .pass then preflightPass
        else preflightFail
      phase := r.phase
      checks := runChecks h r
      disk := (diskChecks h r).1
      deleteOnFailure := false
      sysctlOrDriverChanges := false }

end Preflight
end FlashNext
