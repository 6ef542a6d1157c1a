import FlashNext.Preflight.Admission
import Mathlib.Data.List.Induction

/-!
# What the preflight establishes

A pass speaks for the architecture, the memory and the GPU, and, where the phase has a target, for
the filesystem that is found for it (`pass_admitted`).  What is found is what is seen there unless
mounts are stacked (`effective_iff`).
-/

namespace FlashNext
namespace Preflight

open Compare (Double)
open Py (Str str)

variable {h : Host} {r : Request} {f : Findings}

theorem runPreflight_pass (hrun : runPreflight h r = .ok f) (hpass : f.status = preflightPass) :
    ∀ c ∈ runChecks h r, c.status = .pass := by
  unfold runPreflight at hrun
  split at hrun
  · cases hrun
  · next hphase =>
    rw [← Except.ok.inj hrun] at hpass
    intro c hc
    by_contra hne
    have hall : ((runChecks h r).all fun c => c.status = .pass) = false := by
      rw [List.all_eq_false]
      exact ⟨c, hc, by simpa using hne⟩
    simp only [hall] at hpass
    exact absurd hpass (by decide)

/-! ## The parts of a pass -/

theorem ramCheck_pass {meminfo : Option (List (Str × Int))}
    (h : (ramCheck meminfo).status = .pass) :
    ∃ fields kb, meminfo = some fields ∧ fields.lookup (str "MemAvailable") = some kb ∧
      104 * 1024 ^ 3 ≤ kb * 1024 := by
  unfold ramCheck at h
  split at h
  · exact absurd (check_pass_iff.mp h).1 (by decide)
  · next kb hlookup =>
    obtain ⟨fields, hfields, hkb⟩ := Option.bind_eq_some_iff.mp hlookup
    have henough := of_decide_eq_true (check_pass_iff.mp h).2
    rw [ramAvailableMinGib, gib, le_div_iff₀ (by norm_num)] at henough
    exact ⟨fields, kb, hfields, hkb, by exact_mod_cast henough⟩

/-- The one GPU that the host must have, idle. -/
structure IdleGb10 (g : Gpu) : Prop where
  index : g.index = 0
  name : g.name = str "GB10" ∨ g.name = str "NVIDIA GB10"
  utilization : g.utilizationPercent = .finite 0
  memory : g.memoryUsedMib = none ∨ ∃ used, g.memoryUsedMib = some (.finite used) ∧ used ≤ 256

theorem idleGb10_of_checks {g : Gpu} (hname : g.isGb10 = true) (hidle : g.idle = true) :
    IdleGb10 g := by
  obtain ⟨index, name, utilization, memory⟩ := g
  obtain ⟨hindex, hname⟩ := (Bool.and_eq_true _ _).mp hname
  obtain ⟨hutilization, hmemory⟩ := (Bool.and_eq_true _ _).mp hidle
  refine ⟨of_decide_eq_true hindex, by simpa using hname, ?_, ?_⟩
  · cases utilization with
    | finite q =>
      show Double.finite q = _
      rw [of_decide_eq_true hutilization]
    | nonfinite x => cases hutilization
  · cases memory with
    | none => exact .inl rfl
    | some used =>
      cases used with
      | finite q => exact .inr ⟨q, rfl, of_decide_eq_true hmemory⟩
      | nonfinite x => cases hmemory

theorem gpuChecks_pass {gpu : Option GpuState} (h : ∀ c ∈ gpuChecks gpu, c.status = .pass) :
    ∃ g, gpu = some ⟨[g], []⟩ ∧ IdleGb10 g := by
  cases gpu with
  | none => exact absurd (check_pass_iff.mp (h _ List.mem_cons_self)).1 (by decide)
  | some state =>
    obtain ⟨gpus, apps⟩ := state
    simp only [gpuChecks, List.forall_mem_cons] at h
    obtain ⟨hinventory, hidle, happs, -⟩ := h
    have hname := (check_pass_iff.mp hinventory).2
    have hnone : apps = [] := List.isEmpty_iff.mp (check_pass_iff.mp happs).2
    match gpus, hname, hidle with
    | [g], hname, hidle =>
      rw [hnone]
      exact ⟨g, rfl, idleGb10_of_checks hname (check_pass_iff.mp hidle).2⟩

/-! ## The row of the target -/

/-- What one charge adds to the bytes of its row. -/
def dueBytes (amount : WithTop ℚ) : WithTop ℚ := if amount ≤ 0 then 0 else amount.map (· * gib)

/-- All charges of one target go to one row. -/
def Charged (identity : Identity) (due : WithTop ℚ) (rows : List Row) : Prop :=
  (rows = [] ∧ due = 0) ∨
    ∃ row, rows = [row] ∧ row.fstype = identity.fstype ∧ row.source = identity.source ∧
      row.known = identity.known ∧ row.freeBytes = identity.freeBytes ∧ row.requiredBytes = due

theorem charge_charged {mounts : List MountEntry} {target : Str} {rows : List Row}
    {due : WithTop ℚ} {item : String × WithTop ℚ} (htarget : target ≠ [])
    (hrows : Charged (fsIdentity h mounts target) due rows) :
    Charged (fsIdentity h mounts target) (due + dueBytes item.2)
      (charge h mounts (some target) rows item) := by
  unfold charge dueBytes
  dsimp only
  by_cases hitem : item.2 ≤ 0
  · rw [if_pos (Or.inr hitem), if_pos hitem, add_zero]
    exact hrows
  · rw [if_neg (not_or.mpr ⟨htarget, hitem⟩), if_neg hitem]
    rcases hrows with ⟨rfl, rfl⟩ | ⟨row, rfl, htype, hsource, hknown, hfree, hdue⟩
    · refine .inr ⟨((fsIdentity h mounts target).row target).add item.1 item.2, ?_, rfl, rfl, rfl,
        rfl, rfl⟩
      show [if _ = _ then _ else _] = _
      rw [if_pos rfl]
    · have hkey : row.key = ((fsIdentity h mounts target).row target).key :=
        Prod.ext hsource htype
      have hfound : setDefault ((fsIdentity h mounts target).row target) [row] = [row] := by
        rw [setDefault, if_pos]
        rw [List.any_cons, decide_eq_true hkey]
        rfl
      refine .inr ⟨row.add item.1 item.2, ?_, htype, hsource, hknown, hfree, ?_⟩
      · rw [hfound, List.map_cons, if_pos hkey]
        rfl
      · rw [← hdue]
        rfl

theorem charges_charged {mounts : List MountEntry} {target : Str} (htarget : target ≠ [])
    (items : List (String × WithTop ℚ)) :
    Charged (fsIdentity h mounts target) (items.map fun item => dueBytes item.2).sum
      (items.foldl (charge h mounts (some target)) []) := by
  induction items using List.reverseRecOn with
  | nil => exact .inl ⟨rfl, rfl⟩
  | append_singleton items item ih =>
    rw [List.foldl_append, List.map_append, List.sum_append, List.map_singleton,
      List.sum_singleton]
    exact charge_charged htarget ih

theorem dueBytes_coe {q : ℚ} (h : 0 ≤ q) : dueBytes (q : WithTop ℚ) = ((q * gib : ℚ) : WithTop ℚ) := by
  unfold dueBytes
  split
  · next hle =>
    have hzero : q = 0 := le_antisymm (WithTop.coe_le_coe.mp hle) h
    rw [hzero, zero_mul]
    rfl
  · rfl

theorem missingGib_mul_gib (bytes : Int) (present : Nat) :
    missingGib bytes present * gib = ((max 0 (bytes - present) : Int) : ℚ) :=
  div_mul_cancel₀ _ (by norm_num [gib])

theorem dueBytes_missing (bytes : Int) (present : Nat) :
    dueBytes (missingGib bytes present) =
      (((max 0 (bytes - present) : Int) : ℚ) : WithTop ℚ) := by
  have hnonneg : (0 : ℚ) ≤ ((max 0 (bytes - present) : Int) : ℚ) :=
    Int.cast_nonneg (le_max_left _ _)
  have hmissing : 0 ≤ missingGib bytes present := div_nonneg hnonneg (by norm_num [gib])
  rw [dueBytes_coe hmissing, missingGib_mul_gib]

/-- The bytes that the allowance stands for. -/
def allowanceBytes (x : Double) : WithTop ℚ := (allowance x).map (· * gib)

theorem dueBytes_allowance (x : Double) : dueBytes (allowance x) = allowanceBytes x := by
  unfold dueBytes
  split
  · next hle =>
    have hzero : allowance x = 0 := by
      refine le_antisymm hle ?_
      unfold allowance
      split
      · split
        · next hpos => exact WithTop.coe_le_coe.mpr (le_of_lt hpos)
        · exact le_rfl
      · exact le_top
      · exact le_rfl
    rw [allowanceBytes, hzero]
    show (0 : WithTop ℚ) = ((0 * gib : ℚ) : WithTop ℚ)
    rw [zero_mul]
    rfl
  · rfl

/-- The bytes that must be free where the phase writes. -/
def Request.requiredBytes (r : Request) (modelPresent plePresent : Nat) : WithTop ℚ :=
  let missingPle : WithTop ℚ := ((max 0 (r.pleBytes - plePresent) : Int) : ℚ)
  let missingModel : WithTop ℚ := ((max 0 (r.modelBytes - modelPresent) : Int) : ℚ)
  let reserve : WithTop ℚ := ((32 * 1024 ^ 3 : ℚ) : WithTop ℚ)
  if r.phase = str "build" then
    missingModel + missingPle + allowanceBytes r.buildAllowanceGib + reserve
  else missingPle + reserve

theorem sum_charges (modelPresent plePresent : Nat) :
    ((r.charges modelPresent plePresent).map fun item => dueBytes item.2).sum =
      r.requiredBytes modelPresent plePresent := by
  have hreserve : dueBytes (diskReserveGib : WithTop ℚ) = ((32 * 1024 ^ 3 : ℚ) : WithTop ℚ) := by
    rw [dueBytes_coe (by norm_num [diskReserveGib])]
    rfl
  unfold Request.charges Request.requiredBytes
  split
  · simp only [List.map_cons, List.map_nil, List.sum_cons, List.sum_nil, add_zero,
      dueBytes_missing, dueBytes_allowance, hreserve, add_assoc]
  · simp only [List.map_cons, List.map_nil, List.sum_cons, List.sum_nil, add_zero,
      dueBytes_missing, hreserve]

/-- The filesystem that the phase writes to is known, acceptable and large enough. -/
structure DiskAdmitted (h : Host) (r : Request) (target : Str) : Prop where
  known : ∃ mounts entry, h.mountinfo = some mounts ∧
    mountFor h.cwd target mounts = some entry ∧ rejected entry.fstype = false
  enough : ∃ st modelPresent plePresent,
    statUp h.statvfs ((Py.abspath h.cwd target).length + 1) (Py.abspath h.cwd target) = some st ∧
      presentBytes h false r.modelRoot = some modelPresent ∧
      presentBytes h true r.pleDir = some plePresent ∧
      r.requiredBytes modelPresent plePresent ≤ (((st.bavail * st.frsize : Nat) : ℚ) : WithTop ℚ)

theorem rejectChecks_pass {rows : List Row} (h : ∀ c ∈ rejectChecks rows, c.status = .pass) :
    ∀ row ∈ rows, rejected (textOf row.fstype) = false := by
  intro row hrow
  by_contra hne
  have hrejected : rejected (textOf row.fstype) = true := by simpa using hne
  have hfail := h _ (List.mem_map_of_mem (List.mem_filter.mpr ⟨hrow, hrejected⟩))
  exact absurd (check_pass_iff.mp hfail).2 (by decide)

theorem allowanceBytes_nonneg (x : Double) : 0 ≤ allowanceBytes x := by
  rw [← dueBytes_allowance]
  unfold dueBytes
  split
  · exact le_rfl
  · next hpos =>
    cases hx : allowance x with
    | top => exact le_top
    | coe q =>
      rw [hx] at hpos
      have hq : 0 < q := WithTop.coe_lt_coe.mp (not_le.mp hpos)
      exact WithTop.coe_le_coe.mpr (mul_nonneg (le_of_lt hq) (by norm_num [gib]))

/-- The reserve is charged in both phases. -/
theorem requiredBytes_pos (modelPresent plePresent : Nat) :
    0 < r.requiredBytes modelPresent plePresent := by
  have hmissing : ∀ n : Int, (0 : WithTop ℚ) ≤ (((max 0 n : Int) : ℚ) : WithTop ℚ) :=
    fun n => WithTop.coe_le_coe.mpr (Int.cast_nonneg (le_max_left 0 n))
  have hreserve : (0 : WithTop ℚ) < ((32 * 1024 ^ 3 : ℚ) : WithTop ℚ) :=
    WithTop.coe_lt_coe.mpr (by norm_num)
  unfold Request.requiredBytes
  split
  · refine lt_of_lt_of_le hreserve (le_add_of_nonneg_left ?_)
    exact add_nonneg (add_nonneg (hmissing _) (hmissing _)) (allowanceBytes_nonneg _)
  · exact lt_of_lt_of_le hreserve (le_add_of_nonneg_left (hmissing _))

theorem fsIdentity_eq {mounts : List MountEntry} {target : Str} {entry : MountEntry} {st : Vfs}
    (hentry : mountFor h.cwd target mounts = some entry)
    (hst : statUp h.statvfs ((Py.abspath h.cwd target).length + 1) (Py.abspath h.cwd target) =
      some st) :
    fsIdentity h mounts target =
      { fstype := some entry.fstype, source := some entry.source, known := true,
        freeBytes := some (st.bavail * st.frsize) } := by
  simp only [fsIdentity, hentry, hst]

theorem fsIdentity_known {mounts : List MountEntry} {target : Str}
    (hknown : (fsIdentity h mounts target).known = true) :
    ∃ entry st, mountFor h.cwd target mounts = some entry ∧
      statUp h.statvfs ((Py.abspath h.cwd target).length + 1) (Py.abspath h.cwd target) = some st ∧
      (fsIdentity h mounts target).fstype = some entry.fstype ∧
      (fsIdentity h mounts target).freeBytes = some (st.bavail * st.frsize) := by
  cases hentry : mountFor h.cwd target mounts with
  | none => simp [fsIdentity, hentry] at hknown
  | some entry =>
    cases hst : statUp h.statvfs ((Py.abspath h.cwd target).length + 1)
        (Py.abspath h.cwd target) with
    | none => simp [fsIdentity, hentry, hst] at hknown
    | some st =>
      rw [fsIdentity_eq hentry hst]
      exact ⟨entry, st, rfl, rfl, rfl, rfl⟩

theorem diskChecks_pass {target : Str} (hpass : ∀ c ∈ (diskChecks h r).2, c.status = .pass)
    (htarget : r.target = some target) (hne : target ≠ []) : DiskAdmitted h r target := by
  unfold diskChecks at hpass
  split at hpass
  · exact absurd (check_pass_iff.mp (hpass _ List.mem_cons_self)).1 (by decide)
  · next mounts hmounts =>
    split at hpass
    · next modelPresent plePresent hmodel hple =>
      rw [List.forall_mem_append] at hpass
      obtain ⟨hrows, hrejects⟩ := hpass
      have hcharged : Charged (fsIdentity h mounts target) _ _ :=
        charges_charged hne (r.charges modelPresent plePresent)
      rw [sum_charges, ← htarget] at hcharged
      rcases hcharged with ⟨-, hdue⟩ | ⟨row, hfold, htype, -, hknown, hfree, hdue⟩
      · exact absurd hdue (ne_of_gt (requiredBytes_pos modelPresent plePresent))
      · have hrow : diskRows h r mounts modelPresent plePresent = [row] := by
          rw [diskRows, hfold, List.insertionSort_cons, List.insertionSort_nil]
          rfl
        rw [hrow] at hrows hrejects
        obtain ⟨hrowKnown, henough⟩ := check_pass_iff.mp (hrows _ List.mem_cons_self)
        rw [hknown] at hrowKnown
        obtain ⟨entry, st, hentry, hst, hidType, hidFree⟩ := fsIdentity_known hrowKnown
        refine ⟨⟨mounts, entry, hmounts, hentry, ?_⟩,
          st, modelPresent, plePresent, hst, hmodel, hple, ?_⟩
        · have haccepted := rejectChecks_pass hrejects row List.mem_cons_self
          rw [htype, hidType] at haccepted
          exact haccepted
        · have hbytes := ((Bool.and_eq_true _ _).mp henough).2
          rw [hfree, hidFree, hdue] at hbytes
          exact of_decide_eq_true hbytes
    · exact absurd (check_pass_iff.mp (hpass _ List.mem_cons_self)).1 (by decide)

/-! ## What a pass establishes -/

/-- The host may serve, or build: what `PASS` is to tell, where a target is given. -/
structure Admitted (h : Host) (r : Request) : Prop where
  arch : r.machine.getD h.machine = str "aarch64"
  memory : ∃ fields kb, h.meminfo = some fields ∧ fields.lookup (str "MemAvailable") = some kb ∧
    104 * 1024 ^ 3 ≤ kb * 1024
  gpu : ∃ g, h.gpu = some ⟨[g], []⟩ ∧ IdleGb10 g
  disk : ∀ target, r.target = some target → target ≠ [] → DiskAdmitted h r target

/-- Where no target is given, nothing is said of a filesystem. -/
theorem pass_admitted (hrun : runPreflight h r = .ok f) (hpass : f.status = preflightPass) :
    Admitted h r := by
  have hall := runPreflight_pass hrun hpass
  rw [runChecks, List.cons_append, List.cons_append] at hall
  simp only [List.forall_mem_cons, List.forall_mem_append] at hall
  obtain ⟨harch, hram, hgpu, hdisk⟩ := hall
  exact {
    arch := of_decide_eq_true (check_pass_iff.mp harch).2
    memory := ramCheck_pass hram
    gpu := gpuChecks_pass hgpu
    disk := fun target => diskChecks_pass hdisk }

/-! ## Runs that pass -/

theorem runPreflight_ok (hphase : r.phase = str "build" ∨ r.phase = str "serve")
    (hall : ∀ c ∈ runChecks h r, c.status = .pass) :
    ∃ f, runPreflight h r = .ok f ∧ f.status = preflightPass := by
  have hknown : ¬ (r.phase ≠ str "build" ∧ r.phase ≠ str "serve") := by
    rcases hphase with hphase | hphase
    · exact fun hnot => hnot.1 hphase
    · exact fun hnot => hnot.2 hphase
  refine ⟨_, if_neg hknown, ?_⟩
  exact if_pos (List.all_eq_true.mpr fun c hc => decide_eq_true (hall c hc))

theorem presentBytes_gone {allocated : Bool} {root : Str} (hgone : h.scandir root = .gone) :
    presentBytes h allocated (some root) = some 0 := by
  unfold presentBytes
  dsimp only
  split
  · rfl
  · rw [hgone, presentLoop, presentLoop]

/-- An idle GB10 with 110 GiB of memory, and no directory yet where a scan looks. -/
def idleHost (mounts : List MountEntry) (statvfs : Str → Statvfs) : Host where
  cwd := [47]
  machine := str "aarch64"
  meminfo := some [(str "MemAvailable", 110 * 1024 * 1024)]
  gpu := some ⟨[⟨0, str "NVIDIA GB10", .finite 0, some (.finite 2)⟩], []⟩
  statvfs := statvfs
  mountinfo := some mounts
  scandir := fun _ => .gone

def serveRequest (pleDir : Option Str) : Request where
  phase := str "serve"
  modelBytes := 0
  pleBytes := 52 * 1024 ^ 3
  modelRoot := none
  pleDir := pleDir
  buildRoot := none
  buildAllowanceGib := .finite 0
  machine := none

/-- 300 GiB are free everywhere. -/
def roomy (_ : Str) : Statvfs := .found ⟨300 * 1024 ^ 3 / 4096, 4096⟩

/-- What is recorded of the target does not depend on the rest of the host. -/
theorem idleHost_serves {mounts : List MountEntry} {statvfs : Str → Statvfs} {pleDir : Option Str}
    (hdisk : ∀ c ∈ (diskChecks (idleHost mounts statvfs) (serveRequest pleDir)).2,
      c.status = .pass) :
    ∃ f, runPreflight (idleHost mounts statvfs) (serveRequest pleDir) = .ok f ∧
      f.status = preflightPass := by
  apply runPreflight_ok (.inr rfl)
  rw [runChecks, List.forall_mem_append]
  refine ⟨?_, hdisk⟩
  have hhost : ∀ c ∈ archCheck (str "aarch64") ::
      ramCheck (some [(str "MemAvailable", 110 * 1024 * 1024)]) ::
        gpuChecks (some ⟨[⟨0, str "NVIDIA GB10", .finite 0, some (.finite 2)⟩], []⟩),
      c.status = .pass := by
    decide +kernel
  exact hhost

theorem diskChecks_idle (mounts : List MountEntry) (statvfs : Str → Statvfs) (target : Str) :
    (diskChecks (idleHost mounts statvfs) (serveRequest (some target))).2 =
      (diskRows (idleHost mounts statvfs) (serveRequest (some target)) mounts 0 0).map diskCheck ++
        rejectChecks (diskRows (idleHost mounts statvfs) (serveRequest (some target)) mounts 0 0) := by
  have hmodel : presentBytes (idleHost mounts statvfs) false none = some 0 := rfl
  have hple : presentBytes (idleHost mounts statvfs) true (some target) = some 0 :=
    presentBytes_gone rfl
  unfold diskChecks
  simp only [idleHost, serveRequest] at hmodel hple ⊢
  rw [hmodel, hple]

/-- Two filesystems that are mounted side by side. -/
def twoDisks : List MountEntry :=
  [⟨str "/", str "ext4", str "/dev/nvme0n1p2"⟩, ⟨str "/data", str "ext4", str "/dev/nvme1n1"⟩]

theorem twoDisks_serves :
    ∃ f, runPreflight (idleHost twoDisks roomy) (serveRequest (some (str "/data/ple"))) = .ok f ∧
      f.status = preflightPass := by
  apply idleHost_serves
  rw [diskChecks_idle]
  decide +kernel

theorem pass_admitted_twoDisks :
    Admitted (idleHost twoDisks roomy) (serveRequest (some (str "/data/ple"))) := by
  obtain ⟨f, hrun, hpass⟩ := twoDisks_serves
  exact pass_admitted hrun hpass

/-- Nothing is mounted and nothing is known of a filesystem, and the run passes. -/
theorem pass_without_target :
    (∃ f, runPreflight (idleHost [] fun _ => .failed) (serveRequest none) = .ok f ∧
      f.status = preflightPass) ∧
      ¬ ∃ target, DiskAdmitted (idleHost [] fun _ => .failed) (serveRequest none) target := by
  constructor
  · apply idleHost_serves
    decide
  · rintro ⟨target, hdisk⟩
    obtain ⟨mounts, entry, hmounts, hentry, -⟩ := hdisk.known
    rw [← Option.some.inj hmounts] at hentry
    cases hentry

/-! ## Mounts that hide each other -/

/-- The entry of the filesystem that is seen at the target is found for it, and what is not
acceptable there stops the phase. -/
structure Effective (cwd : Str) (T : MountTable) (target : Str) : Prop where
  finds : mountFor cwd target T.entries = visible T target
  stops : ∀ e, visible T target = some e → rejected e.fstype = true → ∀ (h : Host) (r : Request) f,
    h.cwd = cwd → h.mountinfo = some T.entries → r.target = some target →
      runPreflight h r = .ok f → f.status ≠ preflightPass

theorem effective_iff {cwd : Str} {T : MountTable} {target : Str} (hhead : target.head? = some 47) :
    Effective cwd T target ↔ Unstacked T target := by
  constructor
  · exact fun h => (mountFor_visible_iff hhead).mp h.finds
  · intro hunstacked
    have hfinds : mountFor cwd target T.entries = visible T target :=
      (mountFor_visible_iff hhead).mpr hunstacked
    refine ⟨hfinds, ?_⟩
    intro e hvisible hrejected h r f hcwd hmounts htarget hrun hpass
    have hne : target ≠ [] := by
      rintro rfl
      cases hhead
    have hall := runPreflight_pass hrun hpass
    have hdisk := diskChecks_pass
      (fun c hc => hall c (List.mem_append_right _ hc)) htarget hne
    obtain ⟨mounts, entry, hmounts', hentry, haccepted⟩ := hdisk.known
    rw [hmounts] at hmounts'
    rw [← Option.some.inj hmounts', hcwd, hfinds, hvisible] at hentry
    rw [← Option.some.inj hentry, hrejected] at haccepted
    cases haccepted

/-- A table whose mount points are written as their components are. -/
def tableOf (entries : List MountEntry)
    (h : ∀ e ∈ entries, e.mountPoint = Py.pathText (Py.components true e.mountPoint)) :
    MountTable where
  entries := entries
  place e := Py.components true e.mountPoint
  normal e he := ⟨Py.components_plain _, h e he⟩

theorem effective_iff_twoDisks :
    Effective [47] (tableOf twoDisks (by decide)) (str "/data/ple") :=
  (effective_iff rfl).mpr (by
    unfold Unstacked
    decide)

/-- A network filesystem is mounted over the local one. -/
def overmounted : List MountEntry :=
  [⟨str "/", str "ext4", str "/dev/nvme0n1p2"⟩, ⟨str "/", str "nfs4", str "server:/export"⟩]

/-- What is seen is the network filesystem, and the run passes. -/
theorem overmounted_serves :
    ¬ Effective [47] (tableOf overmounted (by decide)) (str "/data/ple") ∧
      ((visible (tableOf overmounted (by decide)) (str "/data/ple")).any fun e =>
        rejected e.fstype) = true ∧
      ∃ f, runPreflight (idleHost overmounted roomy) (serveRequest (some (str "/data/ple"))) = .ok f ∧
        f.status = preflightPass := by
  refine ⟨fun h => absurd h.finds (by decide), by decide, ?_⟩
  apply idleHost_serves
  rw [diskChecks_idle]
  decide +kernel

end Preflight
end FlashNext
