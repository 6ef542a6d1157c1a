import FlashNext.Ple.Served

/-!
# The cache and its processes

Processes prepare tables in one directory and open them, each at its own pace; a process may be
killed at any call, and what else runs on the machine moves the directory too.  Each process keeps
to its contract in every interleaving (`Site.kept`), and what stands under a name was there at the
start or a process has published it (`Site.standing`).
-/

namespace FlashNext
namespace Ple

open Effect
open Py (Str Value str)
open Text (Bytes)

/-- What a process is asked for. -/
inductive Request where
  | prepare (modelRoot cacheDir : Str) (plan : Value)
  | serve (args : OpenArgs)

inductive Answer where
  | prepared (r : Result)
  | opened (fd : Fd)

def Request.run (reader : Reader) (sha256 : Bytes → Str) : Request → CacheM Answer
  | .prepare modelRoot cacheDir plan => do
    let r ← prepareCache reader sha256 modelRoot cacheDir plan
    return .prepared r
  | .serve args => do
    let fd ← openPreparedTable reader sha256 args
    return .opened fd

/-- The directory that is asked for is this one. -/
def Request.At (root : List Str) : Request → Prop
  | .prepare _ cacheDir _ =>
    ∀ parts, pathComponents cacheDir (str "cache_dir") = .ok parts → parts = root
  | .serve args => ∀ parts, pathComponents args.tableDir (str "table_dir") = .ok parts → parts = root

/-- What the process may publish for a request: a table that its plan describes, and a receipt that
attests one. -/
def Request.publish {ι : Type} (reader : Reader) (sha256 : Bytes → Str) :
    Request → Str → Bytes → Volume ι → Prop
  | .prepare _ _ plan, n, c, v => ∃ p, validatePlan reader.toInterp plan = .ok p ∧
      (n = p.table.name ∧ c.length = p.table.size ∧ sha256 c = p.table.sha256 ∨
        n = receiptName ∧ Attests reader sha256 plan p v c)
  | .serve _, _, _, _ => False

/-- The locks of a process that is gone are free. -/
def Volume.release {ι : Type} [DecidableEq ι] (v : Volume ι) (i : ι) : Volume ι :=
  { v with locked := fun id => if v.locked id = some i then none else v.locked id }

/-- The directory and its processes, and what happens beside them. -/
structure Site (ι : Type) where
  root : List Str
  pid : ι → Nat
  euid : Nat
  reader : Reader
  sha256 : Bytes → Str
  /-- Nobody writes to a file that is settled. -/
  calm : Prop
  start : Volume ι → Prop
  outside : Volume ι → Volume ι → Prop
  asked : Request → Prop
  pid_injective : pid.Injective
  readsBack : reader.ReadsBack
  outside_rely : ∀ {v v'}, outside v v' → ∀ i, Rely pid calm i v v'
  asked_at : ∀ {q}, asked q → q.At root

namespace Site

variable {ι : Type} [DecidableEq ι] (S : Site ι)

/-- A process with its request. -/
def party (i : ι) (q : Request) : Party ι where
  root := S.root
  pid := S.pid
  euid := S.euid
  me := i
  calm := S.calm
  publish := q.publish S.reader S.sha256

def pool : Pool ι Request (Volume ι) Fds Op Ans Exc Answer where
  sem := calls S.root S.pid S.euid
  program := Request.run S.reader S.sha256
  own _ := none
  start := S.start
  stop i v v' := v' = v.release i
  outside := S.outside

/-- What the answer to a request says. -/
def Answered (i : ι) : Request → Answer → Cache ι → Prop
  | .prepare _ cacheDir plan, .prepared r, w =>
    PreparedBy S.reader S.sha256 cacheDir plan w.shared r
  | .serve args, .opened fd, w =>
    (S.party i (.serve args)).Served S.reader S.sha256 args w fd
  | _, _, _ => False

variable {S} {i j : ι} {q : Request} {v v' : Volume ι}

theorem release_rely (hj : j ≠ i) : Rely S.pid S.calm j v (v.release i) := by
  refine ⟨⟨History.refl v, fun _ _ h => h, fun id hl => ?_, fun n _ _ => ⟨rfl, fun _ f _ hf =>
    ⟨f, hf, rfl⟩⟩, fun _ => Calm.refl v⟩, fun id hl => ?_⟩
  · show (if v.locked id = some i then none else v.locked id) = some j
    rw [hl, if_neg]
    intro heq
    exact hj (Option.some.inj heq)
  · have hl : (if v.locked id = some i then none else v.locked id) = some j := hl
    by_cases hi : v.locked id = some i
    · rw [if_pos hi] at hl
      cases hl
    · rw [if_neg hi] at hl
      exact hl

omit [DecidableEq ι] in
theorem licensed {modelRoot cacheDir : Str} {plan : Value} {p : Plan}
    (hp : validatePlan S.reader.toInterp plan = .ok p) :
    (S.party i (.prepare modelRoot cacheDir plan)).Licensed S.reader S.sha256 plan p where
  readsBack := S.readsBack
  valid := validatePlan_ok hp
  isTable := validatePlan_isTable hp
  table _ _ hsize hsha := ⟨p, hp, .inl ⟨rfl, hsize, hsha⟩⟩
  receipt _ _ h := ⟨p, hp, .inr ⟨rfl, h⟩⟩

theorem run_meets {w : Cache ι} (hq : q.At S.root) :
    (S.party i q).Gives (S.Answered i q) (q.run S.reader S.sha256) w := by
  cases q with
  | prepare modelRoot cacheDir plan =>
    exact Meets.seq (Party.prepareCache_gives (fun p hp => licensed hp) hq) fun r v hr => hr
  | serve args =>
    exact Meets.seq (Party.openPreparedTable_gives hq) fun fd v hfd => hfd

variable (S) in
/-- Every process relies on the others and on nothing else. -/
def contract : Contract S.pool where
  rely := Rely S.pid S.calm
  guar i q := Acts S.pid i (q.publish S.reader S.sha256)
  idle _ _ := True
  asked := S.asked
  value i q a w := S.Answered i q a w
  refl _ v := Rely.refl v
  trans := Rely.trans
  guar_rely hj h := h.rely S.pid_injective hj
  stop_rely hj h := by
    obtain rfl := h
    exact release_rely hj
  outside_rely {i v v'} h := S.outside_rely h i
  idle_start _ := trivial
  idle_stop _ := trivial
  idle_rely _ _ := trivial
  value_rely {i q a v v' l} h hv := by
    cases q with
    | prepare modelRoot cacheDir plan =>
      cases a with
      | prepared r => exact PreparedBy.history h hv.history
      | opened fd => exact h.elim
    | serve args =>
      cases a with
      | prepared r => exact h.elim
      | opened fd => exact Party.Served.moves h rfl hv.toKeep
  meets hq _ := run_meets (S.asked_at hq)

/-! ## Every interleaving -/

abbrev State (ι : Type) := Pool.State ι Request (Volume ι) Fds Op Ans Exc Answer

variable (S) in
/-- Only what is asked for is started. -/
def allowed (_ : State ι) : Turn ι Request → Prop
  | .start _ q => S.asked q
  | _ => True

variable (S) in
/-- The states of all runs, whatever the order of the calls and whoever is killed. -/
abbrev Reached (s : State ι) : Prop := S.pool.system.Reaches S.allowed s

variable {s s' : State ι} {t : Turn ι Request} {n : Str}

theorem kept (h : S.Reached s) : S.contract.Kept s := Contract.kept (fun _ _ _ ha => ha) h

/-- What one step comes to: a call keeps to `Acts`, and a process that is killed frees its locks. -/
theorem step_cases (h : S.Reached s) (hs : S.pool.step s t s') :
    s'.shared = s.shared ∨
      (∃ i q, t = .call i ∧ S.asked q ∧
        Acts S.pid i (q.publish S.reader S.sha256) s.shared s'.shared) ∨
      (∃ i, t = .stop i ∧ s'.shared = s.shared.release i) ∨
      t = .outside ∧ S.outside s.shared s'.shared := by
  cases t with
  | start i q => exact .inl hs.2.1
  | call i =>
    obtain ⟨m, -, hasked, hacts⟩ := (kept h).guar hs
    exact .inr (.inl ⟨i, m.request, rfl, hasked, hacts⟩)
  | stop i => exact .inr (.inr (.inl ⟨i, rfl, hs.2.1⟩))
  | outside => exact .inr (.inr (.inr ⟨rfl, hs.1⟩))

omit [DecidableEq ι] in
/-- A name that is no temporary one stays or gets what one may publish. -/
theorem acts_sameAt {G : Str → Bytes → Volume ι → Prop} (hn : n.head? ≠ some 46)
    (h : Acts S.pid i G v v') :
    SameAt n v v' ∨ (IsTable n ∧ HoldsLock i v n ∨ n = receiptName) ∧
      ∃ c, Contains v' n c ∧ G n c v' := by
  rcases h.names n with heq | ⟨htemp, -⟩ | ⟨-, u, hlock⟩ | ⟨hmay, id, f, hid, hf, hG⟩
  · refine .inl ⟨heq, fun id f hid hf => ?_⟩
    obtain ⟨f', hf', hc | ⟨m, hm, hmid⟩⟩ := h.contents id f hf
    · exact ⟨f', hf', hc⟩
    · exact absurd hmid (v.settled hn hid _ _ hm)
  · exact absurd htemp.head hn
  · exact absurd (hlock ▸ head_lockName u) hn
  · exact .inr ⟨hmay, f.content, ⟨id, f, hid, hf, rfl⟩, hG⟩

theorem release_sameAt : SameAt n v (v.release i) := ⟨rfl, fun _ f _ hf => ⟨f, hf, rfl⟩⟩

omit [DecidableEq ι] in
theorem publish_history {reader : Reader} {sha256 : Bytes → Str} {c : Bytes}
    (h : q.publish reader sha256 n c v) (hv : History v v') : q.publish reader sha256 n c v' := by
  cases q with
  | serve args => exact h.elim
  | prepare modelRoot cacheDir plan =>
    obtain ⟨p, hp, htable | ⟨hn, hattests⟩⟩ := h
    · exact ⟨p, hp, .inl htable⟩
    · exact ⟨p, hp, .inr ⟨hn, hattests.history hv⟩⟩

variable (S) in
/-- What stands under a name was there at the start, or a process has published it. -/
def Standing (n : Str) (v : Volume ι) : Prop :=
  (∃ u, S.start u ∧ SameAt n u v) ∨
    ∃ q c, S.asked q ∧ Contains v n c ∧ q.publish S.reader S.sha256 n c v

omit [DecidableEq ι] in
theorem Standing.same (h : S.Standing n v) (hs : SameAt n v v') (hv : History v v') :
    S.Standing n v' := by
  rcases h with ⟨u, hu, hsame⟩ | ⟨q, c, hq, hc, hpublish⟩
  · exact .inl ⟨u, hu, hsame.trans hs⟩
  · exact .inr ⟨q, c, hq, hc.same hs, publish_history hpublish hv⟩

theorem standing [Nonempty ι] (hn : n.head? ≠ some 46)
    (hkeep : ∀ v v', S.outside v v' → SameAt n v v') (h : S.Reached s) :
    S.Standing n s.shared := by
  refine Contract.invariant (C := S.contract) (fun _ _ _ ha => ha)
    (fun v hv => .inl ⟨v, hv, SameAt.refl n v⟩) (fun i q v v' hq hacts hv => ?_)
    (fun i v v' hstop hv => ?_) (fun v v' hout hv => ?_) h
  · rcases acts_sameAt hn hacts with hsame | ⟨-, c, hc, hpublish⟩
    · exact hv.same hsame hacts.history
    · exact .inr ⟨q, c, hq, hc, hpublish⟩
  · obtain rfl : v' = v.release i := hstop
    exact hv.same release_sameAt (History.refl v)
  · obtain ⟨i⟩ := ‹Nonempty ι›
    exact hv.same (hkeep v v' hout) (S.outside_rely hout i).history

end Site

end Ple
end FlashNext
