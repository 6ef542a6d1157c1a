import FlashNext.Guard.Phases

/-!
# From the call of `run` to the launch

Everything before the launch only looks, takes the lock and makes the state directory.
`run_guarded` and `body_cases` reduce what is said about every run to the launch.
-/

namespace FlashNext
namespace Guard

open Effect Posix Text Checkpoint

/-- The calls between the admission and the launch. -/
def Enters : Op → Prop
  | .isDir _ => True
  | .mkdir _ => True
  | .openLock _ => True
  | .flock => True
  | _ => False

def Opens (op : Op) : Prop := Admits op ∨ Enters op

/-- The calls of a run that only prints. -/
def Shows : Op → Prop
  | .safePath _ _ => True
  | .readJson _ _ => True
  | .print _ => True
  | .report _ => True
  | .locals => True
  | .assign _ => True
  | _ => False

/-- The calls of `run` after the launch. -/
def Closes : Op → Prop
  | .closeLock => True
  | .report _ => True
  | .print _ => True
  | .locals => True
  | .assign _ => True
  | _ => False

/-- Neither starts nor stops a container. -/
def Harmless : Op → Prop
  | .start _ => False
  | .stop _ => False
  | _ => True

theorem harmless_opens {op : Op} (h : Opens op) : Harmless op := by
  rcases h with h | h <;> cases op <;> first | exact h.elim | trivial

theorem harmless_closes {op : Op} (h : Closes op) : Harmless op := by
  cases op <;> first | exact h.elim | trivial

theorem neutral_enters {op : Op} (h : Enters op) : Neutral op := by
  cases op <;> first | exact h.elim | trivial

/-- Where a launch begins. -/
structure Opened (args : Args) (a : Admitted) (log : Log) : Prop where
  fresh : Fresh log a.profileRaw
  calls : ∀ e ∈ log, Opens e.1
  receipt : ⟨.safePath args.receipt false, .ok a.receiptPath⟩ ∈ log
  model : ⟨.safePath args.modelRoot false, .ok a.model⟩ ∈ log
  sources : ∃ path, ⟨.readJson .sources path, .ok (a.sources, a.sourceRaw)⟩ ∈ log

section

variable {env : Env} {ok : (op : Op) → Ans op → Prop} {w w' : World} {args : Args}
  {a : Admitted} {rounds : Nat}

theorem Admission.opened {evs : Log} (h : Admission args a evs) : Opened args a evs where
  fresh := ⟨nonces_admits h.calls, h.profile⟩
  calls e he := .inl (h.calls e he)
  receipt := h.receipt
  model := h.model
  sources := h.sources

theorem Opened.of_run {α : Type} {p : GuardM α} {o : Outcome Exn α} (h : Opened args a w.log)
    (hp : p.Calls Enters) (hrun : Run (semantics env ok) p w o w') : Opened args a w'.log := by
  have hfresh := h.fresh.of_run (hp.mono fun _ => neutral_enters) hrun
  obtain ⟨evs, hlog, hevs⟩ := Run.log_extends hp hrun
  have hmem : ∀ {e}, e ∈ w.log → e ∈ w'.log := fun he =>
    hlog ▸ List.mem_append_left evs he
  refine ⟨hfresh, ?_, hmem h.receipt, hmem h.model, ?_⟩
  · intro e he
    rw [hlog] at he
    rcases List.mem_append.mp he with he | he
    · exact h.calls e he
    · exact .inr (hevs e he)
  · obtain ⟨path, hpath⟩ := h.sources
    exact ⟨path, hmem hpath⟩

theorem handleRun_calls {e : Exn} : (handleRun e).Calls Closes := by
  have hset : ∀ f, (assign f).Calls Closes := fun _ => calls_assign trivial
  unfold handleRun
  split
  · exact (hset _).bind fun _ => calls_ret
  · refine Prog.Calls.ite ?_ trivial
    exact (hset _).bind fun _ => (calls_ask trivial).bind fun _ => calls_ret

/-- The part of `body` that a run which only prints ends in. -/
theorem shown_calls : (attempt (ask (.print (.obj [("status", .str "PLAN_ONLY"),
    ("server", a.built), ("image", .str args.image)]))) >>= fun _ => pure (some 0) :
      GuardM (Option Nat)).Calls Closes :=
  Prog.Calls.bind (calls_attempt (calls_ask trivial)) fun _ => calls_ret

/-- What is said of the calls before a launch, in a launch and after it is said of a run. -/
theorem run_guarded {R : Op → Log → Prop} (hR : ∀ op log, Harmless op → R op log)
    (hlaunch : ∀ a v, Opened args a v.log →
      Guarded (semantics env ok) (fun op v => R op v.log) (launch env args a rounds) v) :
    Guarded (semantics env ok) (fun op v => R op v.log) (run env args rounds) initialWorld := by
  have hopens : ∀ {α : Type} {p : GuardM α} {v : World}, p.Calls Opens →
      Guarded (semantics env ok) (fun op v => R op v.log) p v := fun hp =>
    Guarded.of_calls hp (fun op v hop => hR op v.log (harmless_opens hop)) _
  have hcloses : ∀ {α : Type} {p : GuardM α} {v : World}, p.Calls Closes →
      Guarded (semantics env ok) (fun op v => R op v.log) p v := fun hp =>
    Guarded.of_calls hp (fun op v hop => hR op v.log (harmless_closes hop)) _
  have henters : ∀ {α : Type} {p : GuardM α} {v : World}, p.Calls Enters →
      Guarded (semantics env ok) (fun op v => R op v.log) p v := fun hp =>
    hopens (hp.mono fun _ => .inr)
  have hbody : Guarded (semantics env ok) (fun op v => R op v.log) (body env args rounds)
      initialWorld := by
    refine (hopens (admitLaunch_calls.mono fun _ => .inl)).bind fun a v hv => ?_
    obtain ⟨evs, rfl, hadmission⟩ := admitLaunch_value hv
    have hv₀ : Opened args a ([] ++ evs) := hadmission.opened
    split
    · exact hcloses shown_calls
    · have hdir : ∀ path, (attempt (ask (.isDir path))).Calls Enters :=
        fun path => calls_attempt (calls_ask trivial)
      have hreq : ∀ c e, (Prog.require c e : GuardM Unit).Calls Enters := Prog.Calls.require
      have hmkdir : (attempt (ask (.mkdir a.state))).Calls Enters :=
        calls_attempt (calls_ask trivial)
      have hopen : (attempt (ask (.openLock (a.cache.child cacheLockName)))).Calls Enters :=
        calls_attempt (calls_ask trivial)
      have hflock : (attempt (ask .flock)).Calls Enters := calls_attempt (calls_ask trivial)
      refine (henters (hdir _)).bind fun _ v₁ h₁ => ?_
      have hv₁ := hv₀.of_run (hdir _) h₁
      refine (henters (hreq _ _)).bind fun _ v₂ h₂ => ?_
      have hv₂ := hv₁.of_run (hreq _ _) h₂
      refine (henters (hdir _)).bind fun _ v₃ h₃ => ?_
      have hv₃ := hv₂.of_run (hdir _) h₃
      refine (henters (hreq _ _)).bind fun _ v₄ h₄ => ?_
      have hv₄ := hv₃.of_run (hreq _ _) h₄
      refine (henters hmkdir).bind fun _ v₅ h₅ => ?_
      have hv₅ := hv₄.of_run hmkdir h₅
      refine Guarded.bind ?_ fun _ _ _ => trivial
      refine (henters hopen).bind fun _ v₆ h₆ => ?_
      have hv₆ := hv₅.of_run hopen h₆
      refine Guarded.finally_ ?_ fun _ _ _ => hcloses (calls_ask trivial)
      refine (henters hflock).bind fun _ v₇ h₇ => ?_
      exact hlaunch a v₇ (hv₆.of_run hflock h₇)
  refine Guarded.bind (hbody.handle fun e v _ => hcloses handleRun_calls) fun _ v _ => ?_
  have hlocals : (ask .locals).Calls Closes := calls_ask trivial
  exact (hcloses hlocals).bind fun _ _ _ => trivial

/-- A run that only prints makes no call but these. -/
theorem run_print_calls (hprint : args.printOnly = true) :
    (run env args rounds).Calls Shows := by
  have hcloses : ∀ op, Closes op → op ≠ .closeLock → Shows op := by
    intro op h hne
    cases op <;> first | exact h.elim | exact absurd rfl hne | trivial
  have hbody : (body env args rounds).Calls Shows := by
    refine (admitLaunch_calls.mono ?_).bind fun a => ?_
    · intro op h
      cases op <;> first | exact h.elim | trivial
    · rw [if_pos hprint]
      exact Prog.Calls.bind (calls_attempt (calls_ask trivial)) fun _ => calls_ret
  have hset : ∀ f, (assign f).Calls Shows := fun _ => calls_assign trivial
  have hhandle : ∀ e, (handleRun e).Calls Shows := by
    intro e
    unfold handleRun
    split
    · exact (hset _).bind fun _ => calls_ret
    · refine Prog.Calls.ite ?_ trivial
      exact (hset _).bind fun _ => (calls_ask trivial).bind fun _ => calls_ret
  exact (hbody.handle hhandle).bind fun _ => (calls_ask trivial).bind fun _ => calls_ret

/-- The lock is released on the way out of the launch, unless the watch was cut. -/
def Unlocked (v : World) (o : Outcome Exn Unit) (w' : World) : Prop :=
  (o = .cut ∧ w' = v) ∨ (o ≠ .cut ∧ w' = ⟨v.log ++ [⟨.closeLock, ()⟩], v.st⟩)

theorem run_closeLock {β : Type} {k : Unit → GuardM β} {v : World} {o : Outcome Exn β}
    (h : Run (semantics env ok) (ask .closeLock >>= k) v o w') :
    Run (semantics env ok) (k ()) ⟨v.log ++ [⟨.closeLock, ()⟩], v.st⟩ o w' := by
  obtain ⟨_, -, hk⟩ := run_ask_bind rfl h
  exact hk

/-- A run that ends before its launch. -/
structure Refused {β : Type} (o : Outcome Exn β) (w : World) : Prop where
  calls : ∀ e ∈ w.log, Opens e.1 ∨ Closes e.1
  locals : w.st = initialLocals
  novalue : ∀ r, o ≠ .value r

/-- A run on its way to the launch. -/
structure Entered (args : Args) (a : Admitted) (w : World) : Prop where
  opened : Opened args a w.log
  locals : w.st = initialLocals

theorem run_opens_locals {α : Type} {p : GuardM α} {o : Outcome Exn α} (hp : p.Calls Opens)
    (h : Run (semantics env ok) p w o w') : w'.st = w.st :=
  Run.same_locals (fun _ hop => hop.elim id id) hp h

theorem refused_or {α β : Type} {p : GuardM α} {f : α → GuardM β} {o : Outcome Exn β}
    (hp : p.Calls Opens) (hlog : ∀ e ∈ w.log, Opens e.1) (hlocals : w.st = initialLocals)
    (h : Run (semantics env ok) (p >>= f) w o w') :
    (∃ x v, Run (semantics env ok) p w (.value x) v ∧ v.st = initialLocals ∧
      Run (semantics env ok) (f x) v o w') ∨ Refused o w' := by
  rcases run_bind_or h with ⟨x, v, hv, hf⟩ | ⟨hne, o', -, hv⟩
  · exact .inl ⟨x, v, hv, (run_opens_locals hp hv).trans hlocals, hf⟩
  · refine .inr ⟨fun e he => .inl ?_, (run_opens_locals hp hv).trans hlocals, hne⟩
    obtain ⟨evs, hevs, hcalls⟩ := Run.log_extends hp hv
    rw [hevs] at he
    exact (List.mem_append.mp he).elim (hlog e) (hcalls e)

theorem Entered.bind {α β : Type} {p : GuardM α} {f : α → GuardM β} {o : Outcome Exn β}
    (h : Entered args a w) (hp : p.Calls Enters)
    (hrun : Run (semantics env ok) (p >>= f) w o w') :
    (∃ x v, Entered args a v ∧ Run (semantics env ok) (f x) v o w') ∨ Refused o w' := by
  rcases refused_or (hp.mono fun _ => .inr) h.opened.calls h.locals hrun with
    ⟨x, v, hv, hlocals, hf⟩ | hrefused
  · exact .inl ⟨x, v, ⟨h.opened.of_run hp hv, hlocals⟩, hf⟩
  · exact .inr hrefused

/-- Under the lock the launch runs, and the lock is released whatever comes of it. -/
theorem lifetimeLock_cases {cache : PurePath} {o : Outcome Exn Unit} (h : Entered args a w)
    (hrun : Run (semantics env ok) (lifetimeLock cache (launch env args a rounds)) w o w') :
    Refused o w' ∨
      ∃ v v', Entered args a v ∧
        Run (semantics env ok) (launch env args a rounds) v o v' ∧ Unlocked v' o w' := by
  have hopen : (attempt (ask (.openLock (cache.child cacheLockName)))).Calls Enters :=
    calls_attempt (calls_ask trivial)
  have hflock : (attempt (ask .flock)).Calls Enters := calls_attempt (calls_ask trivial)
  rcases h.bind hopen hrun with ⟨_, v, hv, hlocked⟩ | hrefused
  swap
  · exact .inl hrefused
  rcases run_finally.mp hlocked with ⟨_, u, hinner, hclose⟩ | ⟨e, u, hinner, hclose⟩ | ⟨rfl, hinner⟩
  · obtain ⟨rfl, rfl⟩ := run_closeLock hclose
    rcases hv.bind hflock hinner with ⟨_, v₁, hv₁, hlaunch⟩ | hrefused
    · exact .inr ⟨v₁, u, hv₁, hlaunch, .inr ⟨by simp, rfl⟩⟩
    · exact absurd rfl (hrefused.novalue _)
  · obtain ⟨rfl, rfl⟩ := run_closeLock hclose
    rcases hv.bind hflock hinner with ⟨_, v₁, hv₁, hlaunch⟩ | hrefused
    · exact .inr ⟨v₁, u, hv₁, hlaunch, .inr ⟨by simp, rfl⟩⟩
    · refine .inl ⟨?_, hrefused.locals, by simp⟩
      intro e' he
      rcases List.mem_append.mp he with he | he
      · exact hrefused.calls e' he
      · rw [List.mem_singleton] at he
        exact .inr (he ▸ trivial)
  · rcases hv.bind hflock hinner with ⟨_, v₁, hv₁, hlaunch⟩ | hrefused
    · exact .inr ⟨v₁, w', hv₁, hlaunch, .inl ⟨rfl, rfl⟩⟩
    · exact .inl hrefused

/-- A run that does more than print is refused or launches. -/
theorem body_cases (hprint : args.printOnly = false) {o : Outcome Exn (Option Nat)}
    (h : Run (semantics env ok) (body env args rounds) initialWorld o w') :
    Refused o w' ∨
      ∃ a v v' o', Entered args a v ∧
        Run (semantics env ok) (launch env args a rounds) v o' v' ∧
        Unlocked v' o' w' ∧ o = o'.map fun _ => none := by
  rcases refused_or (admitLaunch_calls.mono fun _ => .inl) (by simp [initialWorld]) rfl h with
    ⟨a, v, hv, hlocals, h⟩ | hrefused
  swap
  · exact .inl hrefused
  obtain ⟨evs, rfl, hadmission⟩ := admitLaunch_value hv
  have hv : Entered args a ⟨initialWorld.log ++ evs, initialWorld.st⟩ :=
    ⟨hadmission.opened, hlocals⟩
  have hdir : ∀ path, (attempt (ask (.isDir path))).Calls Enters :=
    fun path => calls_attempt (calls_ask trivial)
  have hreq : ∀ c e, (Prog.require c e : GuardM Unit).Calls Enters := Prog.Calls.require
  have hmkdir : (attempt (ask (.mkdir a.state))).Calls Enters :=
    calls_attempt (calls_ask trivial)
  rw [if_neg (by rw [hprint]; exact Bool.false_ne_true)] at h
  rcases hv.bind (hdir _) h with ⟨_, v₁, hv₁, h⟩ | hrefused
  swap
  · exact .inl hrefused
  rcases hv₁.bind (hreq _ _) h with ⟨_, v₂, hv₂, h⟩ | hrefused
  swap
  · exact .inl hrefused
  rcases hv₂.bind (hdir _) h with ⟨_, v₃, hv₃, h⟩ | hrefused
  swap
  · exact .inl hrefused
  rcases hv₃.bind (hreq _ _) h with ⟨_, v₄, hv₄, h⟩ | hrefused
  swap
  · exact .inl hrefused
  rcases hv₄.bind hmkdir h with ⟨_, v₅, hv₅, h⟩ | hrefused
  swap
  · exact .inl hrefused
  rcases run_bind.mp h with ⟨_, u, hlock, rfl, rfl⟩ | ⟨e, rfl, hlock⟩ | ⟨rfl, hlock⟩
  · rcases lifetimeLock_cases hv₅ hlock with hrefused | ⟨v, v', hv, hlaunch, hunlock⟩
    · exact absurd rfl (hrefused.novalue _)
    · exact .inr ⟨a, v, v', _, hv, hlaunch, hunlock, rfl⟩
  · rcases lifetimeLock_cases hv₅ hlock with hrefused | ⟨v, v', hv, hlaunch, hunlock⟩
    · exact .inl ⟨hrefused.calls, hrefused.locals, by simp⟩
    · exact .inr ⟨a, v, v', _, hv, hlaunch, hunlock, rfl⟩
  · rcases lifetimeLock_cases hv₅ hlock with hrefused | ⟨v, v', hv, hlaunch, hunlock⟩
    · exact .inl ⟨hrefused.calls, hrefused.locals, by simp⟩
    · exact .inr ⟨a, v, v', _, hv, hlaunch, hunlock, rfl⟩

/-! ## From the opening to the spawn -/

/-- The calls of a launch before the container is to be created. -/
def Early (op : Op) : Prop := Opens op ∨ Prepares op ∨ op = .tokenHex ∨ Finishes op

/-- A launch that ends before the spawn. -/
structure Stopped (w : World) : Prop where
  rc : Failing w.st
  calls : ∀ e ∈ w.log, Early e.1

/-- A launch at its spawn. -/
structure Ready (env : Env) (args : Args) (expect : Expect) (w : World) : Prop where
  epoch : Epoch env args w.log expect
  calls : ∀ e ∈ w.log, Early e.1
  rc : w.st.rc = exitSpawn
  cid : w.st.cid = none
  createAttempted : w.st.createAttempted = false

/-- Early calls whose assignments leave the launch as it was but for a failing code. -/
def Readies (op : Op) : Prop :=
  Early op ∧ ∀ f, op = .assign f → ∀ l, (f l).cid = l.cid ∧
    (f l).createAttempted = l.createAttempted ∧ (l.rc ≠ 0 → (f l).rc ≠ 0)

theorem readies_early {op : Op} (h : Early op) (ha : ∀ f, op ≠ .assign f) : Readies op :=
  ⟨h, fun f hf => absurd hf (ha f)⟩

theorem readies_prepares {op : Op} (h : Prepares op) : Readies op := by
  refine ⟨.inr (.inl h), ?_⟩
  rintro f rfl l
  obtain ⟨rc, hrc, rfl⟩ := h
  exact ⟨rfl, rfl, fun _ => hrc⟩

theorem saveRecord_readies : saveRecord.Calls Readies := by
  have hop : ∀ {op}, Finishes op → (∀ f, op ≠ .assign f) → Readies op :=
    fun h ha => readies_early (.inr (.inr (.inr h))) ha
  have hlocals : (ask .locals).Calls Readies := calls_ask (hop trivial (by simp))
  have hwrite : ∀ v, Readies (.writeTemp .launchRecord v) := fun v => hop trivial (by simp)
  have hreplace : ∀ v, Readies (.replace .launchRecord v) := fun v => hop trivial (by simp)
  exact hlocals.bind fun l => calls_save hwrite hreplace _

/-- A launch under way: no exit code of success, no container, only early calls. -/
structure Underway (w : World) : Prop where
  rc : Failing w.st
  cid : w.st.cid = none
  createAttempted : w.st.createAttempted = false
  calls : ∀ e ∈ w.log, Early e.1

theorem Underway.stopped (h : Underway w) : Stopped w := ⟨h.rc, h.calls⟩

theorem Underway.of_run {α : Type} {p : GuardM α} {o : Outcome Exn α} (h : Underway w)
    (hp : p.Calls Readies) (hrun : Run (semantics env ok) p w o w') : Underway w' := by
  obtain ⟨evs, hlog, hevs⟩ := Run.log_extends hp hrun
  have hkeep : p.Calls (Keeps fun l => l.rc ≠ 0 ∧ l.cid = none ∧ l.createAttempted = false) := by
    refine hp.mono ?_
    rintro op hop f rfl l ⟨hrc, hcid, hattempted⟩
    obtain ⟨h₁, h₂, h₃⟩ := hop.2 f rfl l
    exact ⟨h₃ hrc, h₁.trans hcid, h₂.trans hattempted⟩
  obtain ⟨hrc, hcid, hattempted⟩ := Run.keeps
    (I := fun l => l.rc ≠ 0 ∧ l.cid = none ∧ l.createAttempted = false) hkeep hrun
    ⟨h.rc, h.cid, h.createAttempted⟩
  refine ⟨hrc, hcid, hattempted, ?_⟩
  intro e he
  rw [hlog] at he
  exact (List.mem_append.mp he).elim (h.calls e) fun he => (hevs e he).1

theorem Underway.bind {α β : Type} {p : GuardM α} {f : α → GuardM β} {o : Outcome Exn β}
    (h : Underway w) (hp : p.Calls Readies) (hrun : Run (semantics env ok) (p >>= f) w o w') :
    Stopped w' ∨ ∃ x v, Underway v ∧ Run (semantics env ok) p w (.value x) v ∧
      Run (semantics env ok) (f x) v o w' := by
  rcases run_bind_or hrun with ⟨x, v, hv, hf⟩ | ⟨-, o', -, hv⟩
  · exact .inr ⟨x, v, h.of_run hp hv, hv, hf⟩
  · exact .inl (h.of_run hp hv).stopped

theorem Entered.underway (h : Entered args a w) : Underway w := by
  refine ⟨?_, ?_, ?_, fun e he => .inl (h.opened.calls e he)⟩
  · rw [h.locals]
    exact Nat.succ_ne_zero 1
  · rw [h.locals]
    rfl
  · rw [h.locals]
    rfl

/-- The spawn with its handler and the cleanup around it. -/
def spawnCleaned (args : Args) (a : Admitted) (expect : Expect) (rounds : Nat) : GuardM Unit :=
  ((spawn args a expect (commandOf args a expect) rounds).handle recordError).finally_
    (cleanup expect)

theorem launch_cases {o : Outcome Exn Unit} (h : Entered args a w)
    (hrun : Run (semantics env ok) (launch env args a rounds) w o w') :
    Stopped w' ∨ ∃ expect v, Ready env args expect v ∧
      Run (semantics env ok) (spawnCleaned args a expect rounds) v o w' := by
  have hneutral : ∀ op, Prepares op → Neutral op := by
    intro op hop
    cases op <;> first | exact hop.elim | trivial
  have hfinishes : ∀ op, Finishes op → Neutral op := by
    intro op hop
    cases op <;> first | exact hop.elim | trivial
  have hnonce : (newEpoch env args a).Calls Readies :=
    Prog.Calls.bind (calls_ask (readies_early (.inr (.inr (.inl rfl))) (by simp)))
      fun _ => calls_ret
  rcases h.underway.bind (prepareLaunch_calls.mono fun _ => readies_prepares) hrun with
    hs | ⟨_, v₁, hv₁, h₁, hrun⟩
  · exact .inl hs
  have hfresh := h.opened.fresh.of_run (prepareLaunch_calls.mono hneutral) h₁
  rcases hv₁.bind hnonce hrun with hs | ⟨expect, v₂, hv₂, h₂, hrun⟩
  · exact .inl hs
  have hrecord : (assign fun l => { l with
      record := startRecord env args a expect (commandOf args a expect) }).Calls Readies := by
    refine calls_assign ⟨.inr (.inr (.inr fun _ => rfl)), ?_⟩
    intro f hf l
    rw [Op.assign.injEq] at hf
    subst hf
    exact ⟨rfl, rfl, id⟩
  rcases hv₂.bind hrecord hrun with hs | ⟨_, v₃, hv₃, h₃, hrun⟩
  · exact .inl hs
  rcases hv₃.bind saveRecord_readies hrun with hs | ⟨_, v₄, hv₄, h₄, hrun⟩
  · exact .inl hs
  have hspawn : (setRc exitSpawn).Calls Readies :=
    calls_assign (readies_prepares ⟨exitSpawn, by decide, rfl⟩)
  rcases hv₄.bind hspawn hrun with hs | ⟨_, v₅, hv₅, h₅, hrun⟩
  · exact .inl hs
  have hepoch₃ : Epoch env args v₃.log expect := by
    rw [run_assign_log h₃]
    exact (newEpoch_value hfresh h₂).1
  have hepoch₅ : Epoch env args v₅.log expect := by
    rw [run_assign_log h₅]
    exact hepoch₃.of_run (saveRecord_calls.mono hfinishes) h₄
  refine .inr ⟨expect, v₅, ⟨hepoch₅, hv₅.calls, ?_, hv₅.cid, hv₅.createAttempted⟩, hrun⟩
  rw [(run_assign h₅).2]

end

end Guard
end FlashNext
