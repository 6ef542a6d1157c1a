import FlashNext.Guard.Launch

/-!
# The phases of a launch

Which calls each part of `run` can make, whatever it is answered, and what the epoch of a
launch is: the nonce it drew, the profile it read and the image it was asked for.
-/

namespace FlashNext
namespace Guard

open Effect Posix Text Checkpoint

/-! ## Calls of the parts -/

/-- The assignment only sets the exit code. -/
def SetsRc (f : Locals → Locals) : Prop := ∃ rc, f = fun l => { l with rc := rc }

/-- The assignment only sets a failing exit code. -/
def FailsWith (f : Locals → Locals) : Prop := ∃ rc, rc ≠ 0 ∧ f = fun l => { l with rc := rc }

/-- The assignment leaves the exit code. -/
def KeepsRc (f : Locals → Locals) : Prop := ∀ l, (f l).rc = l.rc

/-- The assignment leaves a failing exit code. -/
def HoldsRc (f : Locals → Locals) : Prop := ∀ l, l.rc ≠ 0 → (f l).rc = l.rc

/-- An assignment in the program keeps this property of the local variables. -/
def Keeps (I : Locals → Prop) (op : Op) : Prop := ∀ f, op = .assign f → ∀ l, I l → I (f l)

def Failing (l : Locals) : Prop := l.rc ≠ 0

def Admits : Op → Prop
  | .safePath _ _ => True
  | .readJson _ _ => True
  | _ => False

def Prepares : Op → Prop
  | .assign f => FailsWith f
  | .preflight _ _ _ _ => True
  | .writeTemp .preflight _ => True
  | .replace .preflight _ => True
  | .checkReceipt _ _ _ _ => True
  | .imageInspect _ => True
  | .writeNew _ _ => True
  | _ => False

/-- From the end of the preparation to the check before the start. -/
def Creates : Op → Prop
  | .locals => True
  | .assign f => KeepsRc f
  | .eventIsSet => True
  | .create _ _ => True
  | .writeTemp .launchRecord _ => True
  | .replace .launchRecord _ => True
  | .inspect .created _ => True
  | _ => False

/-- What the watch loop asks of the host. -/
def Ticks : Op → Prop
  | .eventIsSet => True
  | .signal => True
  | .memAvailable => True
  | .time => True
  | .monotonic => True
  | .writeTelemetry _ => True
  | .sleep => True
  | _ => False

def Watches : Op → Prop
  | .assign f => SetsRc f
  | .inspect .watch _ => True
  | op => Ticks op

/-- The start and what surrounds the watch loop. -/
def Starts : Op → Prop
  | .assign f => SetsRc f
  | .checkReceipt _ _ _ _ => True
  | .start _ => True
  | .monotonic => True
  | .openTelemetry => True
  | .closeTelemetry => True
  | _ => False

def Follows (op : Op) : Prop := Starts op ∨ Watches op

def Spawns (op : Op) : Prop := Creates op ∨ Follows op

def Resolves : Op → Prop
  | .assign f => KeepsRc f
  | .cidfileExists => True
  | .cidfileRead => True
  | .inspect .recover _ => True
  | _ => False

def Gathers : Op → Prop
  | .inspect .stopFirst _ => True
  | .inspect .stopFinal _ => True
  | .stop _ => True
  | .writeTemp .containerFinal _ => True
  | .replace .containerFinal _ => True
  | .logs _ => True
  | .writeText .serverLog _ => True
  | _ => False

def Collects : Op → Prop
  | .assign f => HoldsRc f
  | op => Gathers op

def Finishes : Op → Prop
  | .locals => True
  | .assign f => KeepsRc f
  | .writeTemp .launchRecord _ => True
  | .replace .launchRecord _ => True
  | _ => False

section

variable {env : Env} {args : Args} {a : Admitted} {expect : Expect} {P : Op → Prop}

theorem calls_attempt {α : Type} {x : GuardM (Except Exn α)} (h : x.Calls P) :
    (attempt x).Calls P := h.bind Prog.Calls.ofExcept

theorem calls_ask {op : Op} (h : P op) : (ask op).Calls P := Prog.Calls.perform h

theorem calls_ret {α : Type} {x : α} : (pure x : GuardM α).Calls P := trivial

theorem calls_save {file : StateFile} (hw : ∀ v, P (.writeTemp file v))
    (hr : ∀ v, P (.replace file v)) (value : Json) : (save file value).Calls P :=
  (calls_attempt (calls_ask (hw value))).bind fun _ => calls_attempt (calls_ask (hr value))

theorem calls_assign {f : Locals → Locals} (h : P (.assign f)) : (assign f).Calls P :=
  calls_ask h

theorem admitLaunch_calls : (admitLaunch env args).Calls Admits := by
  have hpath : ∀ value directory,
      (attempt (ask (.safePath value directory)) : GuardM PurePath).Calls Admits :=
    fun _ _ => calls_attempt (calls_ask trivial)
  have hread : ∀ document path,
      (attempt (ask (.readJson document path)) : GuardM (Json × Bytes)).Calls Admits :=
    fun _ _ => calls_attempt (calls_ask trivial)
  exact (Prog.Calls.require _ _).bind fun _ => (Prog.Calls.require _ _).bind fun _ =>
    (hpath _ _).bind fun _ => (hpath _ _).bind fun _ => (hpath _ _).bind fun _ =>
    (hpath _ _).bind fun _ => (hpath _ _).bind fun _ => (hpath _ _).bind fun _ =>
    (Prog.Calls.require _ _).bind fun _ => (hread _ _).bind fun _ =>
    (Prog.Calls.ofExcept _).bind fun _ => (hread _ _).bind fun _ =>
    (Prog.Calls.ofExcept _).bind fun _ => (Prog.Calls.ofExcept _).bind fun _ => calls_ret

theorem prepareLaunch_calls : (prepareLaunch args a).Calls Prepares := by
  have hset : ∀ rc, rc ≠ 0 → (setRc rc).Calls Prepares :=
    fun rc hrc => calls_assign ⟨rc, hrc, rfl⟩
  have hnew : ∀ file raw, (attempt (ask (.writeNew file raw)) : GuardM Unit).Calls Prepares :=
    fun _ _ => calls_attempt (calls_ask trivial)
  refine (hset _ (by decide)).bind fun _ => ?_
  refine Prog.Calls.bind (calls_attempt (calls_ask trivial)) fun findings => ?_
  refine (calls_save (fun _ => trivial) (fun _ => trivial) findings).bind fun _ => ?_
  refine (Prog.Calls.ofExcept _).bind fun _ => (Prog.Calls.require _ _).bind fun _ =>
    (hset _ (by decide)).bind fun _ => ?_
  refine Prog.Calls.bind (calls_attempt (calls_ask trivial)) fun _ => ?_
  refine Prog.Calls.bind (calls_attempt (calls_ask trivial)) fun _ => ?_
  exact (Prog.Calls.ofExcept _).bind fun _ => (Prog.Calls.ofExcept _).bind fun _ =>
    (Prog.Calls.ofExcept _).bind fun _ => (Prog.Calls.require _ _).bind fun _ =>
    (hnew _ _).bind fun _ => hnew _ _

theorem saveRecord_calls : saveRecord.Calls Finishes :=
  (calls_ask trivial).bind fun _ => calls_save (fun _ => trivial) (fun _ => trivial) _

theorem finishes_creates {op : Op} (h : Finishes op) : Creates op := by
  cases op with
  | writeTemp file value => cases file <;> trivial
  | replace file value => cases file <;> trivial
  | locals => trivial
  | assign f => exact h
  | _ => exact h.elim

theorem calls_setRc (h : ∀ f, SetsRc f → P (.assign f)) (rc : Nat) : (setRc rc).Calls P :=
  calls_ask (h _ ⟨rc, rfl⟩)

theorem setInterrupted_calls (hs : P .signal) (hset : ∀ f, SetsRc f → P (.assign f)) :
    setInterrupted.Calls P :=
  (calls_ask hs).bind fun _ => calls_setRc hset _

theorem createContainer_calls {command : List String} :
    (createContainer a expect command).Calls Creates := by
  have hset : ∀ {f}, KeepsRc f → (assign f).Calls Creates := fun h => calls_assign h
  have hsave : saveRecord.Calls Creates := saveRecord_calls.mono fun _ => finishes_creates
  refine (hset fun _ => rfl).bind fun _ => ?_
  refine Prog.Calls.bind (calls_attempt (calls_ask trivial)) fun _ => ?_
  refine (hset fun _ => rfl).bind fun _ => (Prog.Calls.ofExcept _).bind fun _ => (hset fun _ => rfl).bind fun _ =>
    hsave.bind fun _ => ?_
  refine Prog.Calls.bind (calls_attempt (calls_ask trivial)) fun _ => ?_
  exact (Prog.Calls.ofExcept _).bind fun _ => calls_ret

theorem observeExit_calls {current : Json} : (observeExit current).Calls Watches := by
  have hset : ∀ rc, (setRc rc).Calls Watches := calls_setRc fun _ => id
  refine (Prog.Calls.ofExcept _).bind fun _ => (Prog.Calls.ofExcept _).bind fun code => ?_
  exact Prog.Calls.ite (hset _) ((Prog.Calls.ofExcept _).bind fun _ => hset _)

theorem sampleMemory_calls {cid : String} : (sampleMemory cid).Calls Ticks := by
  refine Prog.Calls.bind (calls_attempt (calls_ask trivial)) fun _ => ?_
  refine (calls_ask trivial).bind fun _ => ?_
  exact (calls_attempt (calls_ask trivial)).bind fun _ => calls_ret

theorem deadlinePassed_calls {start : Decimal} : (deadlinePassed args start).Calls Ticks := by
  unfold deadlinePassed
  split
  · exact calls_ret
  · exact Prog.Calls.ite calls_ret ((calls_ask trivial).bind fun _ => calls_ret)

theorem watches_ticks {op : Op} (h : Ticks op) : Watches op := by
  cases op <;> first | exact h.elim | trivial

theorem watchLoop_calls {cid : String} {start : Decimal} {rounds : Nat} :
    ∀ {low : Nat}, (watchLoop args expect cid start rounds low).Calls Watches := by
  have hset : ∀ rc, (setRc rc).Calls Watches := calls_setRc fun _ => id
  induction rounds with
  | zero => exact trivial
  | succ rounds ih =>
    intro low
    refine Prog.Calls.bind (calls_attempt (calls_ask trivial)) fun _ => ?_
    refine (Prog.Calls.ofExcept _).bind fun _ => (Prog.Calls.ofExcept _).bind fun _ =>
      (Prog.Calls.ofExcept _).bind fun _ => Prog.Calls.ite observeExit_calls ?_
    refine (Prog.Calls.require _ _).bind fun _ => (calls_ask trivial).bind fun stop =>
      Prog.Calls.ite (setInterrupted_calls trivial fun _ => id) ?_
    refine (sampleMemory_calls.mono fun _ => watches_ticks).bind fun sample => ?_
    cases sample with
    | none => exact hset _
    | some available =>
      refine Prog.Calls.ite (hset _) ((deadlinePassed_calls.mono fun _ => watches_ticks).bind
        fun late => Prog.Calls.ite (hset _) ?_)
      exact (calls_attempt (calls_ask trivial)).bind fun _ => ih

theorem startAndWatch_calls {cid : String} {rounds : Nat} :
    (startAndWatch args a expect cid rounds).Calls Follows := by
  have hset : ∀ rc, (setRc rc).Calls Follows := calls_setRc fun _ => .inl
  have hcall : ∀ {op}, Starts op → (ask op).Calls Follows := fun h => calls_ask (.inl h)
  refine (hset _).bind fun _ => ?_
  refine Prog.Calls.bind (calls_attempt (hcall trivial)) fun _ => ?_
  refine (hset _).bind fun _ => ?_
  refine Prog.Calls.bind (calls_attempt (hcall trivial)) fun _ => ?_
  refine (hset _).bind fun _ => Prog.Calls.bind (hcall trivial) fun _ => ?_
  refine Prog.Calls.bind (calls_attempt (hcall trivial)) fun _ => ?_
  exact (watchLoop_calls.mono fun op h => .inr h).finally_ (calls_attempt (hcall trivial))

theorem spawn_calls {command : List String} {rounds : Nat} :
    (spawn args a expect command rounds).Calls Spawns := by
  have hint : setInterrupted.Calls Spawns :=
    setInterrupted_calls (.inr (.inr trivial)) fun _ h => .inr (.inr h)
  refine (calls_ask (.inl trivial)).bind fun _ => Prog.Calls.ite hint ?_
  refine (createContainer_calls.mono fun _ h => .inl h).bind fun _ => ?_
  exact (calls_ask (.inl trivial)).bind fun _ =>
    Prog.Calls.ite hint (startAndWatch_calls.mono fun _ h => .inr h)

theorem recordError_calls {e : Exn} (h : ∀ f, KeepsRc f → P (.assign f)) :
    (recordError e).Calls P :=
  Prog.Calls.ite (calls_assign (h _ fun _ => rfl)) trivial

theorem recoverByName_calls : (recoverByName expect).Calls Resolves := by
  refine Prog.Calls.bind (calls_attempt (calls_ask trivial)) fun _ => ?_
  exact (Prog.Calls.ofExcept _).bind fun _ => (Prog.Calls.ofExcept _).bind fun _ =>
    (Prog.Calls.ofExcept _).bind fun _ => calls_assign fun _ => rfl

theorem recordUnknown_calls {e : Exn} : (recordUnknown e).Calls Resolves := by
  unfold recordUnknown
  split
  · exact calls_assign fun _ => rfl
  · exact calls_assign fun _ => rfl
  · trivial

theorem resolveCreate_calls : (resolveCreate expect).Calls Resolves := by
  refine Prog.Calls.bind (calls_attempt (calls_ask trivial)) fun found => ?_
  refine Prog.Calls.ite ?_ (recoverByName_calls.handle fun _ => recordUnknown_calls)
  exact Prog.Calls.bind (calls_attempt (calls_ask trivial)) fun _ =>
    calls_assign fun _ => rfl

theorem resolveIfUncertain_calls {l : Locals} : (resolveIfUncertain expect l).Calls Resolves :=
  Prog.Calls.ite resolveCreate_calls calls_ret

theorem stopOwned_gathers {cid : String} : (stopOwned expect cid).Calls Gathers := by
  refine stopOwned_calls.mono ?_
  rintro op (rfl | rfl | rfl) <;> trivial

theorem collect_calls {cid : String} : (collect expect cid).Calls Gathers := by
  refine (Prog.Calls.ofExcept _).bind fun _ => stopOwned_gathers.bind fun final => ?_
  refine (calls_save (fun _ => trivial) (fun _ => trivial) final).bind fun _ => ?_
  refine Prog.Calls.bind (calls_attempt (calls_ask trivial)) fun _ => ?_
  exact calls_attempt (calls_ask trivial)

theorem collects_gathers {op : Op} (h : Gathers op) : Collects op := by
  cases op <;> first | exact h.elim | exact h

theorem collectIfCreated_calls {l : Locals} :
    (collectIfCreated expect l).Calls Collects := by
  unfold collectIfCreated
  split
  · trivial
  · refine Prog.Calls.ite trivial ((collect_calls.mono fun _ => collects_gathers).handle
      fun e => ?_)
    refine Prog.Calls.ite ?_ trivial
    exact (calls_assign fun _ _ => rfl).bind fun _ => calls_assign fun _ h => if_neg h

/-- The calls of the `finally` block. -/
def CleansUp (op : Op) : Prop := Resolves op ∨ Collects op ∨ Finishes op

theorem cleanup_calls : (cleanup expect).Calls CleansUp := by
  have hlocals : (ask .locals).Calls CleansUp := calls_ask (.inr (.inr trivial))
  refine Prog.Calls.bind hlocals fun l => ?_
  refine (resolveIfUncertain_calls.mono fun _ => .inl).bind fun _ => ?_
  refine Prog.Calls.bind hlocals fun l => ?_
  refine (collectIfCreated_calls.mono fun _ h => .inr (.inl h)).bind fun _ => ?_
  refine (calls_assign (.inr (.inr fun _ => rfl))).bind fun _ => ?_
  exact saveRecord_calls.mono fun _ h => .inr (.inr h)

theorem Run.keeps {α : Type} {ok : (op : Op) → Ans op → Prop} {w w' : World}
    {I : Locals → Prop} {p : GuardM α} {o : Outcome Exn α}
    (hp : p.Calls (Keeps I)) (h : Run (semantics env ok) p w o w') (hI : I w.st) : I w'.st := by
  refine Run.invariant (I := fun u : World => I u.st) ?_ hp h hI
  intro op i u hop _ hu
  cases op with
  | assign f => exact hop f rfl u.st hu
  | _ => exact hu

/-- A program that assigns nothing leaves the local variables. -/
theorem Run.same_locals {α : Type} {ok : (op : Op) → Ans op → Prop} {w w' : World}
    {p : GuardM α} {o : Outcome Exn α} (hP : ∀ f, ¬ P (.assign f)) (hp : p.Calls P)
    (h : Run (semantics env ok) p w o w') : w'.st = w.st := by
  refine Run.rel_of_calls (R := fun u v : World => v.st = u.st) (fun _ => rfl)
    (fun h₁ h₂ => h₂.trans h₁) ?_ hp h
  intro op i u hop _
  cases op with
  | assign f => exact absurd hop (hP f)
  | _ => rfl

end

/-! ## The epoch -/

/-- The nonces drawn so far. -/
def nonces (log : Log) : List (Hex 32) :=
  log.filterMap fun
    | ⟨.tokenHex, n⟩ => some n
    | _ => none

/-- The profiles read so far. -/
def profiles (log : Log) : List Bytes :=
  log.filterMap fun
    | ⟨.readJson .profile _, .ok r⟩ => some r.2
    | _ => none

/-- The launch drew this nonce and no other, read one profile, with this digest, and was
asked for this image. -/
structure Epoch (env : Env) (args : Args) (log : Log) (expect : Expect) : Prop where
  image : expect.image = args.image
  nonce : nonces log = [expect.nonce]
  profile : ∃ raw, profiles log = [raw] ∧ expect.profileSha256 = env.sha256 raw

/-- Neither draws a nonce nor reads the profile. -/
def Neutral : Op → Prop
  | .tokenHex => False
  | .readJson .profile _ => False
  | _ => True

theorem nonces_append {xs ys : Log} : nonces (xs ++ ys) = nonces xs ++ nonces ys :=
  List.filterMap_append

theorem profiles_append {xs ys : Log} : profiles (xs ++ ys) = profiles xs ++ profiles ys :=
  List.filterMap_append

theorem nonces_neutral {evs : Log} (h : ∀ e ∈ evs, Neutral e.1) : nonces evs = [] := by
  rw [nonces, List.filterMap_eq_nil_iff]
  rintro ⟨op, r⟩ he
  have hop := h _ he
  cases op with
  | tokenHex => exact hop.elim
  | _ => rfl

theorem profiles_neutral {evs : Log} (h : ∀ e ∈ evs, Neutral e.1) : profiles evs = [] := by
  rw [profiles, List.filterMap_eq_nil_iff]
  rintro ⟨op, r⟩ he
  have hop := h _ he
  cases op with
  | readJson document path =>
    cases document with
    | profile => exact hop.elim
    | _ => rfl
  | _ => rfl

theorem Epoch.append {env : Env} {args : Args} {log evs : Log} {expect : Expect}
    (h : Epoch env args log expect) (hevs : ∀ e ∈ evs, Neutral e.1) :
    Epoch env args (log ++ evs) expect := by
  refine ⟨h.image, ?_, ?_⟩
  · rw [nonces_append, nonces_neutral hevs, h.nonce, List.append_nil]
  · rw [profiles_append, profiles_neutral hevs, List.append_nil]
    exact h.profile

section

variable {env : Env} {ok : (op : Op) → Ans op → Prop} {w w' : World} {args : Args}
  {expect : Expect}

/-- Parts of the launch that are neutral keep the epoch. -/
theorem Epoch.of_run {α : Type} {p : GuardM α} {o : Outcome Exn α}
    (h : Epoch env args w.log expect) (hp : p.Calls Neutral)
    (hrun : Run (semantics env ok) p w o w') : Epoch env args w'.log expect := by
  obtain ⟨evs, hlog, hevs⟩ := Run.log_extends hp hrun
  rw [hlog]
  exact h.append hevs

/-- Nothing is drawn yet and this profile is read. -/
structure Fresh (log : Log) (raw : Bytes) : Prop where
  nonce : nonces log = []
  profile : profiles log = [raw]

theorem Fresh.of_run {α : Type} {raw : Bytes} {p : GuardM α} {o : Outcome Exn α}
    (h : Fresh w.log raw) (hp : p.Calls Neutral)
    (hrun : Run (semantics env ok) p w o w') : Fresh w'.log raw := by
  obtain ⟨evs, hlog, hevs⟩ := Run.log_extends hp hrun
  refine ⟨?_, ?_⟩
  · rw [hlog, nonces_append, nonces_neutral hevs, h.nonce]
    rfl
  · rw [hlog, profiles_append, profiles_neutral hevs, h.profile]
    rfl

theorem save_value {file : StateFile} {value : Json}
    (h : Run (semantics env ok) (save file value) w (.value ()) w') :
    w' = ⟨w.log ++ [⟨.writeTemp file value, .ok ()⟩, ⟨.replace file value, .ok ()⟩], w.st⟩ := by
  simp only [save, run_bind_value, run_attempt_value] at h
  obtain ⟨_, _, h₁, h₂⟩ := h
  obtain ⟨rfl, -⟩ := run_ask_value rfl h₁
  obtain ⟨rfl, -⟩ := run_ask_value rfl h₂
  simp only [List.append_assoc, List.singleton_append]

theorem saveRecord_value (h : Run (semantics env ok) saveRecord w (.value ()) w') :
    w' = ⟨w.log ++ [⟨.writeTemp .launchRecord (.obj w.st.record), .ok ()⟩,
      ⟨.replace .launchRecord (.obj w.st.record), .ok ()⟩], w.st⟩ := by
  rw [saveRecord, run_bind_value] at h
  obtain ⟨l, v, h₁, h₂⟩ := h
  obtain ⟨hl, rfl⟩ := run_locals h₁
  rw [Outcome.value.injEq] at hl
  exact hl ▸ save_value h₂

/-- What an admitted launch has read, and that it changed nothing. -/
structure Admission (args : Args) (a : Admitted) (evs : Log) : Prop where
  calls : ∀ e ∈ evs, Admits e.1
  profile : profiles evs = [a.profileRaw]
  receipt : ⟨.safePath args.receipt false, .ok a.receiptPath⟩ ∈ evs
  model : ⟨.safePath args.modelRoot false, .ok a.model⟩ ∈ evs
  sources : ∃ path, ⟨.readJson .sources path, .ok (a.sources, a.sourceRaw)⟩ ∈ evs

theorem admitLaunch_value {a : Admitted} (h : Run (semantics env ok) (admitLaunch env args) w (.value a) w') :
    ∃ evs, w' = ⟨w.log ++ evs, w.st⟩ ∧ Admission args a evs := by
  have hadmits := Run.log_extends admitLaunch_calls h
  simp only [admitLaunch, run_bind_value, run_attempt_value, run_ofExcept_value, run_pure,
    Outcome.value.injEq] at h
  obtain ⟨_, _, hid, _, _, hlimit, profilePath, _, h₁, sourcePath, _, h₂, receiptPath, _, h₃,
    model, _, h₄, cache, _, h₅, state, _, h₆, _, _, hroots, ⟨sources, sourceRaw⟩, _, h₇,
    inventory, _, ⟨-, rfl⟩, ⟨profile, profileRaw⟩, _, h₈, built, _, ⟨-, rfl⟩, hash, _, ⟨-, rfl⟩,
    rfl, rfl⟩ := h
  obtain ⟨-, rfl⟩ := run_require_value.mp hid
  obtain ⟨-, rfl⟩ := run_require_value.mp hlimit
  obtain ⟨-, rfl⟩ := run_require_value.mp hroots
  obtain ⟨rfl, -⟩ := run_ask_value rfl h₁
  obtain ⟨rfl, -⟩ := run_ask_value rfl h₂
  obtain ⟨rfl, -⟩ := run_ask_value rfl h₃
  obtain ⟨rfl, -⟩ := run_ask_value rfl h₄
  obtain ⟨rfl, -⟩ := run_ask_value rfl h₅
  obtain ⟨rfl, -⟩ := run_ask_value rfl h₆
  obtain ⟨rfl, -⟩ := run_ask_value rfl h₇
  obtain ⟨rfl, -⟩ := run_ask_value rfl h₈
  obtain ⟨evs, hevs, hop⟩ := hadmits
  simp only [List.append_assoc, List.append_cancel_left_eq] at hevs ⊢
  subst hevs
  refine ⟨_, rfl, hop, rfl, ?_, ?_, sourcePath, ?_⟩ <;> simp

theorem nonces_admits {evs : Log} (h : ∀ e ∈ evs, Admits e.1) : nonces evs = [] := by
  rw [nonces, List.filterMap_eq_nil_iff]
  rintro ⟨op, r⟩ he
  have hop := h _ he
  cases op with
  | tokenHex => exact hop.elim
  | _ => rfl

theorem newEpoch_value {a : Admitted} (hw : Fresh w.log a.profileRaw)
    (h : Run (semantics env ok) (newEpoch env args a) w (.value expect) w') :
    Epoch env args w'.log expect ∧ w' = ⟨w.log ++ [⟨.tokenHex, expect.nonce⟩], w.st⟩ := by
  simp only [newEpoch, run_bind_value, run_pure, Outcome.value.injEq] at h
  obtain ⟨nonce, _, h₁, rfl, rfl⟩ := h
  obtain ⟨rfl, -⟩ := run_ask_value rfl h₁
  refine ⟨⟨rfl, ?_, a.profileRaw, ?_, rfl⟩, rfl⟩
  · rw [nonces_append, hw.nonce]
    rfl
  · rw [profiles_append, hw.profile]
    rfl

end

end Guard
end FlashNext
