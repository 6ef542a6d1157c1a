import FlashNext.Guard.Opening

/-!
# The exit of the container

The watch loop ends well only by one inspection that shows the container stopped with an
exit code.  Up to that inspection the launcher holds a failing exit code; the inspection
sets the code to what the container returned.
-/

namespace FlashNext
namespace Guard

open Effect Posix Text Checkpoint

/-- The document shows the expected container stopped, with this exit code and this
`OOMKilled`. -/
structure ShowsExit (expect : Expect) (cid : String) (doc : Json) (code : Nat) (oom : Json) :
    Prop where
  owned : Owned doc expect cid
  state : ∃ state, doc.get "State" = .ok state ∧
    (orEmpty state).get "Running" = .ok (.bool false) ∧
    (orEmpty state).get "ExitCode" = .ok (.int code) ∧
    (orEmpty state).get "OOMKilled" = .ok oom
  range : code ≤ 255

/-- The exit code of the launcher for it. -/
def exitRc (code : Nat) (oom : Json) : Nat :=
  if code ≠ 0 then code else if oom.truthy then exitWatchdog else 0

def IsExit (expect : Expect) (e : Event Op Ans) : Prop :=
  ∃ cid doc code oom, e = inspected .watch cid (.ok doc) ∧ ShowsExit expect cid doc code oom

def NoWatch (op : Op) : Prop := ∀ cid, op ≠ .inspect .watch cid

theorem not_isExit {expect : Expect} {e : Event Op Ans} (h : NoWatch e.1) : ¬ IsExit expect e := by
  rintro ⟨cid, doc, code, oom, rfl, -⟩
  exact h cid rfl

/-- Calls that watch nothing and lose no failing exit code. -/
def Calm (op : Op) : Prop := NoWatch op ∧ Keeps Failing op

section

variable {env : Env} {ok : (op : Op) → Ans op → Prop} {w v w' : World} {args : Args}
  {a : Admitted} {expect : Expect} {cid : String}

/-- No exit is seen between the two worlds, and a failing exit code stays one. -/
structure Silent (expect : Expect) (w w' : World) : Prop where
  log : ∃ evs, w'.log = w.log ++ evs ∧ ∀ e ∈ evs, ¬ IsExit expect e
  rc : Failing w.st → Failing w'.st

theorem Silent.refl (w : World) : Silent expect w w :=
  ⟨⟨[], (List.append_nil _).symm, by simp⟩, id⟩

theorem Silent.trans (h : Silent expect w v) (h' : Silent expect v w') : Silent expect w w' := by
  obtain ⟨evs, hlog, hevs⟩ := h.log
  obtain ⟨evs', hlog', hevs'⟩ := h'.log
  refine ⟨⟨evs ++ evs', by rw [hlog', hlog, List.append_assoc], ?_⟩, fun hf => h'.rc (h.rc hf)⟩
  intro e he
  exact (List.mem_append.mp he).elim (hevs e) (hevs' e)

theorem Silent.of_calm {α : Type} {p : GuardM α} {o : Outcome Exn α} (hp : p.Calls Calm)
    (h : Run (semantics env ok) p w o w') : Silent expect w w' := by
  obtain ⟨evs, hlog, hevs⟩ := Run.log_extends hp h
  exact ⟨⟨evs, hlog, fun e he => not_isExit (hevs e he).1⟩,
    fun hf => Run.keeps (hp.mono fun _ hop => hop.2) h hf⟩

/-- The exit was seen, the launcher holds the exit code for it, and since then only the
telemetry was closed. -/
structure Exited (expect : Expect) (cid : String) (w w' : World) : Prop where
  split : ∃ before doc code oom after,
    w'.log = w.log ++ (before ++ inspected .watch cid (.ok doc) :: after) ∧
      (∀ e ∈ before, ¬ IsExit expect e) ∧ ShowsExit expect cid doc code oom ∧
      (∀ e ∈ after, e.1 = .closeTelemetry) ∧ w'.st.rc = exitRc code oom

theorem Exited.after_silent (h : Silent expect w v) (h' : Exited expect cid v w') :
    Exited expect cid w w' := by
  obtain ⟨evs, hlog, hevs⟩ := h.log
  obtain ⟨before, doc, code, oom, after, hlog', hbefore, hexit, hafter, hrc⟩ := h'.split
  refine ⟨evs ++ before, doc, code, oom, after, ?_, ?_, hexit, hafter, hrc⟩
  · rw [hlog', hlog]
    simp only [List.append_assoc]
  · intro e he
    exact (List.mem_append.mp he).elim (hevs e) (hbefore e)

/-- What watching comes to: no exit is seen, or one is. -/
def Watched (expect : Expect) (cid : String) (w w' : World) : Prop :=
  Silent expect w w' ∨ Exited expect cid w w'

theorem Watched.after_silent (h : Silent expect w v) (h' : Watched expect cid v w') :
    Watched expect cid w w' :=
  h'.elim (fun hs => .inl (h.trans hs)) fun he => .inr (Exited.after_silent h he)

theorem watched_bind {α β : Type} {p : GuardM α} {f : α → GuardM β} {o : Outcome Exn β}
    (hp : p.Calls Calm)
    (hf : ∀ x v, Run (semantics env ok) p w (.value x) v → Run (semantics env ok) (f x) v o w' →
      Watched expect cid v w')
    (h : Run (semantics env ok) (p >>= f) w o w') : Watched expect cid w w' := by
  rcases run_bind_or h with ⟨x, v, hv, hx⟩ | ⟨-, o', -, hv⟩
  · exact (hf x v hv hx).after_silent (Silent.of_calm hp hv)
  · exact .inl (Silent.of_calm hp hv)

/-! ## The watch loop -/

theorem calm_of_quiet {op : Op} (hw : NoWatch op) (ha : ∀ f, op ≠ .assign f) : Calm op :=
  ⟨hw, fun f hf => absurd hf (ha f)⟩

theorem setRc_calm {rc : Nat} (h : rc ≠ 0) : (setRc rc).Calls Calm := by
  refine calls_ask ⟨by simp [NoWatch], ?_⟩
  intro f hf l _
  rw [Op.assign.injEq] at hf
  subst hf
  exact h

theorem setInterrupted_calm : setInterrupted.Calls Calm :=
  Prog.Calls.bind (calls_ask (calm_of_quiet (by simp [NoWatch]) (by simp))) fun n =>
    setRc_calm (by omega)

theorem exitCodeOf_ok {value : Json} {code : Nat} :
    exitCodeOf value = .ok code ↔ value = .int code ∧ code ≤ 255 := by
  simp only [exitCodeOf, bind_ok, orRaise_ok, reject_ok, pure_ok, Bool.or_eq_false_iff,
    decide_eq_false_iff_not, Json.asInt?_eq_some]
  constructor
  · rintro ⟨n, rfl, -, ⟨h₀, h₁⟩, rfl⟩
    exact ⟨by rw [Int.toNat_of_nonneg (by omega)], by omega⟩
  · rintro ⟨rfl, h⟩
    exact ⟨code, rfl, (), ⟨by omega, by omega⟩, by simp⟩

/-- A stopped container either shows an exit code, which becomes the launcher's, or is
rejected. -/
theorem observeExit_run {doc state : Json} {o : Outcome Exn Unit}
    (howned : Owned doc expect cid) (hstate : doc.get "State" = .ok state)
    (hrunning : (orEmpty state).get "Running" = .ok (.bool false))
    (h : Run (semantics env ok) (observeExit (orEmpty state)) w o w') :
    (∃ code oom, ShowsExit expect cid doc code oom ∧
      w' = ⟨w.log, { w.st with rc := exitRc code oom }⟩) ∨
    (w' = w ∧ ¬ ∃ code oom, ShowsExit expect cid doc code oom) := by
  obtain ⟨fs, hfs, -⟩ := Json.get_ok.mp hrunning
  have hget : ∀ key, (orEmpty state).get key = .ok (Json.field fs key) :=
    fun key => Json.get_ok.mpr ⟨fs, hfs, rfl⟩
  rw [observeExit, hget "ExitCode", hget "OOMKilled"] at h
  replace h : Run (semantics env ok) (Prog.ofExcept (exitCodeOf (Json.field fs "ExitCode")) >>=
      fun code => if code ≠ 0 then setRc code
        else setRc (if (Json.field fs "OOMKilled").truthy then exitWatchdog else code)) w o w' := h
  have hnone : (∀ code, exitCodeOf (Json.field fs "ExitCode") ≠ .ok code) →
      ¬ ∃ code oom, ShowsExit expect cid doc code oom := by
    rintro hbad ⟨code, oom, -, ⟨state', hstate', -, hcode, -⟩, hrange⟩
    rw [hstate, Except.ok.injEq] at hstate'
    rw [← hstate', hget, Except.ok.injEq] at hcode
    exact hbad code (exitCodeOf_ok.mpr ⟨hcode, hrange⟩)
  cases hcode : exitCodeOf (Json.field fs "ExitCode") with
  | error e =>
    refine .inr ⟨?_, hnone fun code hok => by rw [hcode] at hok; cases hok⟩
    rw [hcode] at h
    exact h.2
  | ok code =>
    obtain ⟨hfield, hrange⟩ := exitCodeOf_ok.mp hcode
    refine .inl ⟨code, Json.field fs "OOMKilled",
      ⟨howned, ⟨state, hstate, hrunning, by rw [hget, hfield], hget _⟩, hrange⟩, ?_⟩
    rw [hcode] at h
    have h' : Run (semantics env ok) (if code ≠ 0 then setRc code
        else setRc (if (Json.field fs "OOMKilled").truthy then exitWatchdog else code)) w o w' := h
    unfold exitRc
    by_cases hzero : code ≠ 0
    · rw [if_pos hzero] at h' ⊢
      exact (run_assign h').2
    · rw [if_neg hzero] at h' ⊢
      rw [(run_assign h').2]
      rw [ne_eq, not_not] at hzero
      rw [hzero]

theorem calm_ticks {op : Op} (h : Ticks op) : Calm op := by
  refine calm_of_quiet ?_ ?_
  · rintro c rfl
    exact h
  · rintro f rfl
    exact h

theorem run_inspect {site : Site} {o : Outcome Exn Json}
    (h : Run (semantics env ok) (attempt (ask (.inspect site cid))) w o w') :
    (∃ doc, o = .value doc ∧ w' = ⟨w.log ++ [inspected site cid (.ok doc)], w.st⟩) ∨
      (∃ e, o = .raised e ∧ w' = ⟨w.log ++ [inspected site cid (.error e)], w.st⟩) := by
  rcases run_bind.mp h with ⟨r, v, h₁, h₂⟩ | ⟨e, -, h₁⟩ | ⟨-, h₁⟩
  · obtain ⟨rfl, -⟩ := run_ask_value rfl h₁
    cases r with
    | ok doc => exact .inl ⟨doc, h₂.1, h₂.2⟩
    | error e => exact .inr ⟨e, h₂.1, h₂.2⟩
  · obtain ⟨_, h₁, -⟩ := run_ask rfl h₁
    cases h₁
  · obtain ⟨_, h₁, -⟩ := run_ask rfl h₁
    cases h₁

/-- One inspection that shows no exit is silent. -/
theorem silent_inspected {r : Except Exn Json}
    (h : ∀ doc code oom, r = .ok doc → ¬ ShowsExit expect cid doc code oom) :
    Silent expect w ⟨w.log ++ [inspected .watch cid r], w.st⟩ := by
  refine ⟨⟨_, rfl, ?_⟩, id⟩
  intro e he
  rw [List.mem_singleton] at he
  subst he
  rintro ⟨cid', doc, code, oom, heq, hexit⟩
  rw [Sigma.mk.injEq, Op.inspect.injEq] at heq
  obtain ⟨⟨-, rfl⟩, hr⟩ := heq
  exact h doc code oom (eq_of_heq hr) hexit

/-- The loop watches until it sees the exit, or ends otherwise with a failing code. -/
theorem watchLoop_run {start : Decimal} {rounds : Nat} :
    ∀ {low : Nat} {w : World} {o : Outcome Exn Unit},
      Run (semantics env ok) (watchLoop args expect cid start rounds low) w o w' →
      Watched expect cid w w' := by
  induction rounds with
  | zero =>
    intro low w o h
    obtain ⟨-, rfl⟩ := h
    exact .inl (Silent.refl w')
  | succ rounds ih =>
    intro low w o h
    rcases run_bind_or h with ⟨doc, v, hv, h⟩ | ⟨-, o', hne, hv⟩
    swap
    · rcases run_inspect hv with ⟨doc, rfl, -⟩ | ⟨e, -, rfl⟩
      · exact absurd rfl (hne doc)
      · exact .inl (silent_inspected fun _ _ _ hr => by cases hr)
    obtain ⟨rfl, -⟩ := run_ask_value rfl (run_attempt_value.mp hv)
    by_cases hexit : ∃ code oom, ShowsExit expect cid doc code oom
    · -- the inspection shows the exit, so the round goes to `observeExit`
      obtain ⟨code, oom, hexit⟩ := hexit
      obtain ⟨state, hstate, hrunning, -, -⟩ := hexit.state
      rw [verifyOwnership_ok.mpr ⟨rfl, hexit.owned⟩] at h
      replace h : Run (semantics env ok) (Prog.ofExcept (doc.get "State") >>= _) _ o w' := h
      rw [hstate] at h
      replace h : Run (semantics env ok) (Prog.ofExcept ((orEmpty state).get "Running") >>= _)
        _ o w' := h
      rw [hrunning] at h
      rcases observeExit_run hexit.owned hstate hrunning h with ⟨code', oom', hexit', rfl⟩ | ⟨-, hno⟩
      · refine .inr ⟨[], doc, code', oom', [], rfl, by simp, hexit', by simp, rfl⟩
      · exact absurd ⟨code, oom, hexit⟩ hno
    · have hsilent : Silent expect w ⟨w.log ++ [inspected .watch cid (.ok doc)], w.st⟩ := by
        refine silent_inspected ?_
        rintro doc' code oom ⟨⟩ hshows
        exact hexit ⟨code, oom, hshows⟩
      refine Watched.after_silent hsilent ?_
      refine watched_bind (Prog.Calls.ofExcept _) (fun doc' v hv h => ?_) h
      obtain ⟨hverify, rfl⟩ := run_ofExcept_value.mp hv
      obtain ⟨rfl, howned⟩ := verifyOwnership_ok.mp hverify
      refine watched_bind (Prog.Calls.ofExcept _) (fun state v hv h => ?_) h
      obtain ⟨hstate, rfl⟩ := run_ofExcept_value.mp hv
      refine watched_bind (Prog.Calls.ofExcept _) (fun running v hv h => ?_) h
      obtain ⟨hrunning, rfl⟩ := run_ofExcept_value.mp hv
      split at h
      · next hfalse =>
        subst hfalse
        rcases observeExit_run howned hstate hrunning h with ⟨code, oom, hshows, -⟩ | ⟨rfl, -⟩
        · exact absurd ⟨code, oom, hshows⟩ hexit
        · exact .inl (Silent.refl _)
      · refine watched_bind (Prog.Calls.require _ _) (fun _ v _ h => ?_) h
        refine watched_bind ((calls_ask trivial : (ask .eventIsSet).Calls Ticks).mono
          fun _ => calm_ticks) (fun stop v _ h => ?_) h
        split at h
        · exact .inl (Silent.of_calm setInterrupted_calm h)
        refine watched_bind (sampleMemory_calls.mono fun _ => calm_ticks) (fun sample v _ h => ?_) h
        cases sample with
        | none => exact .inl (Silent.of_calm (setRc_calm (by decide)) h)
        | some available =>
          dsimp only at h
          generalize (if available < memFloorKb args.memAvailableFloorGib then low + 1 else 0) =
            low' at h
          split at h
          · exact .inl (Silent.of_calm (setRc_calm (by decide)) h)
          refine watched_bind (deadlinePassed_calls.mono fun _ => calm_ticks)
            (fun late v _ h => ?_) h
          split at h
          · exact .inl (Silent.of_calm (setRc_calm (by decide)) h)
          refine watched_bind ((calls_attempt (calls_ask trivial) :
            (attempt (ask .sleep)).Calls Ticks).mono fun _ => calm_ticks) (fun _ v _ h => ?_) h
          exact ih h

/-! ## From the creation to the exit -/

theorem keeps_setsRc {I : Locals → Prop} {f : Locals → Locals}
    (hI : ∀ l rc, I l → I { l with rc := rc }) (h : SetsRc f) (l : Locals) (hl : I l) :
    I (f l) := by
  obtain ⟨rc, rfl⟩ := h
  exact hI l rc hl

theorem startAndWatch_keeps {I : Locals → Prop} {rounds : Nat}
    (hI : ∀ l rc, I l → I { l with rc := rc }) :
    (startAndWatch args a expect cid rounds).Calls (Keeps I) := by
  refine startAndWatch_calls.mono ?_
  rintro op (h | h) f rfl l hl
  · exact keeps_setsRc hI h l hl
  · exact keeps_setsRc hI h l hl

theorem startAndWatch_run {rounds : Nat} {o : Outcome Exn Unit}
    (h : Run (semantics env ok) (startAndWatch args a expect cid rounds) w o w') :
    Watched expect cid w w' := by
  have hcalm : ∀ {op}, NoWatch op → (∀ f, op ≠ .assign f) → (ask op).Calls Calm :=
    fun hw ha => calls_ask (calm_of_quiet hw ha)
  have hclose : (attempt (ask .closeTelemetry)).Calls fun op => op = .closeTelemetry :=
    calls_attempt (calls_ask rfl)
  refine watched_bind (setRc_calm (by decide)) (fun _ v _ h => ?_) h
  refine watched_bind (calls_attempt (hcalm (by simp [NoWatch]) (by simp))) (fun _ v _ h => ?_) h
  refine watched_bind (setRc_calm (by decide)) (fun _ v _ h => ?_) h
  refine watched_bind (calls_attempt (hcalm (by simp [NoWatch]) (by simp))) (fun _ v _ h => ?_) h
  refine watched_bind (setRc_calm (by decide)) (fun _ v _ h => ?_) h
  refine watched_bind (hcalm (by simp [NoWatch]) (by simp)) (fun start v _ h => ?_) h
  refine watched_bind (calls_attempt (hcalm (by simp [NoWatch]) (by simp))) (fun _ v _ h => ?_) h
  have hend : ∀ {u : World} {fin : GuardM Unit} {o : Outcome Exn Unit},
      fin.Calls (fun op => op = .closeTelemetry) → Watched expect cid v u →
      Run (semantics env ok) fin u o w' → Watched expect cid v w' := by
    intro u fin o hfin hwatched hrun
    obtain ⟨evs, hlog, hevs⟩ := Run.log_extends hfin hrun
    have hst : w'.st = u.st := Run.same_locals (by simp) hfin hrun
    rcases hwatched with hsilent | hexited
    · refine .inl (hsilent.trans ⟨⟨evs, hlog, fun e he => not_isExit ?_⟩, fun hf => hst ▸ hf⟩)
      rw [hevs e he]
      simp [NoWatch]
    · obtain ⟨before, doc, code, oom, after, hlog', hbefore, hshows, hafter, hrc⟩ := hexited.split
      refine .inr ⟨before, doc, code, oom, after ++ evs, ?_, hbefore, hshows, ?_, hst ▸ hrc⟩
      · rw [hlog, hlog']
        simp only [List.append_assoc, List.cons_append]
      · intro e he
        exact (List.mem_append.mp he).elim (hafter e) (hevs e)
  rcases run_finally.mp h with ⟨_, u, hloop, hfin⟩ | ⟨e, u, hloop, hfin⟩ | ⟨-, hloop⟩
  · exact hend (hclose.bind fun _ => calls_ret) (watchLoop_run hloop) hfin
  · exact hend (hclose.bind fun _ => show Prog.Calls _ (Prog.throw e) from trivial)
      (watchLoop_run hloop) hfin
  · exact watchLoop_run hloop

/-- A created container has an identifier, and `run` remembers it. -/
theorem createContainer_cid {command : List String}
    (h : Run (semantics env ok) (createContainer a expect command) w (.value cid) w') :
    w'.st.cid = some cid ∧ ∃ id : Hex 64, cid = id.text := by
  simp only [createContainer, run_bind_value, run_attempt_value, run_ofExcept_value, run_pure,
    Outcome.value.injEq] at h
  obtain ⟨_, v₁, h₁, created, v₂, h₂, _, v₃, h₃, id, _, ⟨hid, rfl⟩, _, v₄, h₄, _, v₅, h₅, doc, v₆,
    h₆, _, _, ⟨hverify, rfl⟩, rfl, rfl⟩ := h
  rw [requireHex_ok, Json.str.injEq] at hid
  refine ⟨?_, id, hid⟩
  rw [(run_ask_value rfl h₆).1]
  show v₅.st.cid = some cid
  rw [saveRecord_value h₅, (run_assign h₄).2, (run_assign h₃).2]

theorem calm_creates {op : Op} (h : Creates op) : Calm op := by
  refine ⟨?_, ?_⟩
  · rintro c rfl
    exact h
  · rintro f rfl l hl
    rw [Failing, h l]
    exact hl

theorem spawn_run {command : List String} {rounds : Nat} {o : Outcome Exn Unit}
    (h : Run (semantics env ok) (spawn args a expect command rounds) w o w') :
    Silent expect w w' ∨
      ∃ id : Hex 64, Exited expect id.text w w' ∧ w'.st.cid = some id.text := by
  have hevent : (ask .eventIsSet).Calls Calm := calls_ask (calm_creates trivial)
  rcases run_bind_or h with ⟨stop, v, hv, h⟩ | ⟨-, o', -, hv⟩
  swap
  · exact .inl (Silent.of_calm hevent hv)
  have hw : Silent expect w v := Silent.of_calm hevent hv
  split at h
  · exact .inl (hw.trans (Silent.of_calm setInterrupted_calm h))
  have hcreate : (createContainer a expect command).Calls Calm :=
    createContainer_calls.mono fun _ => calm_creates
  rcases run_bind_or h with ⟨cid, u, hu, h⟩ | ⟨-, o', -, hu⟩
  swap
  · exact .inl (hw.trans (Silent.of_calm hcreate hu))
  replace hw := hw.trans (Silent.of_calm hcreate hu)
  obtain ⟨hcid, id, rfl⟩ := createContainer_cid hu
  rcases run_bind_or h with ⟨stop, v₁, hv₁, h⟩ | ⟨-, o', -, hv₁⟩
  swap
  · exact .inl (hw.trans (Silent.of_calm hevent hv₁))
  replace hw := hw.trans (Silent.of_calm hevent hv₁)
  split at h
  · exact .inl (hw.trans (Silent.of_calm setInterrupted_calm h))
  obtain ⟨rfl, -⟩ := run_ask_value rfl hv₁
  rcases startAndWatch_run h with hsilent | hexited
  · exact .inl (hw.trans hsilent)
  · refine .inr ⟨id, hexited.after_silent hw, ?_⟩
    exact Run.keeps (I := fun l => l.cid = some id.text) (startAndWatch_keeps fun _ _ hl => hl)
      h hcid

end

end Guard
end FlashNext
