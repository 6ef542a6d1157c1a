import FlashNext.Guard.Start

/-!
# Stopping only what is owned

Both programs that stop a container, the cleanup of `run` and `guard_stop.main`, do it
through `stopOwned`.  The identifier may come from `create`, from the cidfile, from a lookup
by name or from a launch record; what is checked right before the call is the same.
-/

namespace FlashNext
namespace Guard

open Effect Posix Text Checkpoint

/-! ## `guard_stop` -/

/-- The digest behind `sha256:`. -/
def imageDigest (image : Json) : Except Exn String := do
  let text ← orRaise image.asStr? (.launch "image identity missing")
  reject (text.toList.take 7 ≠ "sha256:".toList) (.launch "image identity missing")
  let _ ← requireHex (.str (String.ofList (text.toList.drop 7))) 64 "image ID"
  return text

/-- What a launch record binds: the container and what to expect of it. -/
def bindingOf (record : Json) : Except Exn (String × Expect) := do
  let cid ← record.get "cid"
  let cid ← requireHex cid 64 "container ID"
  let nonce ← record.get "nonce"
  let nonce ← requireHex nonce 32 "owner nonce"
  let profile ← record.get "profile_sha256"
  let profile ← requireHex profile 64 "profile hash"
  let image ← record.get "image"
  let image ← imageDigest image
  return (cid.text, ⟨nonce, image, profile⟩)

def stopRecorded (recordPath : String) : GuardM (Option String) := do
  let path ← attempt (ask (.safePath recordPath false))
  let (record, _) ← attempt (ask (.readJson .record path))
  let (cid, expect) ← Prog.ofExcept (bindingOf record)
  let _ ← stopOwned expect cid
  return some cid

def reportStop (e : Exn) : GuardM (Option String) :=
  if e.handled then do
    ask (.report e)
    return none
  else .throw e

/-- `guard_stop.main`: the exit code. -/
def main (recordPath : String) : GuardM Nat := do
  let done ← (stopRecorded recordPath).handle reportStop
  match done with
  | none => return exitCleanup
  | some cid => do
    attempt (ask (.print (.str ("STOPPED " ++ cid))))
    return 0

/-! ## The rule -/

/-- The event before is an inspection of the same container that shows it owned and
running. -/
def JustInspected (expect : Expect) (log : Log) (cid : String) : Prop :=
  ∃ before site doc running, log = before ++ [inspected site cid (.ok doc)] ∧
    Owned doc expect cid ∧ runningOf doc = .ok running ∧ running.truthy = true

/-- What holds when a launch stops a container. -/
def LaunchMayStop (env : Env) (args : Args) (op : Op) (log : Log) : Prop :=
  ∀ cid, op = .stop cid → ∃ expect, Epoch env args log expect ∧ JustInspected expect log cid

/-- What holds when `guard_stop` stops a container. -/
def RecordMayStop (op : Op) (log : Log) : Prop :=
  ∀ cid, op = .stop cid → ∃ path record raw expect,
    (⟨.readJson .record path, .ok (record, raw)⟩ : Event Op Ans) ∈ log ∧
      bindingOf record = .ok (cid, expect) ∧ JustInspected expect log cid

section

variable {env : Env} {ok : (op : Op) → Ans op → Prop} {w w' : World} {args : Args}
  {a : Admitted} {expect : Expect}

def NoStop (op : Op) : Prop := ∀ cid, op ≠ .stop cid

/-- Parts that stop nothing are guarded, whatever stopping asks for. -/
theorem guarded_of_noStop {α : Type} {R : Op → Log → Prop} {p : GuardM α} (hp : p.Calls NoStop)
    (hR : ∀ op log, NoStop op → R op log) :
    Guarded (semantics env ok) (fun op v => R op v.log) p w :=
  Guarded.of_calls hp (fun op v hop => hR op v.log hop) w

theorem launchMayStop_other {op : Op} {log : Log} (h : NoStop op) :
    LaunchMayStop env args op log := fun cid hop => absurd hop (h cid)

theorem recordMayStop_other {op : Op} {log : Log} (h : NoStop op) : RecordMayStop op log :=
  fun cid hop => absurd hop (h cid)

theorem collect_guarded {cid : String} (h : Epoch env args w.log expect) :
    Guarded (semantics env ok) (fun op v => LaunchMayStop env args op v.log)
      (collect expect cid) w := by
  refine (Guarded.ofExcept _ w).bind fun _ v hv => ?_
  obtain ⟨-, rfl⟩ := run_ofExcept_value.mp hv
  refine Guarded.bind (stopOwned_guarded (fun op u hop => launchMayStop_other hop) ?_)
    fun final u _ => ?_
  · intro doc running howned hrunning htruthy cid' hcid
    obtain rfl : cid = cid' := by simpa using hcid
    have hev : ∀ e ∈ [inspected .stopFirst cid (.ok doc)], Neutral e.1 := by
      simp [Neutral]
    exact ⟨expect, h.append hev, v.log, .stopFirst, doc, running, rfl, howned, hrunning, htruthy⟩
  · refine guarded_of_noStop ?_ (fun op log hop => launchMayStop_other hop)
    refine (calls_save (by simp [NoStop]) (by simp [NoStop]) final).bind fun _ => ?_
    refine Prog.Calls.bind (calls_attempt (calls_ask (by simp [NoStop]))) fun _ => ?_
    exact calls_attempt (calls_ask (by simp [NoStop]))

theorem cleanup_guarded (h : Epoch env args w.log expect) :
    Guarded (semantics env ok) (fun op v => LaunchMayStop env args op v.log)
      (cleanup expect) w := by
  have hother : ∀ {α : Type} {p : GuardM α} {v : World}, p.Calls NoStop →
      Guarded (semantics env ok) (fun op v => LaunchMayStop env args op v.log) p v :=
    fun hp => guarded_of_noStop hp fun op log hop => launchMayStop_other hop
  have hlocals : (ask .locals).Calls NoStop := calls_ask (by simp [NoStop])
  refine (hother hlocals).bind fun l v hv => ?_
  obtain ⟨-, rfl⟩ := run_locals hv
  have hresolve : ∀ op, Resolves op → NoStop op ∧ Neutral op := by
    intro op hop
    cases op <;> first | exact hop.elim | exact ⟨by simp [NoStop], trivial⟩
  refine (hother (resolveIfUncertain_calls.mono fun op hop => (hresolve op hop).1)).bind
    fun _ v hv => ?_
  have hepoch : Epoch env args v.log expect :=
    h.of_run (resolveIfUncertain_calls.mono fun op hop => (hresolve op hop).2) hv
  refine (hother hlocals).bind fun l u hu => ?_
  obtain ⟨-, rfl⟩ := run_locals hu
  refine Guarded.bind ?_ fun _ u _ => hother ?_
  · unfold collectIfCreated
    split
    · trivial
    · split
      · trivial
      · refine (collect_guarded hepoch).handle fun e u _ => hother ?_
        unfold recordCleanupError
        refine Prog.Calls.ite ?_ trivial
        exact (calls_assign (by simp [NoStop])).bind fun _ => calls_assign (by simp [NoStop])
  · refine (calls_assign (by simp [NoStop])).bind fun _ => saveRecord_calls.mono ?_
    intro op hop
    cases op <;> first | exact hop.elim | simp [NoStop]

theorem launch_mayStop {rounds : Nat} (h : Opened args a w.log) :
    Guarded (semantics env ok) (fun op v => LaunchMayStop env args op v.log)
      (launch env args a rounds) w := by
  have hother : ∀ {α : Type} {p : GuardM α} {v : World}, p.Calls NoStop →
      Guarded (semantics env ok) (fun op v => LaunchMayStop env args op v.log) p v :=
    fun hp => guarded_of_noStop hp fun op log hop => launchMayStop_other hop
  have hprepares : ∀ op, Prepares op → NoStop op ∧ Neutral op := by
    intro op hop
    cases op <;> first | exact hop.elim | exact ⟨by simp [NoStop], trivial⟩
  have hfinishes : ∀ op, Finishes op → NoStop op ∧ Neutral op := by
    intro op hop
    cases op <;> first | exact hop.elim | exact ⟨by simp [NoStop], trivial⟩
  have hspawns : ∀ op, Spawns op → NoStop op ∧ Neutral op := by
    intro op hop
    rcases hop with hop | hop | hop <;> cases op <;>
      first | exact hop.elim | exact ⟨by simp [NoStop], trivial⟩
  have hset : ∀ f, (assign f).Calls (fun op => NoStop op ∧ Neutral op) :=
    fun _ => calls_assign ⟨by simp [NoStop], trivial⟩
  have hsave := saveRecord_calls.mono hfinishes
  refine (hother (prepareLaunch_calls.mono fun op hop => (hprepares op hop).1)).bind
    fun _ v hv => ?_
  have hfresh := h.fresh.of_run (prepareLaunch_calls.mono fun op hop => (hprepares op hop).2) hv
  have hnonce : (newEpoch env args a).Calls NoStop :=
    Prog.Calls.bind (calls_ask (by simp [NoStop])) fun _ => calls_ret
  refine (hother hnonce).bind fun expect v₁ h₁ => ?_
  have hepoch := (newEpoch_value hfresh h₁).1
  refine (hother ((hset _).mono fun op hop => hop.1)).bind fun _ v₂ h₂ => ?_
  have hepoch₂ := hepoch.of_run ((hset _).mono fun op hop => hop.2) h₂
  refine (hother (hsave.mono fun op hop => hop.1)).bind fun _ v₃ h₃ => ?_
  have hepoch₃ := hepoch₂.of_run (hsave.mono fun op hop => hop.2) h₃
  refine (hother ((hset _).mono fun op hop => hop.1)).bind fun _ v₄ h₄ => ?_
  have hepoch₄ := hepoch₃.of_run ((hset _).mono fun op hop => hop.2) h₄
  have hspawn : ((spawn args a expect (commandOf args a expect) rounds).handle
      recordError).Calls (fun op => NoStop op ∧ Neutral op) :=
    (spawn_calls.mono hspawns).handle fun e =>
      recordError_calls fun _ _ => ⟨by simp [NoStop], trivial⟩
  refine (hother (hspawn.mono fun op hop => hop.1)).finally_ fun o v₅ h₅ => ?_
  exact cleanup_guarded (hepoch₄.of_run (hspawn.mono fun op hop => hop.2) h₅)

theorem run_mayStop {rounds : Nat} :
    Guarded (semantics env ok) (fun op v => LaunchMayStop env args op v.log)
      (run env args rounds) initialWorld := by
  refine run_guarded (fun op log hop => launchMayStop_other ?_) fun a v hv => launch_mayStop hv
  intro cid heq
  rw [heq] at hop
  exact hop

theorem main_mayStop {recordPath : String} :
    Guarded (semantics env ok) (fun op v => RecordMayStop op v.log) (main recordPath) w := by
  have hother : ∀ {α : Type} {p : GuardM α} {v : World}, p.Calls NoStop →
      Guarded (semantics env ok) (fun op v => RecordMayStop op v.log) p v :=
    fun hp => guarded_of_noStop hp fun op log hop => recordMayStop_other hop
  have hpath : (attempt (ask (.safePath recordPath false))).Calls NoStop :=
    calls_attempt (calls_ask (by simp [NoStop]))
  have hread : ∀ path, (attempt (ask (.readJson .record path))).Calls NoStop :=
    fun path => calls_attempt (calls_ask (by simp [NoStop]))
  have hstop : Guarded (semantics env ok) (fun op v => RecordMayStop op v.log)
      (stopRecorded recordPath) w := by
    refine (hother hpath).bind fun path v hv => ?_
    refine (hother (hread path)).bind fun r v₁ h₁ => ?_
    obtain ⟨record, raw⟩ := r
    obtain ⟨rfl, -⟩ := run_ask_value rfl (run_attempt_value.mp h₁)
    refine (Guarded.ofExcept _ _).bind fun b v₂ h₂ => ?_
    obtain ⟨cid, expect⟩ := b
    obtain ⟨hbinding, rfl⟩ := run_ofExcept_value.mp h₂
    refine Guarded.bind (stopOwned_guarded (fun op u hop => recordMayStop_other hop) ?_)
      fun _ _ _ => trivial
    intro doc running howned hrunning htruthy cid' hcid
    obtain rfl : cid = cid' := by simpa using hcid
    refine ⟨path, record, raw, expect, ?_, hbinding, _, .stopFirst, doc, running, rfl, howned,
      hrunning, htruthy⟩
    simp
  have hreport : ∀ e, (reportStop e).Calls NoStop := fun e =>
    Prog.Calls.ite (Prog.Calls.bind (calls_ask (by simp [NoStop])) fun _ => calls_ret) trivial
  refine Guarded.bind (hstop.handle fun e v _ => hother (hreport e)) fun done v _ => ?_
  cases done with
  | none => trivial
  | some cid =>
    have hprint : (attempt (ask (.print (.str ("STOPPED " ++ cid))))).Calls NoStop :=
      calls_attempt (calls_ask (by simp [NoStop]))
    exact (hother hprint).bind fun _ _ _ => trivial

end

/-- No container but the expected one is ever stopped, and a stop is reported done only
after an inspection that shows it. -/
theorem stops_only_owned (env : Env) (args : Args) (rounds : Nat) (recordPath : String) :
    (∀ o w', Run (semantics env anyAnswer) (run env args rounds) initialWorld o w' →
      Clean (fun before e => LaunchMayStop env args e.1 before) w'.log) ∧
    (∀ o w', Run (semantics env anyAnswer) (main recordPath) initialWorld o w' →
      Clean (fun before e => RecordMayStop e.1 before) w'.log) ∧
    (∀ expect cid w final w',
      Run (semantics env anyAnswer) (stopOwned expect cid) w (.value final) w' →
      ∃ evs, w'.log = w.log ++ evs ++ [inspected .stopFinal cid (.ok final)] ∧
        Owned final expect cid ∧ runningOf final = .ok (.bool false)) := by
  refine ⟨fun o w' h => ?_, fun o w' h => ?_, fun expect cid w final w' h => ?_⟩
  · exact Run.clean (fun op a w _ hop => hop) run_mayStop h clean_nil
  · exact Run.clean (fun op a w _ hop => hop) main_mayStop h clean_nil
  · obtain ⟨first, running, -, -, howned, hfalse, rfl⟩ := stopOwned_value h
    refine ⟨[inspected .stopFirst cid (.ok first)] ++ stopEvents cid running, ?_, howned, hfalse⟩
    simp only [List.append_assoc]

/-! ## A recorded container that is stopped -/

def recordText : String :=
  "\x7b\"nonce\":\"00112233445566778899aabbccddeeff\",\"image\":" ++
  "\"sha256:0123456789abcdef0123456789abcdef0123456789abcdef0123456789abcdef\"," ++
  "\"profile_sha256\":" ++
  "\"1d8166e188659bf981554cf953dc257a79d9997d11a234032240fa863d5a34d3\"," ++
  "\"status\":\"STARTING\",\"cid\":" ++
  "\"fedcba9876543210fedcba9876543210fedcba9876543210fedcba9876543210\"\x7d"

def recordTree : Tree where
  node
    | ["record.json"] => some (.file ⟨64, 16, 1, 2, encode recordText⟩)
    | [] => some (.directory sampleStat)
    | _ => none
  cwd := []
  maxLinks := 40

/-- Answers under which the container is found running and stops. -/
def stopInput (op : Op) : In op :=
  match op with
  | .readJson _ _ => treeView recordTree
  | .inspect .stopFirst _ => (.ok (containerDoc true 0) : Except Exn Json)
  | op => launchInput op

def isStop (e : Event Op Ans) : Bool :=
  match e.1 with
  | .stop _ => true
  | _ => false

theorem record_stops : ((exec (semantics launchEnv anyAnswer) (fun _ => stopInput)
    (main "/record.json") 0 initialWorld).map fun r => (r.1, r.2.log.countP isStop)) =
      some (Outcome.value 0, 1) := by
  decide +kernel

theorem stops_only_owned_sample :
    ∃ w', Run (semantics launchEnv anyAnswer) (main "/record.json") initialWorld (.value 0) w' ∧
      w'.log.countP isStop = 1 ∧
      Clean (fun before e => RecordMayStop e.1 before) w'.log := by
  obtain ⟨⟨o, w'⟩, hexec, heq⟩ := Option.map_eq_some_iff.mp record_stops
  rw [Prod.mk.injEq] at heq
  obtain ⟨rfl, hcount⟩ := heq
  have hrun := run_of_exec hexec
  exact ⟨w', hrun, hcount,
    (stops_only_owned launchEnv launchArgs 1 "/record.json").2.1 _ _ hrun⟩

end Guard
end FlashNext
