import FlashNext.Guard.Honesty

/-!
# No container is abandoned

A `create` that did not yield a container ID is resolved from the cidfile or by name, and a
run that attempted one saves a final launch record.  The recovery stands in a `finally` block
behind two tests and raises what it does not expect, so both hold on the runs whose answers
`recoverable` admits; `run_not_abandoned` is about those.
-/

namespace FlashNext
namespace Guard

open Effect Posix Text Checkpoint

/-! ## What is to be shown -/

/-- `create` gave no container ID. -/
def Uncertain (r : Except Exn String) : Prop := ∀ id : Hex 64, r ≠ .ok id.text

/-- The recovery read the cidfile, or found none and asked for the name. -/
inductive RecoveryTried (expect : Expect) (log : Log) : Prop
  | cidfile (r : Except Exn String) (found : ⟨.cidfileExists, .ok true⟩ ∈ log)
      (read : ⟨.cidfileRead, r⟩ ∈ log)
  | name (r : Except Exn Json) (found : ⟨.cidfileExists, .ok false⟩ ∈ log)
      (asked : inspected .recover ("qwen38fn-" ++ expect.nonce.text) r ∈ log)

/-- `stop_owned` saw the container and that it does not run. -/
def VerifiedStopped (expect : Expect) (log : Log) : Prop :=
  ∃ cid final, inspected .stopFinal cid (.ok final) ∈ log ∧ Owned final expect cid ∧
    runningOf final = .ok (.bool false)

/-- Does not replace the launch record. -/
def NoRecord (op : Op) : Prop := ∀ value, op ≠ .replace .launchRecord value

/-- The launch record ends with a final status, and says so when nothing was verified. -/
def Settled (expect : Expect) (log : Log) : Prop :=
  ∃ before record after,
    log = before ++ ⟨.replace .launchRecord (.obj record), .ok ()⟩ :: after ∧
    (∀ e ∈ after, NoRecord e.1) ∧
    (Json.lookup record "status" = some (.str "STOPPED") ∨
      Json.lookup record "status" = some (.str "FAILED")) ∧
    (VerifiedStopped expect log ∨ (Json.lookup record "cleanup_error").isSome ∨
      Json.lookup record "create_outcome" = some (.str "UNKNOWN"))

/-- A run abandons no container it may have created. -/
structure NotAbandoned (env : Env) (args : Args) (log : Log) : Prop where
  recovered : ∀ before argv cidfile r after, log = before ++ ⟨.create argv cidfile, r⟩ :: after →
    Uncertain r → ∃ expect, Epoch env args log expect ∧ RecoveryTried expect after
  settled : ∀ argv cidfile r, (⟨.create argv cidfile, r⟩ : Event Op Ans) ∈ log →
    ∃ expect, Epoch env args log expect ∧ Settled expect log

/-! ## What is assumed of the answers -/

/-- A handler of the cleanup catches what was raised. -/
def caught {α : Type} : Except Exn α → Bool
  | .ok _ => true
  | .error e => e.handled

def onlyTransport {α : Type} : Except Exn α → Bool
  | .ok _ => true
  | .error (.transport _) => true
  | .error _ => false

/-- What Docker and the file system promise: Docker shows an object or raises a
`TransportError`, and writing a file raises nothing but an `OSError` or a `ValueError`. -/
def promised : (op : Op) → Ans op → Bool
  | .inspect _ _, .ok doc => doc.asObj?.isSome
  | .inspect _ _, .error e => onlyTransport (.error e : Except Exn Json)
  | .stop _, r => onlyTransport r
  | .logs _, r => onlyTransport r
  | .writeTemp _ _, r => caught r
  | .replace _ _, r => caught r
  | .writeText _ _, r => caught r
  | _, _ => true

/-- The checks of the recovery by name. -/
def recoveredId (doc : Json) (expect : Expect) : Except Exn Json := do
  let id ← doc.get "Id"
  let candidate ← requireHex id 64 "recovered container ID"
  verifyOwnership doc expect candidate.text

/-- The checks of `stop_owned`. -/
def stoppedState (doc : Json) (expect : Expect) (cid : String) : Except Exn Json := do
  let doc ← verifyOwnership doc expect cid
  runningOf doc

/-- The record of a launch that is still under way. -/
def starting (record : Json) : Bool :=
  match record with
  | .obj fields => (Json.field fields "status").isText "STARTING"
  | _ => false

def succeeds {α : Type} : Except Exn α → Bool
  | .ok _ => true
  | .error _ => false

/-- The answers that the recovery and the cleanup are written for: `create` gives a container
ID or raises; the cidfile can be looked for and read and is not blank; no document makes a
check of the cleanup raise what its handlers do not name; the final record can be saved. -/
def recoverable (expect : Expect) : (op : Op) → Ans op → Bool
  | .create _ _, .ok cid => isHex 64 cid
  | .cidfileExists, r => succeeds r
  | .cidfileRead, .ok text => strip text ≠ ""
  | .cidfileRead, .error _ => false
  | .inspect .recover _, .ok doc => caught (recoveredId doc expect)
  | .inspect .stopFirst cid, .ok doc => caught (stoppedState doc expect cid)
  | .inspect .stopFinal cid, .ok doc => caught (stoppedState doc expect cid)
  | .writeTemp .launchRecord record, r => starting record || succeeds r
  | .replace .launchRecord record, r => starting record || succeeds r
  | _, _ => true

def favourable (expect : Expect) (op : Op) (r : Ans op) : Prop :=
  promised op r = true ∧ recoverable expect op r = true

theorem favourable_quiet {expect : Expect} (op : Op) (r : Ans op) (h : quiet op = true) :
    favourable expect op r := by
  cases op with
  | locals => exact ⟨rfl, rfl⟩
  | assign f => exact ⟨rfl, rfl⟩
  | _ => cases h

/-! ## What the checks raise -/

/-- Raised by a check of the launcher itself. -/
def plain : Exn → Prop
  | .launch _ => True
  | .other _ => True
  | _ => False

theorem raises_get {j : Json} {key : String} : Raises plain (j.get key) := by
  cases j with
  | obj fs => exact Raises.ok
  | _ => exact Raises.error trivial

theorem raises_getDefault {j default : Json} {key : String} :
    Raises plain (getDefault j key default) := by
  cases j with
  | obj fs => exact Raises.ok
  | _ => exact Raises.error trivial

theorem raises_labelsOf {doc : Json} : Raises plain (labelsOf doc) :=
  raises_getDefault.bind fun _ => raises_get.bind fun _ => Raises.ok

theorem raises_verifyOwnership {doc : Json} {expect : Expect} {cid : String} :
    Raises plain (verifyOwnership doc expect cid) := by
  refine raises_get.bind fun _ => raises_get.bind fun _ => ?_
  refine (Raises.reject trivial).bind fun _ => raises_labelsOf.bind fun _ => ?_
  refine raises_get.bind fun _ => raises_get.bind fun _ => raises_get.bind fun _ => ?_
  exact (Raises.reject trivial).bind fun _ => Raises.ok

theorem raises_requireHex {value : Json} {length : Nat} {field : String} :
    Raises (fun e => plain e ∧ e.handled = true) (requireHex value length field) :=
  Raises.orRaise ⟨trivial, rfl⟩

theorem raises_recoveredId {doc : Json} {expect : Expect} :
    Raises plain (recoveredId doc expect) := by
  refine raises_get.bind fun _ => Raises.bind ?_ fun _ => raises_verifyOwnership
  exact fun e he => (raises_requireHex e he).1

theorem handled_of_caught {α : Type} {x : Except Exn α} {e : Exn} (h : caught x = true)
    (he : x = .error e) : e.handled = true := by
  rw [he] at h
  exact h

theorem onlyTransport_error {α : Type} {e : Exn}
    (h : onlyTransport (.error e : Except Exn α) = true) : ∃ m, e = .transport m := by
  cases e with
  | transport m => exact ⟨m, rfl⟩
  | _ => cases h

theorem succeeds_ok {α : Type} {x : Except Exn α} (h : succeeds x = true) : ∃ a, x = .ok a := by
  cases x with
  | ok a => exact ⟨a, rfl⟩
  | error e => cases h

/-! ## The record -/

theorem lookup_setItem {record : List (String × Json)} {key k : String} {v : Json} :
    Json.lookup (setItem record key v) k = if key = k then some v else Json.lookup record k := by
  induction record with
  | nil => rw [setItem, Json.lookup_cons]
  | cons f record ih =>
    obtain ⟨k', v'⟩ := f
    unfold setItem
    by_cases hk : k' = key
    · rw [if_pos hk, Json.lookup_cons, Json.lookup_cons, hk]
      by_cases hkey : key = k
      · rw [if_pos hkey, if_pos hkey]
      · rw [if_neg hkey, if_neg hkey, if_neg hkey]
    · rw [if_neg hk, Json.lookup_cons, Json.lookup_cons, ih]
      by_cases hkey : key = k
      · rw [if_pos hkey, if_neg (fun h => hk (h.trans hkey.symm)), if_pos hkey]
      · rw [if_neg hkey, if_neg hkey]

theorem finishRecord_status (l : Locals) :
    Json.lookup (finishRecord l).record "status" =
      some (.str (if l.rc = 0 then "STOPPED" else "FAILED")) := by
  simp only [finishRecord, lookup_setItem, String.reduceEq, if_true, if_false]

/-- The last entries leave the others. -/
theorem finishRecord_other (l : Locals) {key : String} (hs : "status" ≠ key)
    (hc : "exit_code" ≠ key) (hi : "cid" ≠ key) :
    Json.lookup (finishRecord l).record key = Json.lookup l.record key := by
  simp only [finishRecord, lookup_setItem, if_neg hs, if_neg hc, if_neg hi]

theorem finishRecord_not_starting (l : Locals) :
    starting (.obj (finishRecord l).record) = false := by
  rw [starting, Json.field, finishRecord_status]
  split <;> decide

section

variable {env : Env} {ok : (op : Op) → Ans op → Prop} {w v w' : World} {args : Args}
  {a : Admitted} {expect : Expect} {cid : String}

/-! ## The create -/

/-- Creates nothing and leaves what is known of the container. -/
def Aside (op : Op) : Prop :=
  NoCreate op ∧ ∀ f, op = .assign f → ∀ l, (f l).cid = l.cid ∧
    (f l).createAttempted = l.createAttempted

/-- What the local variables know of the one `create` of a launch. -/
inductive CreateKnown (ok : (op : Op) → Ans op → Prop) (w : World) : Prop
  | never (log : ∀ e ∈ w.log, NoCreate e.1) (cid : w.st.cid = none)
      (attempted : w.st.createAttempted = false)
  | once (before : Log) (argv : List String) (cidfile : String) (r : Except Exn String)
      (after : Log) (log : w.log = before ++ ⟨.create argv cidfile, r⟩ :: after)
      (noneBefore : ∀ e ∈ before, NoCreate e.1) (noneAfter : ∀ e ∈ after, NoCreate e.1)
      (answer : ok (.create argv cidfile) r) (cid : w.st.cid = r.toOption)
      (attempted : w.st.createAttempted = true)

theorem CreateKnown.of_run {α : Type} {p : GuardM α} {o : Outcome Exn α}
    (h : CreateKnown ok w) (hp : p.Calls Aside) (hrun : Run (semantics env ok) p w o w') :
    CreateKnown ok w' := by
  obtain ⟨evs, hlog, hevs⟩ := Run.log_extends hp hrun
  have hkeep : p.Calls (Keeps fun l => l.cid = w.st.cid ∧
      l.createAttempted = w.st.createAttempted) := by
    refine hp.mono ?_
    rintro op hop f rfl l ⟨hcid, hattempted⟩
    obtain ⟨h₁, h₂⟩ := hop.2 f rfl l
    exact ⟨h₁.trans hcid, h₂.trans hattempted⟩
  obtain ⟨hcid, hattempted⟩ := Run.keeps
    (I := fun l => l.cid = w.st.cid ∧ l.createAttempted = w.st.createAttempted) hkeep hrun
    ⟨rfl, rfl⟩
  cases h with
  | never log cid attempted =>
    refine .never ?_ (hcid.trans cid) (hattempted.trans attempted)
    intro e he
    rw [hlog] at he
    exact (List.mem_append.mp he).elim (log e) fun he => (hevs e he).1
  | once before argv cidfile r after log noneBefore noneAfter answer cid attempted =>
    refine .once before argv cidfile r (after ++ evs) ?_ noneBefore ?_ answer (hcid.trans cid)
      (hattempted.trans attempted)
    · rw [hlog, log, List.append_assoc, List.cons_append]
    · intro e he
      exact (List.mem_append.mp he).elim (noneAfter e) fun he => (hevs e he).1

theorem aside_call {op : Op} (hc : NoCreate op) (ha : ∀ f, op ≠ .assign f) : Aside op :=
  ⟨hc, fun f hf => absurd hf (ha f)⟩

theorem aside_follows {op : Op} (h : Follows op) : Aside op := by
  refine ⟨?_, ?_⟩
  · rintro argv cidfile rfl
    exact h.elim id id
  · rintro f rfl l
    obtain ⟨rc, rfl⟩ : SetsRc f := h.elim id id
    exact ⟨rfl, rfl⟩

theorem saveRecord_aside : saveRecord.Calls Aside := by
  have hop : ∀ {op}, NoCreate op → (∀ f, op ≠ .assign f) → Aside op := aside_call
  refine (calls_ask (hop (by simp [NoCreate]) (by simp))).bind fun l => ?_
  exact calls_save (fun v => hop (by simp [NoCreate]) (by simp))
    (fun v => hop (by simp [NoCreate]) (by simp)) _

theorem setRecord_aside {key : String} {value : Json} : (setRecord key value).Calls Aside := by
  refine calls_assign ⟨by simp [NoCreate], ?_⟩
  intro f hf l
  rw [Op.assign.injEq] at hf
  subst hf
  exact ⟨rfl, rfl⟩

theorem recordError_aside {e : Exn} : (recordError e).Calls Aside :=
  Prog.Calls.ite setRecord_aside trivial

/-- The rest of the creation, once `create` gave an ID. -/
theorem createContainer_rest {id : String} : (do
    let _ ← Prog.ofExcept (requireHex (.str id) 64 "container ID")
    setRecord "cid" (.str id)
    saveRecord
    let doc ← attempt (ask (.inspect .created id))
    let _ ← Prog.ofExcept (verifyOwnership doc expect id)
    return id : GuardM String).Calls Aside := by
  refine (Prog.Calls.ofExcept _).bind fun _ => setRecord_aside.bind fun _ =>
    saveRecord_aside.bind fun _ => ?_
  refine Prog.Calls.bind (calls_attempt (calls_ask ?_)) fun _ => ?_
  · exact aside_call (by simp [NoCreate]) (by simp)
  · exact (Prog.Calls.ofExcept _).bind fun _ => calls_ret

/-- After the call of `create` the local variables know what it gave. -/
theorem createContainer_known {command : List String} {o : Outcome Exn String}
    (hlog : ∀ e ∈ w.log, NoCreate e.1) (hcid : w.st.cid = none)
    (h : Run (semantics env ok) (createContainer a expect command) w o w') :
    CreateKnown ok w' := by
  obtain ⟨r, hr, h₂⟩ := run_ask_bind rfl (run_assign_bind h)
  cases r with
  | error e =>
    obtain ⟨-, rfl⟩ := h₂
    exact .once w.log command _ (.error e) [] rfl hlog (by simp) hr hcid rfl
  | ok id =>
    refine CreateKnown.of_run ?_ createContainer_rest (run_assign_bind h₂)
    exact .once w.log command _ (.ok id) [] rfl hlog (by simp) hr rfl rfl

theorem spawn_known {command : List String} {rounds : Nat} {o : Outcome Exn Unit}
    (hlog : ∀ e ∈ w.log, NoCreate e.1) (hcid : w.st.cid = none)
    (hattempted : w.st.createAttempted = false)
    (h : Run (semantics env ok) ((spawn args a expect command rounds).handle recordError) w o w') :
    CreateKnown ok w' := by
  have hevent : Aside .eventIsSet := aside_call (by simp [NoCreate]) (by simp)
  have hset : ∀ f, SetsRc f → Aside (.assign f) := fun f hf => aside_follows (.inl hf)
  have hint : setInterrupted.Calls Aside :=
    setInterrupted_calls (aside_call (by simp [NoCreate]) (by simp)) hset
  have hspawn : ∀ {o : Outcome Exn Unit} {v : World},
      Run (semantics env ok) (spawn args a expect command rounds) w o v → CreateKnown ok v := by
    intro o v h
    obtain ⟨stop, -, h₁⟩ := run_ask_bind rfl h
    have hlog₁ : ∀ e ∈ w.log ++ [⟨.eventIsSet, stop⟩], NoCreate e.1 := by
      intro e he
      rcases List.mem_append.mp he with he | he
      · exact hlog e he
      · rw [List.mem_singleton.mp he]
        exact hevent.1
    generalize hv : (⟨w.log ++ [⟨.eventIsSet, stop⟩], w.st⟩ : World) = v₁ at h₁
    replace hlog₁ : ∀ e ∈ v₁.log, NoCreate e.1 := hv ▸ hlog₁
    have hcid₁ : v₁.st.cid = none := hv ▸ hcid
    have hattempted₁ : v₁.st.createAttempted = false := hv ▸ hattempted
    cases stop with
    | true => exact CreateKnown.of_run (.never hlog₁ hcid₁ hattempted₁) hint h₁
    | false =>
      rcases run_bind_or h₁ with ⟨id, u, h₂, h₃⟩ | ⟨-, o', -, h₂⟩
      · have hu := createContainer_known hlog₁ hcid₁ h₂
        refine hu.of_run ((calls_ask hevent).bind fun stop => Prog.Calls.ite hint ?_) h₃
        exact startAndWatch_calls.mono fun _ => aside_follows
      · exact createContainer_known hlog₁ hcid₁ h₂
  rcases run_handle.mp h with ⟨_, -, h₁⟩ | ⟨e, v, h₁, h₂⟩ | ⟨-, h₁⟩
  · exact hspawn h₁
  · exact (hspawn h₁).of_run recordError_aside h₂
  · exact hspawn h₁

/-! ## The recovery -/

/-- A container to stop is known, or the record says that none is. -/
def Located (l : Locals) : Prop :=
  (∃ c, l.cid = some c ∧ c ≠ "") ∨
    (l.cid = none ∧ Json.lookup l.record "create_outcome" = some (.str "UNKNOWN"))

theorem launch_of_caught {e : Exn} (hplain : plain e) (h : e.handled = true) :
    ∃ m, e = .launch m := by
  cases e with
  | launch m => exact ⟨m, rfl⟩
  | other m => cases h
  | _ => exact hplain.elim

/-- The recovery by name finds the container or raises what its handler names. -/
theorem recoverByName_run {o : Outcome Exn Unit}
    (h : Run (semantics env (favourable expect)) (recoverByName expect) w o w') :
    (∃ r, w'.log = w.log ++ [inspected .recover ("qwen38fn-" ++ expect.nonce.text) r]) ∧
      ((∃ id : Hex 64, o = .value () ∧ w'.st = { w.st with cid := some id.text }) ∨
        ∃ e, o = .raised e ∧ w'.st = w.st ∧
          ((∃ m, e = .launch m) ∨ ∃ m, e = .transport m)) := by
  obtain ⟨r, ⟨hpromised, hcaught⟩, h₁⟩ := run_ask_bind rfl h
  cases r with
  | error e =>
    obtain ⟨rfl, rfl⟩ := h₁
    exact ⟨⟨_, rfl⟩, .inr ⟨e, rfl, rfl, .inr (onlyTransport_error hpromised)⟩⟩
  | ok doc =>
    have hraised : ∀ e, recoveredId doc expect = .error e → ∃ m, e = .launch m :=
      fun e he => launch_of_caught (raises_recoveredId e he) (handled_of_caught hcaught he)
    rcases (run_ofExcept_bind (r := doc.get "Id")).mp h₁ with ⟨id, hid, h₂⟩ | ⟨e, he, rfl, rfl⟩
    swap
    · exact ⟨⟨_, rfl⟩, .inr ⟨e, rfl, rfl, .inl (hraised e (bind_error.mpr (.inl he)))⟩⟩
    rcases run_ofExcept_bind.mp h₂ with ⟨candidate, hc, h₃⟩ | ⟨e, he, rfl, rfl⟩
    swap
    · refine ⟨⟨_, rfl⟩, .inr ⟨e, rfl, rfl, .inl (hraised e (bind_error.mpr (.inr ⟨id, hid, ?_⟩)))⟩⟩
      exact bind_error.mpr (.inl he)
    rcases run_ofExcept_bind.mp h₃ with ⟨doc', hdoc, h₄⟩ | ⟨e, he, rfl, rfl⟩
    swap
    · refine ⟨⟨_, rfl⟩, .inr ⟨e, rfl, rfl, .inl (hraised e (bind_error.mpr (.inr ⟨id, hid, ?_⟩)))⟩⟩
      exact bind_error.mpr (.inr ⟨candidate, hc, he⟩)
    obtain ⟨rfl, rfl⟩ := run_assign h₄
    exact ⟨⟨_, rfl⟩, .inl ⟨candidate, rfl, rfl⟩⟩

theorem recordUnknown_run {e : Exn} {o : Outcome Exn Unit}
    (he : (∃ m, e = .launch m) ∨ ∃ m, e = .transport m)
    (h : Run (semantics env ok) (recordUnknown e) w o w') :
    o = .value () ∧
      w' = ⟨w.log, { w.st with record := setItem w.st.record "create_outcome" (.str "UNKNOWN") }⟩ := by
  rcases he with ⟨m, rfl⟩ | ⟨m, rfl⟩
  · exact run_assign h
  · exact run_assign h

theorem recoverByName_located {o : Outcome Exn Unit} (hcid : w.st.cid = none)
    (h : Run (semantics env (favourable expect)) ((recoverByName expect).handle recordUnknown)
      w o w') :
    o = .value () ∧ Located w'.st ∧
      ∃ r, w'.log = w.log ++ [inspected .recover ("qwen38fn-" ++ expect.nonce.text) r] := by
  rcases run_handle.mp h with ⟨_, rfl, h₁⟩ | ⟨e, v, h₁, h₂⟩ | ⟨rfl, h₁⟩
  · obtain ⟨hlog, ⟨id, -, hst⟩ | ⟨e, he, -⟩⟩ := recoverByName_run h₁
    · refine ⟨rfl, .inl ⟨id.text, ?_, id.text_ne_empty⟩, hlog⟩
      rw [hst]
    · cases he
  · obtain ⟨hlog, ⟨id, he, -⟩ | ⟨e', he, hst, hkind⟩⟩ := recoverByName_run h₁
    · cases he
    · rw [Outcome.raised.injEq] at he
      obtain ⟨rfl, rfl⟩ := recordUnknown_run (he ▸ hkind) h₂
      refine ⟨rfl, .inr ⟨hst ▸ hcid, ?_⟩, hlog⟩
      rw [lookup_setItem, if_pos rfl]
  · obtain ⟨-, ⟨id, he, -⟩ | ⟨e', he, -⟩⟩ := recoverByName_run h₁
    · cases he
    · cases he

/-- After the recovery a container is known, or its outcome is recorded as unknown. -/
theorem resolveCreate_run {o : Outcome Exn Unit} (hcid : w.st.cid = none)
    (h : Run (semantics env (favourable expect)) (resolveCreate expect) w o w') :
    o = .value () ∧ Located w'.st ∧
      ∃ evs, w'.log = w.log ++ evs ∧ RecoveryTried expect evs := by
  obtain ⟨found, ⟨-, hfound⟩, h₁⟩ := run_ask_bind rfl h
  obtain ⟨exists_, rfl⟩ := succeeds_ok hfound
  cases exists_ with
  | true =>
    obtain ⟨text, ⟨-, htext⟩, h₂⟩ := run_ask_bind rfl h₁
    cases text with
    | error e => cases htext
    | ok text =>
      obtain ⟨rfl, rfl⟩ := run_assign h₂
      refine ⟨rfl, .inl ⟨strip text, rfl, of_decide_eq_true htext⟩, _, List.append_assoc _ _ _, ?_⟩
      exact .cidfile (.ok text) (by simp) (by simp)
  | false =>
    obtain ⟨rfl, hlocated, r, hlog⟩ := recoverByName_located
      (w := ⟨w.log ++ [⟨.cidfileExists, .ok false⟩], w.st⟩) hcid h₁
    refine ⟨rfl, hlocated, _, hlog.trans (List.append_assoc _ _ _), ?_⟩
    exact .name r (by simp) (by simp)

/-! ## The collection -/

abbrev Handled (e : Exn) : Prop := e.handled = true

theorem raising_ask {P : Exn → Prop} {op : Op} :
    Raising (semantics env ok) P (ask op : GuardM (Ans op)) :=
  fun _ _ _ h => absurd h ask_not_raised

theorem raising_attempt {α : Type} {P : Exn → Prop} {x : GuardM (Except Exn α)}
    (hraise : Raising (semantics env ok) P x)
    (hvalue : ∀ w e w', Run (semantics env ok) x w (.value (.error e)) w' → P e) :
    Raising (semantics env ok) P (attempt x) :=
  hraise.bind fun _ v v' h => Raising.ofExcept fun e he => hvalue v e v' (he ▸ h)

theorem handled_of_transport {α : Type} {e : Exn}
    (h : onlyTransport (.error e : Except Exn α) = true) : Handled e := by
  obtain ⟨m, rfl⟩ := onlyTransport_error h
  rfl

/-- The checks of a container that is to be stopped raise what the handler names. -/
theorem raising_checks {α : Type} {doc : Json} {k : Json → Json → GuardM α}
    (h : caught (stoppedState doc expect cid) = true)
    (hk : ∀ d r, Raising (semantics env ok) Handled (k d r)) :
    Raising (semantics env ok) Handled (do
      let d ← Prog.ofExcept (verifyOwnership doc expect cid)
      let r ← Prog.ofExcept (runningOf d)
      k d r) := by
  refine Raising.bind (Raising.ofExcept fun e he => ?_) fun d v v' hd => ?_
  · exact handled_of_caught h (bind_error.mpr (.inl he))
  · obtain ⟨hverify, rfl⟩ := run_ofExcept_value.mp hd
    refine Raising.bind (Raising.ofExcept fun e he => ?_) fun r _ _ _ => hk d r
    exact handled_of_caught h (bind_error.mpr (.inr ⟨d, hverify, he⟩))

theorem raising_inspect {site : Site} :
    Raising (semantics env (favourable expect)) Handled (attempt (ask (.inspect site cid))) :=
  raising_attempt raising_ask fun _ _ _ h => handled_of_transport (run_ask_value rfl h).2.1

theorem raising_stopOwned :
    Raising (semantics env (favourable expect)) Handled (stopOwned expect cid) := by
  refine Raising.bind raising_inspect fun first v v' hfirst => ?_
  have hcaught := (run_ask_value rfl (run_attempt_value.mp hfirst)).2.2
  refine raising_checks hcaught fun _ running => Raising.bind ?_ fun _ _ _ _ => ?_
  · unfold stopIfRunning
    split
    · exact raising_attempt raising_ask fun _ _ _ h =>
        handled_of_transport (run_ask_value rfl h).2.1
    · exact Raising.ret
  refine Raising.bind raising_inspect fun final v v' hfinal => ?_
  have hcaught := (run_ask_value rfl (run_attempt_value.mp hfinal)).2.2
  refine raising_checks hcaught fun _ running => ?_
  have hrequire : Handled (.launch "container stop could not be verified") := rfl
  exact (Raising.require hrequire).bind fun _ _ _ _ => Raising.ret

theorem raising_save {file : StateFile} {value : Json} :
    Raising (semantics env (favourable expect)) Handled (save file value) := by
  refine Raising.bind ?_ fun _ _ _ _ => ?_
  · exact raising_attempt raising_ask fun _ _ _ h => (run_ask_value rfl h).2.1
  · exact raising_attempt raising_ask fun _ _ _ h => (run_ask_value rfl h).2.1

theorem raising_collect :
    Raising (semantics env (favourable expect)) Handled (collect expect cid) := by
  refine Raising.bind (Raising.ofExcept fun e he => (raises_requireHex e he).2) fun _ _ _ _ => ?_
  refine raising_stopOwned.bind fun final _ _ _ => raising_save.bind fun _ _ _ _ => ?_
  refine Raising.bind ?_ fun text _ _ _ => ?_
  · exact raising_attempt raising_ask fun _ _ _ h =>
      handled_of_transport (run_ask_value rfl h).2.1
  · exact raising_attempt raising_ask fun _ _ _ h => (run_ask_value rfl h).2.1

/-- What the cleanup shows of a container it knew. -/
def Shown (expect : Expect) (evs : Log) (l : Locals) : Prop :=
  VerifiedStopped expect evs ∨ (Json.lookup l.record "cleanup_error").isSome ∨
    Json.lookup l.record "create_outcome" = some (.str "UNKNOWN")

theorem Collected.verified {evs : Log} (h : Collected expect cid evs) :
    VerifiedStopped expect evs := by
  obtain ⟨final, _, hfinal, howned, hrunning, -⟩ := h
  exact ⟨cid, final, hfinal, howned, hrunning⟩

theorem collectIfCreated_run {o : Outcome Exn Unit} (ho : o ≠ .cut) (hlocated : Located w.st)
    (h : Run (semantics env (favourable expect)) (collectIfCreated expect w.st) w o w') :
    o = .value () ∧ ∃ evs, w'.log = w.log ++ evs ∧ Shown expect evs w'.st := by
  unfold collectIfCreated at h
  rcases hlocated with ⟨c, hc, hne⟩ | ⟨hnone, hunknown⟩
  · rw [hc] at h
    replace h : Run (semantics env (favourable expect)) (if c = "" then return () else
      (collect expect c).handle recordCleanupError) w o w' := h
    rw [if_neg hne] at h
    rcases run_handle.mp h with ⟨_, rfl, h₁⟩ | ⟨e, v, h₁, h₂⟩ | ⟨rfl, -⟩
    · obtain ⟨evs, rfl, hcollected⟩ := collect_value h₁
      exact ⟨rfl, evs, rfl, .inl hcollected.verified⟩
    · obtain ⟨evs, rfl, -⟩ := collect_raised h₁
      unfold recordCleanupError at h₂
      rw [if_pos (raising_collect w e _ h₁)] at h₂
      obtain ⟨rfl, rfl⟩ := run_assign (run_assign_bind h₂)
      refine ⟨rfl, evs, rfl, .inr (.inl ?_)⟩
      show (Json.lookup (setItem w.st.record "cleanup_error" _) "cleanup_error").isSome = true
      rw [lookup_setItem, if_pos rfl]
      rfl
    · exact absurd rfl ho
  · rw [hnone] at h
    obtain ⟨rfl, rfl⟩ := h
    exact ⟨rfl, [], (List.append_nil _).symm, .inr (.inr hunknown)⟩

/-! ## The end of a launch -/

theorem RecoveryTried.mono {log log' : Log} (h : RecoveryTried expect log)
    (hsub : ∀ e ∈ log, e ∈ log') : RecoveryTried expect log' := by
  cases h with
  | cidfile r found read => exact .cidfile r (hsub _ found) (hsub _ read)
  | name r found asked => exact .name r (hsub _ found) (hsub _ asked)

theorem VerifiedStopped.mono {log log' : Log} (h : VerifiedStopped expect log)
    (hsub : ∀ e ∈ log, e ∈ log') : VerifiedStopped expect log' := by
  obtain ⟨c, final, hmem, howned, hrunning⟩ := h
  exact ⟨c, final, hsub _ hmem, howned, hrunning⟩

theorem Settled.append {log evs : Log} (h : Settled expect log)
    (hevs : ∀ e ∈ evs, NoRecord e.1) : Settled expect (log ++ evs) := by
  obtain ⟨before, record, after, rfl, hafter, hstatus, hshown⟩ := h
  refine ⟨before, record, after ++ evs, ?_, ?_, hstatus, ?_⟩
  · rw [List.append_assoc, List.cons_append]
  · intro e he
    exact (List.mem_append.mp he).elim (hafter e) (hevs e)
  · exact hshown.imp_left fun h => h.mono fun e he => List.mem_append_left _ he

/-- A record that is no longer starting is saved. -/
theorem saveRecord_favourable {o : Outcome Exn Unit}
    (hrecord : starting (.obj w.st.record) = false)
    (h : Run (semantics env (favourable expect)) saveRecord w o w') :
    o = .value () ∧ w' = ⟨w.log ++ [⟨.writeTemp .launchRecord (.obj w.st.record), .ok ()⟩,
      ⟨.replace .launchRecord (.obj w.st.record), .ok ()⟩], w.st⟩ := by
  have hdone : ∀ r : Except Exn Unit, (starting (.obj w.st.record) || succeeds r) = true →
      r = .ok () := by
    intro r hr
    rw [hrecord, Bool.false_or] at hr
    obtain ⟨u, rfl⟩ := succeeds_ok hr
    rfl
  obtain ⟨r, ⟨-, hr⟩, h₁⟩ := run_ask_bind rfl (run_locals_bind h)
  obtain rfl := hdone r hr
  obtain ⟨r', ⟨-, hr'⟩, h₂⟩ := run_ask_bind rfl h₁
  obtain rfl := hdone r' hr'
  obtain ⟨rfl, rfl⟩ := h₂
  exact ⟨rfl, by simp only [List.append_assoc, List.singleton_append]⟩

theorem resolveIfUncertain_run {o : Outcome Exn Unit} {argv : List String} {cidfile : String}
    {r : Except Exn String} (hanswer : favourable expect (.create argv cidfile) r)
    (hcid : w.st.cid = r.toOption) (hattempted : w.st.createAttempted = true)
    (h : Run (semantics env (favourable expect)) (resolveIfUncertain expect w.st) w o w') :
    o = .value () ∧ Located w'.st ∧
      ∃ evs, w'.log = w.log ++ evs ∧ (Uncertain r → RecoveryTried expect evs) := by
  unfold resolveIfUncertain at h
  cases r with
  | ok id =>
    have hid : isHex 64 id = true := hanswer.2
    replace hcid : w.st.cid = some id := hcid
    rw [if_neg fun hnone => by simp [hcid] at hnone] at h
    obtain ⟨rfl, rfl⟩ := h
    refine ⟨rfl, .inl ⟨id, hcid, Hex.text_ne_empty ⟨id, hid⟩⟩, [], (List.append_nil _).symm, ?_⟩
    exact fun huncertain => absurd rfl (huncertain ⟨id, hid⟩)
  | error e =>
    replace hcid : w.st.cid = none := hcid
    rw [if_pos ⟨hcid, hattempted⟩] at h
    obtain ⟨rfl, hlocated, evs, hlog, htried⟩ := resolveCreate_run hcid h
    exact ⟨rfl, hlocated, evs, hlog, fun _ => htried⟩

theorem cleanup_settles {o : Outcome Exn Unit} {argv : List String} {cidfile : String}
    {r : Except Exn String} (ho : o ≠ .cut)
    (hanswer : favourable expect (.create argv cidfile) r)
    (hcid : w.st.cid = r.toOption) (hattempted : w.st.createAttempted = true)
    (h : Run (semantics env (favourable expect)) (cleanup expect) w o w') :
    ∃ evs, w'.log = w.log ++ evs ∧ (Uncertain r → RecoveryTried expect evs) ∧
      Settled expect w'.log := by
  rcases run_bind.mp (run_locals_bind h) with ⟨_, v₁, h₁, h₂⟩ | ⟨e, rfl, h₁⟩ | ⟨rfl, -⟩
  swap
  · obtain ⟨hvalue, -⟩ := resolveIfUncertain_run hanswer hcid hattempted h₁
    cases hvalue
  swap
  · exact absurd rfl ho
  obtain ⟨-, hlocated, evs₁, hlog₁, htried⟩ := resolveIfUncertain_run hanswer hcid hattempted h₁
  rcases run_bind.mp (run_locals_bind h₂) with ⟨_, v₂, h₃, h₄⟩ | ⟨e, rfl, h₃⟩ | ⟨rfl, -⟩
  swap
  · obtain ⟨hvalue, -⟩ := collectIfCreated_run (by simp) hlocated h₃
    cases hvalue
  swap
  · exact absurd rfl ho
  obtain ⟨-, evs₂, hlog₂, hshown⟩ := collectIfCreated_run (by simp) hlocated h₃
  obtain ⟨-, hsaved⟩ := saveRecord_favourable (finishRecord_not_starting v₂.st)
    (run_assign_bind h₄)
  obtain ⟨saves, hsaves⟩ : ∃ saves : Log, saves =
      [⟨.writeTemp .launchRecord (.obj (finishRecord v₂.st).record), .ok ()⟩,
        ⟨.replace .launchRecord (.obj (finishRecord v₂.st).record), .ok ()⟩] := ⟨_, rfl⟩
  have hlog₃ : w'.log = v₂.log ++ saves := hsaves ▸ congrArg Traced.log hsaved
  refine ⟨evs₁ ++ (evs₂ ++ saves), ?_, fun hu => (htried hu).mono fun e he => ?_, ?_⟩
  · rw [hlog₃, hlog₂, hlog₁, List.append_assoc, List.append_assoc]
  · exact List.mem_append_left _ he
  · refine ⟨v₂.log ++ [⟨.writeTemp .launchRecord (.obj (finishRecord v₂.st).record), .ok ()⟩],
      (finishRecord v₂.st).record, [], ?_, by simp, ?_, ?_⟩
    · rw [hlog₃, hsaves, List.append_assoc]
      rfl
    · rw [finishRecord_status]
      by_cases hrc : v₂.st.rc = 0
      · rw [if_pos hrc]
        exact .inl rfl
      · rw [if_neg hrc]
        exact .inr rfl
    · rw [finishRecord_other v₂.st (by decide) (by decide) (by decide),
        finishRecord_other v₂.st (by decide) (by decide) (by decide)]
      refine hshown.imp_left fun h => h.mono fun e he => ?_
      rw [hlog₃, hlog₂]
      exact List.mem_append_left _ (List.mem_append_right _ he)

/-- A launch that created nothing, or created once, recovered and settled. -/
inductive Kept (expect : Expect) (log : Log) : Prop
  | never (none : ∀ e ∈ log, NoCreate e.1)
  | once (before : Log) (argv : List String) (cidfile : String) (r : Except Exn String)
      (after : Log) (split : log = before ++ ⟨.create argv cidfile, r⟩ :: after)
      (noneBefore : ∀ e ∈ before, NoCreate e.1) (noneAfter : ∀ e ∈ after, NoCreate e.1)
      (recovered : Uncertain r → RecoveryTried expect after) (settled : Settled expect log)

theorem noCreate_cleansUp {op : Op} (h : CleansUp op) : NoCreate op := by
  rintro argv cidfile rfl
  rcases h with h | h | h <;> exact h

theorem noCreate_early {op : Op} (h : Early op) : NoCreate op := by
  rintro argv cidfile rfl
  rcases h with (h | h) | h | h | h <;> first | exact h | cases h

theorem noCreate_closes {op : Op} (h : Closes op) : NoCreate op := by
  rintro argv cidfile rfl
  exact h

theorem noRecord_closes {op : Op} (h : Closes op) : NoRecord op := by
  rintro value rfl
  exact h

theorem cleanup_keeps_created {o : Outcome Exn Unit} (ho : o ≠ .cut)
    (hknown : CreateKnown (favourable expect) w)
    (h : Run (semantics env (favourable expect)) (cleanup expect) w o w') :
    Kept expect w'.log := by
  obtain ⟨evs, hlog, hevs⟩ := Run.log_extends cleanup_calls h
  cases hknown with
  | never log cid attempted =>
    refine .never fun e he => ?_
    rw [hlog] at he
    exact (List.mem_append.mp he).elim (log e) fun he => noCreate_cleansUp (hevs e he)
  | once before argv cidfile r after log noneBefore noneAfter answer cid attempted =>
    obtain ⟨evs', hlog', htried, hsettled⟩ := cleanup_settles ho answer cid attempted h
    obtain rfl : evs = evs' := List.append_cancel_left (hlog.symm.trans hlog')
    refine .once before argv cidfile r (after ++ evs) ?_ noneBefore ?_ ?_ hsettled
    · rw [hlog, log, List.append_assoc, List.cons_append]
    · intro e he
      exact (List.mem_append.mp he).elim (noneAfter e) fun he => noCreate_cleansUp (hevs e he)
    · exact fun hu => (htried hu).mono fun e he => List.mem_append_right _ he

theorem spawnCleaned_keeps {rounds : Nat} {o : Outcome Exn Unit} (ho : o ≠ .cut)
    (hready : Ready env args expect w)
    (h : Run (semantics env (favourable expect)) (spawnCleaned args a expect rounds) w o w') :
    Kept expect w'.log := by
  have hknown : ∀ {o v}, Run (semantics env (favourable expect))
      ((spawn args a expect (commandOf args a expect) rounds).handle recordError) w o v →
      CreateKnown (favourable expect) v := fun h =>
    spawn_known (fun e he => noCreate_early (hready.calls e he)) hready.cid
      hready.createAttempted h
  rcases run_finally.mp h with ⟨_, v, h₁, h₂⟩ | ⟨e, v, h₁, h₂⟩ | ⟨rfl, -⟩
  · rcases run_bind.mp h₂ with ⟨_, u, h₃, rfl, rfl⟩ | ⟨e, rfl, h₃⟩ | ⟨rfl, -⟩
    · exact cleanup_keeps_created (by simp) (hknown h₁) h₃
    · exact cleanup_keeps_created (by simp) (hknown h₁) h₃
    · exact absurd rfl ho
  · rcases run_bind.mp h₂ with ⟨_, u, h₃, rfl, rfl⟩ | ⟨e', rfl, h₃⟩ | ⟨rfl, -⟩
    · exact cleanup_keeps_created (by simp) (hknown h₁) h₃
    · exact cleanup_keeps_created (by simp) (hknown h₁) h₃
    · exact absurd rfl ho
  · exact absurd rfl ho

theorem Kept.append {log evs : Log} (h : Kept expect log) (hevs : ∀ e ∈ evs, Closes e.1) :
    Kept expect (log ++ evs) := by
  cases h with
  | never none =>
    refine .never fun e he => ?_
    exact (List.mem_append.mp he).elim (none e) fun he => noCreate_closes (hevs e he)
  | once before argv cidfile r after split noneBefore noneAfter recovered settled =>
    refine .once before argv cidfile r (after ++ evs) ?_ noneBefore ?_ ?_ ?_
    · rw [split, List.append_assoc, List.cons_append]
    · intro e he
      exact (List.mem_append.mp he).elim (noneAfter e) fun he => noCreate_closes (hevs e he)
    · exact fun hu => (recovered hu).mono fun e he => List.mem_append_left _ he
    · exact settled.append fun e he => noRecord_closes (hevs e he)

theorem notAbandoned_of_none {log : Log} (h : ∀ e ∈ log, NoCreate e.1) :
    NotAbandoned env args log := by
  refine ⟨?_, ?_⟩
  · rintro before argv cidfile r after rfl
    exact absurd rfl (h _ (List.mem_append_right _ List.mem_cons_self) argv cidfile)
  · intro argv cidfile r he
    exact absurd rfl (h _ he argv cidfile)

theorem Kept.notAbandoned {log : Log} (hepoch : Epoch env args log expect)
    (h : Kept expect log) : NotAbandoned env args log := by
  cases h with
  | never none => exact notAbandoned_of_none none
  | once before argv cidfile r after split noneBefore noneAfter recovered settled =>
    refine ⟨?_, fun _ _ _ _ => ⟨expect, hepoch, settled⟩⟩
    intro before' argv' cidfile' r' after' split' huncertain
    obtain ⟨-, hev, rfl⟩ := split_unique (P := fun e : Event Op Ans => ¬ NoCreate e.1)
      (fun e he h => h (noneBefore e he)) (fun e he h => h (noneAfter e he))
      (split.symm.trans split') (by simp [NoCreate])
    rw [Sigma.mk.injEq, Op.create.injEq] at hev
    obtain ⟨⟨rfl, rfl⟩, hr⟩ := hev
    have hr' : r = r' := eq_of_heq hr
    exact ⟨expect, hepoch, recovered (hr' ▸ huncertain)⟩

/-! ## The whole run -/

/-- A finished run was refused, or launched and then only closed. -/
theorem run_cases {rounds : Nat} {o : Outcome Exn Nat} (hprint : args.printOnly = false)
    (ho : o ≠ .cut)
    (h : Run (semantics env ok) (run env args rounds) initialWorld o w') :
    (∀ e ∈ w'.log, Opens e.1 ∨ Closes e.1) ∨
      ∃ a v o' v' tail, Entered args a v ∧ o' ≠ .cut ∧
        Run (semantics env ok) (launch env args a rounds) v o' v' ∧
        w'.log = v'.log ++ tail ∧ ∀ e ∈ tail, Closes e.1 := by
  have hrest : ∀ {oc : Outcome Exn (Option Nat)} {u : World}, oc ≠ .cut →
      Run (semantics env ok) (body env args rounds) initialWorld oc u →
      ∀ evs, w'.log = u.log ++ evs → (∀ e ∈ evs, Closes e.1) →
      (∀ e ∈ w'.log, Opens e.1 ∨ Closes e.1) ∨
        ∃ a v o' v' tail, Entered args a v ∧ o' ≠ .cut ∧
          Run (semantics env ok) (launch env args a rounds) v o' v' ∧
          w'.log = v'.log ++ tail ∧ ∀ e ∈ tail, Closes e.1 := by
    intro oc u hoc hbody evs hlog hevs
    rcases body_cases hprint hbody with hrefused | ⟨a, v, v', o', hentered, hlaunch, hunlock, rfl⟩
    · refine .inl fun e he => ?_
      rw [hlog] at he
      exact (List.mem_append.mp he).elim (hrefused.calls e) fun he => .inr (hevs e he)
    · rcases hunlock with ⟨rfl, -⟩ | ⟨ho', rfl⟩
      · exact absurd rfl hoc
      · refine .inr ⟨a, v, o', v', ⟨.closeLock, ()⟩ :: evs, hentered, ho', hlaunch, ?_, ?_⟩
        · rw [hlog, List.append_assoc]
          rfl
        · intro e he
          rcases List.mem_cons.mp he with rfl | he
          · trivial
          · exact hevs e he
  have hreturn : ∀ early : Option Nat, (ask .locals >>= fun l => return early.getD l.rc :
      GuardM Nat).Calls Closes := fun early =>
    Prog.Calls.bind (calls_ask trivial) fun _ => calls_ret
  rcases run_bind.mp h with ⟨early, u, h₁, h₂⟩ | ⟨e, rfl, h₁⟩ | ⟨rfl, -⟩
  · obtain ⟨evs, hlog, hevs⟩ := Run.log_extends (hreturn early) h₂
    rcases run_handle.mp h₁ with ⟨_, -, h₃⟩ | ⟨e, v, h₃, h₄⟩ | ⟨hcut, -⟩
    · exact hrest (by simp) h₃ evs hlog hevs
    · obtain ⟨evs', hlog', hevs'⟩ := Run.log_extends handleRun_calls h₄
      refine hrest (by simp) h₃ (evs' ++ evs) ?_ fun e he => ?_
      · rw [hlog, hlog', List.append_assoc]
      · exact (List.mem_append.mp he).elim (hevs' e) (hevs e)
    · cases hcut
  · rcases run_handle.mp h₁ with ⟨_, he, -⟩ | ⟨e', v, h₃, h₄⟩ | ⟨hcut, -⟩
    · cases he
    · obtain ⟨evs, hlog, hevs⟩ := Run.log_extends handleRun_calls h₄
      exact hrest (by simp) h₃ evs hlog hevs
    · cases hcut
  · exact absurd rfl ho

theorem noCreate_opens {op : Op} (h : Opens op ∨ Closes op) : NoCreate op := by
  rcases h with h | h
  · exact noCreate_early (.inl h)
  · exact noCreate_closes h

theorem noCreate_shows {op : Op} (h : Shows op) : NoCreate op := by
  rintro argv cidfile rfl
  exact h

/-- No run abandons a container when every answer is one the recovery and the cleanup are
written for. -/
theorem run_not_abandoned {rounds : Nat} {o : Outcome Exn Nat} (ho : o ≠ .cut)
    (h : Run (semantics env anyAnswer) (run env args rounds) initialWorld o w')
    (hpromised : ∀ e ∈ w'.log, promised e.1 e.2 = true)
    (hrecoverable : ∀ expect, Epoch env args w'.log expect →
      ∀ e ∈ w'.log, recoverable expect e.1 e.2 = true) :
    NotAbandoned env args w'.log := by
  cases hprint : args.printOnly with
  | true =>
    obtain ⟨evs, hlog, hevs⟩ := Run.log_extends (run_print_calls hprint) h
    refine notAbandoned_of_none fun e he => noCreate_shows (hevs e ?_)
    have hlog' : w'.log = evs := hlog
    exact hlog' ▸ he
  | false =>
    rcases run_cases hprint ho h with hcalls |
      ⟨a, v, o', v', tail, hentered, ho', hlaunch, hlog, htail⟩
    · exact notAbandoned_of_none fun e he => noCreate_opens (hcalls e he)
    rcases launch_cases hentered hlaunch with hstopped | ⟨expect, u, hready, hspawn⟩
    · refine notAbandoned_of_none fun e he => ?_
      rw [hlog] at he
      exact (List.mem_append.mp he).elim (fun he => noCreate_early (hstopped.calls e he))
        fun he => noCreate_closes (htail e he)
    have hneutral : (spawnCleaned args a expect rounds).Calls Neutral := by
      refine Prog.Calls.finally_ ?_ (cleanup_calls.mono fun _ => neutral_cleansUp)
      exact (spawn_calls.mono fun _ => neutral_spawns).handle fun e =>
        recordError_calls fun _ _ => trivial
    have hepoch : Epoch env args w'.log expect := by
      rw [hlog]
      exact (hready.epoch.of_run hneutral hspawn).append fun e he => neutral_closes (htail e he)
    -- the answers of the launch are favourable, so it is a run among favourable answers
    have hfavourable : ∀ e ∈ v'.log, favourable expect e.1 e.2 := by
      intro e he
      have he' : e ∈ w'.log := hlog ▸ List.mem_append_left _ he
      exact ⟨hpromised e he', hrecoverable expect hepoch e he'⟩
    have hspawn' : Run (semantics env (favourable expect)) (spawnCleaned args a expect rounds)
        u o' v' := Run.answering favourable_quiet hspawn hfavourable
    refine Kept.notAbandoned hepoch ?_
    rw [hlog]
    exact (spawnCleaned_keeps ho' hready hspawn').append htail

end

/-! ## Both sides on a run -/

/-- `create` raises, and the container is found by its name. -/
def recoveredInput (op : Op) : In op :=
  match op with
  | .create _ _ => (.error (.transport "docker create timed out") : Except Exn String)
  | .cidfileExists => (.ok false : Except Exn Bool)
  | op => launchInput op

def launchExpect : Expect :=
  ⟨launchNonce, launchImage, launchEnv.sha256 (encode launchProfileText)⟩

theorem launch_recovers : ((exec (semantics launchEnv anyAnswer) (fun _ => recoveredInput)
    (run launchEnv launchArgs 1) 0 initialWorld).map fun r =>
      r.1 = .value 5 && nonces r.2.log = [launchNonce] &&
        profiles r.2.log = [encode launchProfileText] &&
        r.2.log.all fun e => promised e.1 e.2 && recoverable launchExpect e.1 e.2) =
      some true := by
  decide +kernel

theorem run_not_abandoned_sample :
    ∃ w', Run (semantics launchEnv anyAnswer) (run launchEnv launchArgs 1) initialWorld
        (.value 5) w' ∧
      NotAbandoned launchEnv launchArgs w'.log := by
  obtain ⟨⟨o, w'⟩, hexec, heq⟩ := Option.map_eq_some_iff.mp launch_recovers
  simp only [Bool.and_eq_true, decide_eq_true_eq, List.all_eq_true] at heq
  obtain ⟨⟨⟨rfl, hnonces⟩, hprofiles⟩, hanswers⟩ := heq
  have hepoch : Epoch launchEnv launchArgs w'.log launchExpect := ⟨rfl, hnonces, _, hprofiles, rfl⟩
  have hrun := run_of_exec hexec
  have hcut : (Outcome.value 5 : Outcome Exn Nat) ≠ .cut := by simp
  have hpromised : ∀ e ∈ w'.log, promised e.1 e.2 = true := fun e he => (hanswers e he).1
  have hrecoverable : ∀ expect, Epoch launchEnv launchArgs w'.log expect →
      ∀ e ∈ w'.log, recoverable expect e.1 e.2 = true := by
    intro expect hexpect e he
    rw [hexpect.unique hepoch]
    exact (hanswers e he).2
  exact ⟨w', hrun, @run_not_abandoned launchEnv w' launchArgs 1 (.value 5) hcut hrun hpromised
    hrecoverable⟩

/-- `create` returns an empty text. -/
def emptyInput (op : Op) : In op :=
  match op with
  | .create _ _ => (.ok "" : Except Exn String)
  | op => launchInput op

/-- What `create` returned. -/
def created (log : Log) : List String :=
  log.filterMap fun
    | ⟨.create _ _, .ok cid⟩ => some cid
    | _ => none

def looksForCidfile : Op → Bool
  | .cidfileExists => true
  | _ => false

theorem launch_empty : ((exec (semantics launchEnv anyAnswer) (fun _ => emptyInput)
    (run launchEnv launchArgs 1) 0 initialWorld).map fun r =>
      r.1 = .value 5 && created r.2.log = [""] &&
        r.2.log.all fun e => promised e.1 e.2 && !looksForCidfile e.1) = some true := by
  decide +kernel

theorem created_mem {log : Log} {cid : String} (h : cid ∈ created log) :
    ∃ argv cidfile, (⟨.create argv cidfile, .ok cid⟩ : Event Op Ans) ∈ log := by
  obtain ⟨⟨op, r⟩, hevent, hsome⟩ := List.mem_filterMap.mp h
  split at hsome
  · next argv cidfile cid' heq =>
    rw [Option.some.injEq] at hsome
    subst hsome
    rw [heq] at hevent
    exact ⟨argv, cidfile, hevent⟩
  · cases hsome

/-- An empty container ID is taken for no container, and nothing looks for one. -/
theorem run_abandons :
    ∃ w', Run (semantics launchEnv anyAnswer) (run launchEnv launchArgs 1) initialWorld
        (.value 5) w' ∧
      (∀ e ∈ w'.log, promised e.1 e.2 = true) ∧ ¬ NotAbandoned launchEnv launchArgs w'.log := by
  obtain ⟨⟨o, w'⟩, hexec, heq⟩ := Option.map_eq_some_iff.mp launch_empty
  simp only [Bool.and_eq_true, decide_eq_true_eq, List.all_eq_true, Bool.not_eq_true'] at heq
  obtain ⟨⟨rfl, hcreated⟩, hanswers⟩ := heq
  refine ⟨w', run_of_exec hexec, fun e he => (hanswers e he).1, fun hnot => ?_⟩
  have hempty : "" ∈ created w'.log := by
    rw [hcreated]
    exact List.mem_cons_self
  obtain ⟨argv, cidfile, hmem⟩ := created_mem hempty
  obtain ⟨before, after, hlog⟩ := List.append_of_mem hmem
  have huncertain : Uncertain (.ok "") := by
    intro id hid
    rw [Except.ok.injEq] at hid
    exact id.text_ne_empty hid.symm
  obtain ⟨expect, -, htried⟩ := hnot.recovered before argv cidfile _ after hlog huncertain
  have hlooks : ∀ r, (⟨.cidfileExists, r⟩ : Event Op Ans) ∉ after := by
    intro r hr
    have hmem' : (⟨.cidfileExists, r⟩ : Event Op Ans) ∈ w'.log := by
      rw [hlog]
      exact List.mem_append_right _ (List.mem_cons_of_mem _ hr)
    have hno := (hanswers _ hmem').2
    cases hno
  cases htried with
  | cidfile r found read => exact hlooks _ found
  | name r found asked => exact hlooks _ found

end Guard
end FlashNext
