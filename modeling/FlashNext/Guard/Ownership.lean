import FlashNext.Guard.Calls

/-!
# Ownership of a container

A container is stopped only through `stopOwned`, and `stopOwned` makes the call only right
after an inspection that showed the expected identity and labels and a running container.
-/

namespace FlashNext
namespace Guard

open Effect Posix Text Checkpoint

def ownerLabelKey : String := "io.r0b0tlab.qwen38fn.owner"
def labelProfile : String := "io.r0b0tlab.qwen38fn.profile-sha256"
def labelImage : String := "io.r0b0tlab.qwen38fn.image-id"

/-- What the labels of the container must say. -/
structure Expect where
  nonce : Hex 32
  image : String
  profileSha256 : Hex 64
  deriving DecidableEq

/-- `value.get(key, default)`. -/
def getDefault (j : Json) (key : String) (default : Json) : Except Exn Json :=
  match j with
  | .obj fs => .ok ((Json.lookup fs key).getD default)
  | _ => .error (.other "object has no attribute 'get'")

/-- `value or {}`. -/
def orEmpty (j : Json) : Json := if j.truthy then j else .obj []

def labelsOf (doc : Json) : Except Exn Json := do
  let config ← getDefault doc "Config" (.obj [])
  let labels ← config.get "Labels"
  return orEmpty labels

/-- `guard.verify_ownership`. -/
def verifyOwnership (doc : Json) (expect : Expect) (cid : String) : Except Exn Json := do
  let id ← doc.get "Id"
  let image ← doc.get "Image"
  reject (!id.isText cid || !image.isText expect.image)
    (.launch "container ID/image ownership mismatch")
  let labels ← labelsOf doc
  let nonce ← labels.get ownerLabelKey
  let profile ← labels.get labelProfile
  let labelled ← labels.get labelImage
  reject (!nonce.isText expect.nonce.text || !profile.isText expect.profileSha256.text ||
      !labelled.isText expect.image)
    (.launch "container epoch/profile ownership mismatch")
  return doc

/-- `doc.get("State", {}).get("Running")`. -/
def runningOf (doc : Json) : Except Exn Json := do
  let state ← getDefault doc "State" (.obj [])
  state.get "Running"

def stopIfRunning (cid : String) (running : Json) : GuardM Unit :=
  if running.truthy then attempt (ask (.stop cid)) else return ()

/-- `guard.stop_owned`. -/
def stopOwned (expect : Expect) (cid : String) : GuardM Json := do
  let doc ← attempt (ask (.inspect .stopFirst cid))
  let doc ← Prog.ofExcept (verifyOwnership doc expect cid)
  let running ← Prog.ofExcept (runningOf doc)
  stopIfRunning cid running
  let final ← attempt (ask (.inspect .stopFinal cid))
  let final ← Prog.ofExcept (verifyOwnership final expect cid)
  let running ← Prog.ofExcept (runningOf final)
  Prog.require (running = .bool false) (.launch "container stop could not be verified")
  return final

/-- The document describes the expected container. -/
structure Owned (doc : Json) (expect : Expect) (cid : String) : Prop where
  id : doc.get "Id" = .ok (.str cid)
  image : doc.get "Image" = .ok (.str expect.image)
  labels : ∃ labels, labelsOf doc = .ok labels ∧
    labels.get ownerLabelKey = .ok (.str expect.nonce.text) ∧
    labels.get labelProfile = .ok (.str expect.profileSha256.text) ∧
    labels.get labelImage = .ok (.str expect.image)

theorem verifyOwnership_ok {doc out : Json} {expect : Expect} {cid : String} :
    verifyOwnership doc expect cid = .ok out ↔ out = doc ∧ Owned doc expect cid := by
  simp only [verifyOwnership, bind_ok, reject_ok, pure_ok, Bool.or_eq_false_iff,
    Bool.not_eq_false', Json.isText_iff]
  constructor
  · rintro ⟨id, hid, image, himage, -, ⟨rfl, rfl⟩, labels, hlabels, nonce, hnonce, profile,
      hprofile, labelled, hlabelled, -, ⟨⟨rfl, rfl⟩, rfl⟩, rfl⟩
    exact ⟨rfl, hid, himage, labels, hlabels, hnonce, hprofile, hlabelled⟩
  · rintro ⟨rfl, h⟩
    obtain ⟨labels, hlabels, hnonce, hprofile, hlabelled⟩ := h.labels
    exact ⟨_, h.id, _, h.image, (), ⟨rfl, rfl⟩, labels, hlabels, _, hnonce, _, hprofile, _,
      hlabelled, (), ⟨⟨rfl, rfl⟩, rfl⟩, rfl⟩

/-! ## Runs of single calls -/

section Calls

variable {env : Env} {ok : (op : Op) → Ans op → Prop} {w w' : World}

theorem run_attempt_value {α : Type} {x : GuardM (Except Exn α)} {a : α} :
    Run (semantics env ok) (attempt x) w (.value a) w' ↔
      Run (semantics env ok) x w (.value (.ok a)) w' := by
  rw [attempt, run_bind_value]
  constructor
  · rintro ⟨r, v, hx, h⟩
    obtain ⟨rfl, rfl⟩ := run_ofExcept_value.mp h
    exact hx
  · intro h
    exact ⟨.ok a, w', h, run_ofExcept_value.mpr ⟨rfl, rfl⟩⟩

theorem run_attempt_raised {α : Type} {x : GuardM (Except Exn α)} {e : Exn} :
    Run (semantics env ok) (attempt x) w (.raised e) w' ↔
      Run (semantics env ok) x w (.value (.error e)) w' ∨
        Run (semantics env ok) x w (.raised e) w' := by
  rw [attempt, run_bind_raised]
  constructor
  · rintro (⟨r, v, hx, h⟩ | h)
    · cases r with
      | ok a => exact absurd h.1 (by simp)
      | error e' =>
        obtain ⟨he, rfl⟩ := h
        rw [Outcome.raised.injEq] at he
        exact .inl (he ▸ hx)
    · exact .inr h
  · rintro (h | h)
    · exact .inl ⟨.error e, w', h, rfl, rfl⟩
    · exact .inr h

theorem ask_not_raised {op : Op} {e : Exn} : ¬ Run (semantics env ok) (ask op) w (.raised e) w' := by
  rintro ⟨i, -, h, -⟩
  cases h

/-- A call leaves one event and the local variables as they were. -/
theorem run_ask {op : Op} {o : Outcome Exn (Ans op)} (hq : quiet op = false)
    (h : Run (semantics env ok) (ask op) w o w') :
    ∃ a, o = .value a ∧ w' = ⟨w.log ++ [⟨op, a⟩], w.st⟩ ∧ ok op a := by
  obtain ⟨i, hi, rfl, rfl⟩ := h
  refine ⟨_, rfl, ?_, hi⟩
  show Traced.mk (if quiet op then w.log else w.log ++ [⟨op, answer env op i w.st⟩])
    (update op w.st) = _
  rw [hq]
  cases op with
  | assign f => cases hq
  | _ => rfl

theorem run_ask_value {op : Op} {a : Ans op} (hq : quiet op = false)
    (h : Run (semantics env ok) (ask op) w (.value a) w') :
    w' = ⟨w.log ++ [⟨op, a⟩], w.st⟩ ∧ ok op a := by
  obtain ⟨b, hb, hw, hok⟩ := run_ask hq h
  rw [Outcome.value.injEq] at hb
  exact ⟨hb ▸ hw, hb ▸ hok⟩

theorem run_assign {f : Locals → Locals} {o : Outcome Exn Unit}
    (h : Run (semantics env ok) (assign f) w o w') : o = .value () ∧ w' = ⟨w.log, f w.st⟩ := by
  obtain ⟨i, -, rfl, rfl⟩ := h
  exact ⟨rfl, rfl⟩

theorem run_ask_bind {α : Type} {c : Op} {k : Ans c → GuardM α} {o : Outcome Exn α}
    (hq : quiet c = false) (h : Run (semantics env ok) (ask c >>= k) w o w') :
    ∃ r, ok c r ∧ Run (semantics env ok) (k r) ⟨w.log ++ [⟨c, r⟩], w.st⟩ o w' := by
  rcases run_bind.mp h with ⟨r, v, h₁, h₂⟩ | ⟨e, -, h₁⟩ | ⟨-, h₁⟩
  · obtain ⟨rfl, hr⟩ := run_ask_value hq h₁
    exact ⟨r, hr, h₂⟩
  · exact absurd h₁ ask_not_raised
  · obtain ⟨_, h₁, -⟩ := run_ask hq h₁
    cases h₁

theorem run_assign_bind {α : Type} {f : Locals → Locals} {k : Unit → GuardM α}
    {o : Outcome Exn α} (h : Run (semantics env ok) (assign f >>= k) w o w') :
    Run (semantics env ok) (k ()) ⟨w.log, f w.st⟩ o w' := by
  rcases run_bind.mp h with ⟨_, v, h₁, h₂⟩ | ⟨e, -, h₁⟩ | ⟨-, h₁⟩
  · obtain ⟨-, rfl⟩ := run_assign h₁
    exact h₂
  · exact absurd h₁ ask_not_raised
  · cases (run_assign h₁).1

theorem run_locals {o : Outcome Exn Locals}
    (h : Run (semantics env ok) (ask .locals) w o w') : o = .value w.st ∧ w' = w := by
  obtain ⟨i, -, rfl, rfl⟩ := h
  exact ⟨rfl, rfl⟩

theorem run_ask_log {op : Op} {a : Ans op} (hq : quiet op = false)
    (h : Run (semantics env ok) (ask op) w (.value a) w') : w'.log = w.log ++ [⟨op, a⟩] := by
  rw [(run_ask_value hq h).1]

theorem run_assign_log {f : Locals → Locals} {o : Outcome Exn Unit}
    (h : Run (semantics env ok) (assign f) w o w') : w'.log = w.log := by
  rw [(run_assign h).2]

end Calls

/-! ## Events -/

abbrev inspected (site : Site) (cid : String) (r : Except Exn Json) : Event Op Ans :=
  ⟨.inspect site cid, r⟩

abbrev stopped (cid : String) (r : Except Exn Unit) : Event Op Ans := ⟨.stop cid, r⟩

/-! ## The one way to stop a container -/

section StopOwned

variable {env : Env} {ok : (op : Op) → Ans op → Prop} {w w' : World} {expect : Expect}
  {cid : String}

theorem stopOwned_guarded {Pre : Op → World → Prop}
    (hother : ∀ op v, (∀ c, op ≠ .stop c) → Pre op v)
    (hstop : ∀ doc running, Owned doc expect cid → runningOf doc = .ok running →
      running.truthy = true → Pre (.stop cid) ⟨w.log ++ [inspected .stopFirst cid (.ok doc)], w.st⟩) :
    Guarded (semantics env ok) Pre (stopOwned expect cid) w := by
  have hask : ∀ op v, (∀ c, op ≠ .stop c) → Guarded (semantics env ok) Pre (ask op) v :=
    fun op v hop => Guarded.perform (hother op v hop)
  have hinspect : ∀ site v, Guarded (semantics env ok) Pre
      (attempt (ask (.inspect site cid)) : GuardM Json) v := by
    intro site v
    exact (hask _ v (by simp)).bind fun r v' _ => Guarded.ofExcept r v'
  refine (hinspect _ w).bind fun doc v hdoc => ?_
  obtain ⟨rfl, -⟩ := run_ask_value rfl (run_attempt_value.mp hdoc)
  refine (Guarded.ofExcept _ _).bind fun doc' v hv => ?_
  obtain ⟨hverify, rfl⟩ := run_ofExcept_value.mp hv
  obtain ⟨rfl, howned⟩ := verifyOwnership_ok.mp hverify
  refine (Guarded.ofExcept _ _).bind fun running v hv => ?_
  obtain ⟨hrunning, rfl⟩ := run_ofExcept_value.mp hv
  have hrest : ∀ v, Guarded (semantics env ok) Pre (do
      let final ← attempt (ask (.inspect .stopFinal cid))
      let final ← Prog.ofExcept (verifyOwnership final expect cid)
      let running ← Prog.ofExcept (runningOf final)
      Prog.require (running = .bool false) (.launch "container stop could not be verified")
      return final : GuardM Json) v := by
    intro v
    refine (hinspect _ v).bind fun final v _ => ?_
    refine (Guarded.ofExcept _ _).bind fun final v _ => ?_
    refine (Guarded.ofExcept _ _).bind fun running v _ => ?_
    have hreq : Guarded (semantics env ok) Pre
        (Prog.require (running = .bool false)
          (.launch "container stop could not be verified") : GuardM Unit) v :=
      Guarded.of_calls (P := fun _ => False) (Prog.Calls.require _ _) (fun _ _ h => h.elim) v
    exact hreq.bind fun _ _ _ => trivial
  have hcall : Guarded (semantics env ok) Pre (stopIfRunning cid running)
      ⟨w.log ++ [inspected .stopFirst cid (.ok doc')], w.st⟩ := by
    unfold stopIfRunning
    split
    · next ht =>
      exact (Guarded.perform (hstop doc' running howned hrunning ht)).bind fun r v' _ =>
        Guarded.ofExcept r v'
    · trivial
  exact hcall.bind fun _ v _ => hrest v

/-- The events of the optional stop between the two inspections. -/
def stopEvents (cid : String) (running : Json) : Log :=
  if running.truthy then [stopped cid (.ok ())] else []

theorem stopIfRunning_value {running : Json}
    (h : Run (semantics env ok) (stopIfRunning cid running) w (.value ()) w') :
    w' = ⟨w.log ++ stopEvents cid running, w.st⟩ := by
  unfold stopIfRunning at h
  unfold stopEvents
  split at h
  · next ht =>
    obtain ⟨rfl, -⟩ := run_ask_value rfl (run_attempt_value.mp h)
    rw [if_pos ht]
  · next ht =>
    rw [if_neg ht, List.append_nil]
    exact h.2

/-- What a completed stop leaves: two inspections that show the expected container, and the
second one that it does not run. -/
theorem stopOwned_value {final : Json}
    (h : Run (semantics env ok) (stopOwned expect cid) w (.value final) w') :
    ∃ first running, Owned first expect cid ∧ runningOf first = .ok running ∧
      Owned final expect cid ∧ runningOf final = .ok (.bool false) ∧
      w' = ⟨w.log ++ [inspected .stopFirst cid (.ok first)] ++ stopEvents cid running ++
        [inspected .stopFinal cid (.ok final)], w.st⟩ := by
  simp only [stopOwned, run_bind_value, run_attempt_value, run_ofExcept_value, run_pure,
    Outcome.value.injEq] at h
  obtain ⟨first, v₁, h₁, _, _, ⟨hfirst, rfl⟩, running, _, ⟨hrunning, rfl⟩, _, v₂, hstop, last, v₃,
    h₃, _, _, ⟨hlast, rfl⟩, running', _, ⟨hrunning', rfl⟩, _, _, hreq, rfl, rfl⟩ := h
  obtain ⟨rfl, -⟩ := run_ask_value rfl h₁
  obtain ⟨rfl, -⟩ := run_ask_value rfl h₃
  obtain ⟨rfl, howned⟩ := verifyOwnership_ok.mp hfirst
  obtain ⟨rfl, hfinal⟩ := verifyOwnership_ok.mp hlast
  obtain ⟨hfalse, rfl⟩ := run_require_value.mp hreq
  rw [decide_eq_true_eq] at hfalse
  obtain rfl := stopIfRunning_value hstop
  exact ⟨_, running, howned, hrunning, hfinal, hfalse ▸ hrunning', rfl⟩

/-- The calls of `stop_owned`. -/
def StopsOnly (cid : String) (op : Op) : Prop :=
  op = .inspect .stopFirst cid ∨ op = .inspect .stopFinal cid ∨ op = .stop cid

theorem stopOwned_calls : (stopOwned expect cid).Calls (StopsOnly cid) := by
  have hask : ∀ {op}, StopsOnly cid op → (ask op).Calls (StopsOnly cid) := Prog.Calls.perform
  have hstop : ∀ running, (stopIfRunning cid running).Calls (StopsOnly cid) := by
    intro running
    refine Prog.Calls.ite ?_ trivial
    exact Prog.Calls.bind (hask (.inr (.inr rfl))) Prog.Calls.ofExcept
  refine Prog.Calls.bind (Prog.Calls.bind (hask (.inl rfl)) Prog.Calls.ofExcept) fun _ => ?_
  refine (Prog.Calls.ofExcept _).bind fun _ => (Prog.Calls.ofExcept _).bind fun running =>
    (hstop running).bind fun _ => ?_
  refine Prog.Calls.bind (Prog.Calls.bind (hask (.inr (.inl rfl))) Prog.Calls.ofExcept)
    fun _ => ?_
  exact (Prog.Calls.ofExcept _).bind fun _ => (Prog.Calls.ofExcept _).bind fun _ =>
    (Prog.Calls.require _ _).bind fun _ => (show Prog.Calls _ (Prog.ret _) from trivial)

end StopOwned

end Guard
end FlashNext
