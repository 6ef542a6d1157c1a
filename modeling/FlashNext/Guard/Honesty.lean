import FlashNext.Guard.Exit
import FlashNext.Guard.Start

/-!
# The exit code of the launcher

What `run` returns follows from what the watch loop saw and from what the cleanup managed
to do.  `run_honest_iff` says when the returned code tells the truth about both: always,
except when the exit was seen and the last save of the launch record then raised a
`BlockingIOError`, which the handler of `run` takes for a held lock.
-/

namespace FlashNext
namespace Guard

open Effect Posix Text Checkpoint

/-! ## What the cleanup managed to do -/

/-- The container was verified stopped, its last state saved and its log collected. -/
def Collected (expect : Expect) (cid : String) (evs : Log) : Prop :=
  ∃ final text, inspected .stopFinal cid (.ok final) ∈ evs ∧ Owned final expect cid ∧
    runningOf final = .ok (.bool false) ∧ ⟨.replace .containerFinal final, .ok ()⟩ ∈ evs ∧
    ⟨.logs cid, .ok text⟩ ∈ evs ∧ ⟨.writeText .serverLog text, .ok ()⟩ ∈ evs

/-- The launch record was saved. -/
def Saved (evs : Log) : Prop :=
  ∃ value, (⟨.replace .launchRecord value, .ok ()⟩ : Event Op Ans) ∈ evs

/-- The calls that save the launch record. -/
def Records : Op → Prop
  | .writeTemp .launchRecord _ => True
  | .replace .launchRecord _ => True
  | _ => False

/-- Saving the launch record raised a `BlockingIOError`. -/
def Blocked (evs : Log) : Prop :=
  ∃ value message,
    (⟨.writeTemp .launchRecord value, .error (.os true message)⟩ : Event Op Ans) ∈ evs ∨
      (⟨.replace .launchRecord value, .error (.os true message)⟩ : Event Op Ans) ∈ evs

def blocking : Exn → Bool
  | .os b _ => b
  | _ => false

section

variable {env : Env} {ok : (op : Op) → Ans op → Prop} {w v w' : World} {args : Args}
  {a : Admitted} {expect : Expect} {cid : String}

theorem save_raised {file : StateFile} {value : Json} {e : Exn}
    (h : Run (semantics env ok) (save file value) w (.raised e) w') :
    w' = ⟨w.log ++ [⟨.writeTemp file value, .error e⟩], w.st⟩ ∨
      w' = ⟨w.log ++ [⟨.writeTemp file value, .ok ()⟩, ⟨.replace file value, .error e⟩],
        w.st⟩ := by
  rw [save, run_bind_raised] at h
  rcases h with ⟨_, v, h₁, h₂⟩ | h₁
  · obtain ⟨rfl, -⟩ := run_ask_value rfl (run_attempt_value.mp h₁)
    rcases run_attempt_raised.mp h₂ with h₂ | h₂
    · obtain ⟨rfl, -⟩ := run_ask_value rfl h₂
      right
      simp only [List.append_assoc, List.singleton_append]
    · exact absurd h₂ ask_not_raised
  · rcases run_attempt_raised.mp h₁ with h₁ | h₁
    · exact .inl (run_ask_value rfl h₁).1
    · exact absurd h₁ ask_not_raised

theorem saveRecord_done (h : Run (semantics env ok) saveRecord w (.value ()) w') :
    ∃ saves, w' = ⟨w.log ++ saves, w.st⟩ ∧ (∀ e ∈ saves, Finishes e.1) ∧ Saved saves ∧
      ¬ Blocked saves := by
  refine ⟨_, saveRecord_value h, ?_, ?_, ?_⟩
  · simp [Finishes]
  · simp [Saved]
  · simp [Blocked]

theorem saveRecord_raised {e : Exn} (h : Run (semantics env ok) saveRecord w (.raised e) w') :
    ∃ evs, w' = ⟨w.log ++ evs, w.st⟩ ∧ ¬ Saved evs ∧ (Blocked evs ↔ blocking e = true) := by
  have hblocking : ∀ e, blocking e = true ↔ ∃ message, .os true message = e := by
    intro e
    cases e with
    | os b m => simp [blocking, eq_comm]
    | _ => simp [blocking]
  rw [saveRecord, run_bind_raised] at h
  rcases h with ⟨l, v, h₁, h₂⟩ | h₁
  · obtain ⟨-, rfl⟩ := run_locals h₁
    rcases save_raised h₂ with rfl | rfl
    · refine ⟨_, rfl, by simp [Saved], ?_⟩
      rw [hblocking]
      simp [Blocked]
    · refine ⟨_, rfl, by simp [Saved], ?_⟩
      rw [hblocking]
      simp [Blocked]
  · exact absurd h₁ ask_not_raised

/-- A collection that ends without an exception did everything. -/
theorem collect_value (h : Run (semantics env ok) (collect expect cid) w (.value ()) w') :
    ∃ evs, w' = ⟨w.log ++ evs, w.st⟩ ∧ Collected expect cid evs := by
  simp only [collect, run_bind_value, run_attempt_value, run_ofExcept_value] at h
  obtain ⟨_, _, ⟨-, rfl⟩, final, v₁, h₁, _, v₂, h₂, text, v₃, h₃, h₄⟩ := h
  obtain ⟨first, running, -, -, howned, hfalse, rfl⟩ := stopOwned_value h₁
  obtain rfl := save_value h₂
  obtain ⟨rfl, -⟩ := run_ask_value rfl h₃
  obtain ⟨rfl, -⟩ := run_ask_value rfl h₄
  simp only [List.append_assoc]
  exact ⟨_, rfl, final, text, by simp, howned, hfalse, by simp, by simp, by simp⟩

/-- The log of the container is not written between the two worlds. -/
def Unwritten (w w' : World) : Prop :=
  ∃ evs, w'.log = w.log ++ evs ∧
    ∀ text, (⟨.writeText .serverLog text, .ok ()⟩ : Event Op Ans) ∉ evs

theorem Unwritten.trans (h : Unwritten w v) (h' : Unwritten v w') : Unwritten w w' := by
  obtain ⟨evs, hlog, hevs⟩ := h
  obtain ⟨evs', hlog', hevs'⟩ := h'
  refine ⟨evs ++ evs', by rw [hlog', hlog, List.append_assoc], fun text hmem => ?_⟩
  exact (List.mem_append.mp hmem).elim (hevs text) (hevs' text)

theorem Unwritten.of_calls {α : Type} {p : GuardM α}
    (hp : p.Calls fun op => ∀ text, op ≠ .writeText .serverLog text) (o : Outcome Exn α)
    (v : World) (h : Run (semantics env ok) p w o v) : Unwritten w v := by
  obtain ⟨evs, hlog, hevs⟩ := Run.log_extends hp h
  exact ⟨evs, hlog, fun text hmem => hevs _ hmem text rfl⟩

/-- A collection that raises did not write the log. -/
theorem collect_raised {e : Exn}
    (h : Run (semantics env ok) (collect expect cid) w (.raised e) w') :
    ∃ evs, w' = ⟨w.log ++ evs, w.st⟩ ∧ ¬ Collected expect cid evs := by
  have hst : w'.st = w.st := Run.same_locals (fun _ h => h) collect_calls h
  have hstop : (stopOwned expect cid).Calls fun op => ∀ text, op ≠ .writeText .serverLog text := by
    refine stopOwned_calls.mono ?_
    rintro op (rfl | rfl | rfl) text <;> simp
  have hsave : ∀ value, (save .containerFinal value).Calls
      fun op => ∀ text, op ≠ .writeText .serverLog text := calls_save (by simp) (by simp)
  have hlogs : (attempt (ask (.logs cid))).Calls fun op => ∀ text, op ≠ .writeText .serverLog text :=
    calls_attempt (calls_ask (by simp))
  have hrel : Unwritten w w' := by
    refine Run.rel_bind (R := Unwritten) Unwritten.trans h
      (Unwritten.of_calls (Prog.Calls.ofExcept _)) fun _ v _ h => ?_
    refine Run.rel_bind (R := Unwritten) Unwritten.trans h (Unwritten.of_calls hstop)
      fun final v _ h => ?_
    refine Run.rel_bind (R := Unwritten) Unwritten.trans h (Unwritten.of_calls (hsave _))
      fun _ v _ h => ?_
    refine Run.rel_bind (R := Unwritten) Unwritten.trans h (Unwritten.of_calls hlogs)
      fun text v _ h => ?_
    rcases run_attempt_raised.mp h with h | h
    · obtain ⟨rfl, -⟩ := run_ask_value rfl h
      exact ⟨_, rfl, by simp⟩
    · exact absurd h ask_not_raised
  obtain ⟨evs, hlog, hevs⟩ := hrel
  refine ⟨evs, by rw [← hlog, ← hst], ?_⟩
  rintro ⟨_, text, -, -, -, -, -, hmem⟩
  exact hevs text hmem

/-- What `collectIfCreated` does with a container that was created: it collects, or the
exit code turns into a failing one. -/
theorem collectIfCreated_value {id : Hex 64} {l : Locals} (hl : l.cid = some id.text)
    (h : Run (semantics env ok) (collectIfCreated expect l) w (.value ()) w') :
    ∃ evs, w'.log = w.log ++ evs ∧ (w.st.rc = 0 → (w'.st.rc = 0 ↔ Collected expect id.text evs)) := by
  unfold collectIfCreated at h
  rw [hl] at h
  replace h : Run (semantics env ok) (if id.text = "" then return () else
    (collect expect id.text).handle recordCleanupError) w (.value ()) w' := h
  rw [if_neg id.text_ne_empty] at h
  rcases run_handle.mp h with ⟨_, -, h⟩ | ⟨e, v, h₁, h₂⟩ | ⟨h, -⟩
  · obtain ⟨evs, rfl, hcollected⟩ := collect_value h
    exact ⟨evs, rfl, fun hrc => ⟨fun _ => hcollected, fun _ => hrc⟩⟩
  · obtain ⟨evs, rfl, hnot⟩ := collect_raised h₁
    unfold recordCleanupError at h₂
    split at h₂
    · obtain ⟨_, v, h₃, h₄⟩ := run_bind_value.mp h₂
      have hw := (run_assign h₄).2
      have hv := (run_assign h₃).2
      subst hv hw
      refine ⟨evs, rfl, fun _ => ⟨fun h0 => ?_, fun hc => absurd hc hnot⟩⟩
      have hrc : (if w.st.rc = 0 then exitCleanup else w.st.rc) = 0 := h0
      split at hrc
      · cases hrc
      · contradiction
    · cases h₂.1
  · cases h

/-- Only exceptions that no handler names leave `collectIfCreated`. -/
theorem collectIfCreated_raised {l : Locals} {e : Exn}
    (h : Run (semantics env ok) (collectIfCreated expect l) w (.raised e) w') :
    e.handled = false := by
  unfold collectIfCreated at h
  split at h
  · cases h.1
  split at h
  · cases h.1
  rcases run_handle.mp h with ⟨_, h, -⟩ | ⟨e', v, -, h⟩ | ⟨h, -⟩
  · cases h
  · unfold recordCleanupError at h
    split at h
    · rcases run_bind_raised.mp h with ⟨_, u, -, h⟩ | h
      · exact absurd h ask_not_raised
      · exact absurd h ask_not_raised
    · next hhandled =>
      obtain ⟨he, -⟩ := h
      rw [Outcome.raised.injEq] at he
      rw [he]
      exact Bool.eq_false_iff.mpr hhandled
  · cases h

theorem run_locals_bind {α : Type} {f : Locals → GuardM α} {o : Outcome Exn α}
    (h : Run (semantics env ok) (ask .locals >>= f) w o w') :
    Run (semantics env ok) (f w.st) w o w' := by
  rcases run_bind.mp h with ⟨l, v, h₁, h₂⟩ | ⟨e, -, h₁⟩ | ⟨-, h₁⟩
  · obtain ⟨hl, rfl⟩ := run_locals h₁
    rw [Outcome.value.injEq] at hl
    exact hl ▸ h₂
  · exact absurd h₁ ask_not_raised
  · cases (run_locals h₁).1

/-- The end of a trace without calls of a kind. -/
theorem mem_append_iff_left {P : Op → Prop} {xs ys : Log} (h : ∀ e ∈ ys, ¬ P e.1)
    (e : Event Op Ans) (he : P e.1) : e ∈ xs ++ ys ↔ e ∈ xs := by
  rw [List.mem_append, or_iff_left]
  exact fun hmem => h e hmem he

/-- The beginning of a trace without calls of a kind. -/
theorem mem_append_iff_right {P : Op → Prop} {xs ys : Log} (h : ∀ e ∈ xs, ¬ P e.1)
    (e : Event Op Ans) (he : P e.1) : e ∈ xs ++ ys ↔ e ∈ ys := by
  rw [List.mem_append, or_iff_right]
  exact fun hmem => h e hmem he

theorem collected_congr {xs ys : Log} (h : ∀ e, Gathers e.1 → (e ∈ xs ↔ e ∈ ys)) :
    Collected expect cid xs ↔ Collected expect cid ys := by
  simp only [Collected]
  simp only [h ⟨.inspect .stopFinal _, _⟩ trivial, h ⟨.replace .containerFinal _, _⟩ trivial,
    h ⟨.logs _, _⟩ trivial, h ⟨.writeText .serverLog _, _⟩ trivial]

theorem saved_congr {xs ys : Log} (h : ∀ e, Records e.1 → (e ∈ xs ↔ e ∈ ys)) :
    Saved xs ↔ Saved ys := by
  simp only [Saved, h ⟨.replace .launchRecord _, _⟩ trivial]

theorem blocked_congr {xs ys : Log} (h : ∀ e, Records e.1 → (e ∈ xs ↔ e ∈ ys)) :
    Blocked xs ↔ Blocked ys := by
  simp only [Blocked, h ⟨.replace .launchRecord _, _⟩ trivial,
    h ⟨.writeTemp .launchRecord _, _⟩ trivial]

theorem not_records_collects {op : Op} (h : Collects op) : ¬ Records op := by
  intro hr
  cases op with
  | writeTemp file value => cases file <;> first | exact h | exact hr
  | replace file value => cases file <;> first | exact h | exact hr
  | _ => exact hr

theorem not_gathers_finishes {op : Op} (h : Finishes op) : ¬ Gathers op := by
  intro hg
  cases op with
  | writeTemp file value => cases file <;> first | exact h | exact hg
  | replace file value => cases file <;> first | exact h | exact hg
  | inspect site c => exact h
  | stop c => exact h
  | logs c => exact h
  | writeText file text => exact h
  | _ => exact hg

theorem not_evidence_closes {op : Op} (h : Closes op ∨ op = .closeTelemetry) :
    ¬ Gathers op ∧ ¬ Records op := by
  rcases h with h | rfl
  · refine ⟨fun hg => ?_, fun hr => ?_⟩ <;> cases op <;> first | exact h | exact hg | exact hr
  · exact ⟨id, id⟩

/-- What the cleanup of a created container does to the exit code it found, and what its
end says of the calls it made. -/
structure CleanedUp (o : Outcome Exn Unit) (found rc : Nat) (expect : Expect) (cid : String)
    (evs : Log) : Prop where
  calls : ∀ e ∈ evs, CleansUp e.1
  held : found ≠ 0 → rc = found
  done : o = .value () →
    (found = 0 → (rc = 0 ↔ Collected expect cid evs)) ∧ Saved evs ∧ ¬ Blocked evs
  failed : ∀ e, o = .raised e → e.handled = true →
    ¬ Saved evs ∧ (Blocked evs ↔ blocking e = true)

theorem cleanup_keeps {r : Nat} (hr : r ≠ 0) : (cleanup expect).Calls (Keeps fun l => l.rc = r) := by
  refine cleanup_calls.mono ?_
  rintro op (h | h | h) f rfl l hl
  · exact (h l).trans hl
  · exact (h l (hl ▸ hr)).trans hl
  · exact (h l).trans hl

theorem cleanup_run {id : Hex 64} {o : Outcome Exn Unit} (hcid : w.st.cid = some id.text)
    (h : Run (semantics env ok) (cleanup expect) w o w') :
    ∃ evs, w'.log = w.log ++ evs ∧ CleanedUp o w.st.rc w'.st.rc expect id.text evs := by
  have hheld : w.st.rc ≠ 0 → w'.st.rc = w.st.rc := fun hrc =>
    Run.keeps (I := fun l => l.rc = w.st.rc) (cleanup_keeps hrc) h rfl
  obtain ⟨all, hall, hcalls⟩ := Run.log_extends cleanup_calls h
  suffices hs : ∃ evs, w'.log = w.log ++ evs ∧
      (o = .value () → (w.st.rc = 0 → (w'.st.rc = 0 ↔ Collected expect id.text evs)) ∧
        Saved evs ∧ ¬ Blocked evs) ∧
      (∀ e, o = .raised e → e.handled = true →
        ¬ Saved evs ∧ (Blocked evs ↔ blocking e = true)) by
    obtain ⟨evs, hevs, hdone, hfailed⟩ := hs
    obtain rfl : all = evs := List.append_cancel_left (hall.symm.trans hevs)
    exact ⟨all, hall, hcalls, hheld, hdone, hfailed⟩
  replace h := run_locals_bind h
  have hresolve : resolveIfUncertain expect w.st = return () := by
    rw [resolveIfUncertain, if_neg]
    rintro ⟨hnone, -⟩
    rw [hcid] at hnone
    cases hnone
  rw [hresolve] at h
  replace h := run_locals_bind (show Run (semantics env ok) (ask .locals >>= _) w o w' from h)
  rcases run_bind.mp h with ⟨_, v, h₁, h₂⟩ | ⟨e, rfl, h₁⟩ | ⟨rfl, h₁⟩
  · obtain ⟨evs, hlog, hrc⟩ := collectIfCreated_value hcid h₁
    have hcollects : ∀ e ∈ evs, ¬ Records e.1 := by
      obtain ⟨evs', hlog', hcollects⟩ := Run.log_extends collectIfCreated_calls h₁
      rw [hlog, List.append_cancel_left_eq] at hlog'
      subst hlog'
      exact fun e he => not_records_collects (hcollects e he)
    have hrecords : ∀ saves : Log, (Saved (evs ++ saves) ↔ Saved saves) ∧
        (Blocked (evs ++ saves) ↔ Blocked saves) := fun saves =>
      ⟨saved_congr (mem_append_iff_right hcollects), blocked_congr (mem_append_iff_right hcollects)⟩
    rcases run_bind.mp h₂ with ⟨_, u, h₃, h₄⟩ | ⟨e, -, h₃⟩ | ⟨-, h₃⟩
    · obtain ⟨-, rfl⟩ := run_assign h₃
      cases o with
      | value u =>
        obtain ⟨saves, rfl, hfinishes, hsaved, hblocked⟩ := saveRecord_done h₄
        refine ⟨evs ++ saves, ?_, fun _ => ⟨fun hzero => ?_, ?_, ?_⟩, by simp⟩
        · rw [← List.append_assoc, ← hlog]
        · rw [collected_congr (mem_append_iff_left fun e he => not_gathers_finishes (hfinishes e he))]
          exact hrc hzero
        · exact (hrecords saves).1.mpr hsaved
        · rw [(hrecords saves).2]
          exact hblocked
      | raised e =>
        obtain ⟨saves, rfl, hsaved, hblocked⟩ := saveRecord_raised h₄
        refine ⟨evs ++ saves, ?_, by simp, ?_⟩
        · rw [← List.append_assoc, ← hlog]
        · intro e' he _
          rw [Outcome.raised.injEq] at he
          rw [(hrecords saves).1, (hrecords saves).2, ← he]
          exact ⟨hsaved, hblocked⟩
      | cut => exact ⟨all, hall, by simp, by simp⟩
    · exact absurd h₃ ask_not_raised
    · cases (run_assign h₃).1
  · obtain ⟨evs, hlog, -⟩ := Run.log_extends collectIfCreated_calls h₁
    refine ⟨evs, hlog, by simp, ?_⟩
    rintro e' he hhandled
    rw [Outcome.raised.injEq] at he
    rw [← he, collectIfCreated_raised h₁] at hhandled
    cases hhandled
  · obtain ⟨evs, hlog, -⟩ := Run.log_extends collectIfCreated_calls h₁
    exact ⟨evs, hlog, by simp, by simp⟩

/-! ## The launch -/

/-- The end of a launch whose watch saw the exit. -/
structure Concluded (env : Env) (args : Args) (o : Outcome Exn Unit) (w : World)
    (expect : Expect) (cid : String) (code : Nat) (oom : Json) (before after : Log) (doc : Json) :
    Prop where
  epoch : Epoch env args w.log expect
  log : w.log = before ++ inspected .watch cid (.ok doc) :: after
  shows : ShowsExit expect cid doc code oom
  noneBefore : ∀ e ∈ before, ¬ IsExit expect e
  noneAfter : ∀ e ∈ after, NoWatch e.1
  held : exitRc code oom ≠ 0 → w.st.rc = exitRc code oom
  done : o = .value () →
    (exitRc code oom = 0 → (w.st.rc = 0 ↔ Collected expect cid after)) ∧ Saved after ∧
      ¬ Blocked after
  failed : ∀ e, o = .raised e → e.handled = true →
    ¬ Saved after ∧ (Blocked after ↔ blocking e = true)

/-- A launch that sees no exit ends with a failing code. -/
structure Unseen (env : Env) (args : Args) (w : World) : Prop where
  rc : Failing w.st
  log : ∀ expect, Epoch env args w.log expect → ∀ e ∈ w.log, ¬ IsExit expect e

theorem spawnHandled_run {command : List String} {rounds : Nat} {o : Outcome Exn Unit}
    (h : Run (semantics env ok) ((spawn args a expect command rounds).handle recordError) w o w') :
    (Silent expect w w' ∨
      ∃ id : Hex 64, Exited expect id.text w w' ∧ w'.st.cid = some id.text) ∧
    ∀ e, o = .raised e → e.handled = false := by
  rcases run_handle.mp h with ⟨_, rfl, h₁⟩ | ⟨e, v, h₁, h₂⟩ | ⟨rfl, h₁⟩
  · exact ⟨spawn_run h₁, by simp⟩
  · unfold recordError at h₂
    split at h₂
    · obtain ⟨rfl, rfl⟩ := run_assign h₂
      refine ⟨?_, by simp⟩
      rcases spawn_run h₁ with hsilent | ⟨id, hexited, hcid⟩
      · exact .inl ⟨hsilent.log, hsilent.rc⟩
      · exact .inr ⟨id, ⟨hexited.split⟩, hcid⟩
    · next hhandled =>
      obtain ⟨rfl, rfl⟩ := h₂
      refine ⟨spawn_run h₁, ?_⟩
      rintro e' he
      rw [Outcome.raised.injEq] at he
      rw [← he]
      exact Bool.eq_false_iff.mpr hhandled
  · exact ⟨spawn_run h₁, by simp⟩

theorem Epoch.unique {log : Log} {expect' : Expect} (h : Epoch env args log expect)
    (h' : Epoch env args log expect') : expect = expect' := by
  obtain ⟨raw, hraw, hsha⟩ := h.profile
  obtain ⟨raw', hraw', hsha'⟩ := h'.profile
  have hn : [expect.nonce] = [expect'.nonce] := h.nonce.symm.trans h'.nonce
  have hr : [raw] = [raw'] := hraw.symm.trans hraw'
  rw [List.cons.injEq] at hn hr
  obtain ⟨nonce, image, profile⟩ := expect
  obtain ⟨nonce', image', profile'⟩ := expect'
  rw [Expect.mk.injEq]
  refine ⟨hn.1, h.image.trans h'.image.symm, ?_⟩
  exact hsha.trans ((congrArg env.sha256 hr.1).trans hsha'.symm)

/-- Nothing was watched and the exit code is a failing one. -/
structure Still (w : World) : Prop where
  rc : Failing w.st
  log : ∀ e ∈ w.log, NoWatch e.1

theorem Still.unseen (h : Still w) : Unseen env args w :=
  ⟨h.rc, fun _ _ e he => not_isExit (h.log e he)⟩

theorem noWatch_early {op : Op} (h : Early op) : NoWatch op := by
  rintro c rfl
  rcases h with (h | h) | h | h | h <;> first | exact h | cases h

theorem noWatch_cleansUp {op : Op} (h : CleansUp op) : NoWatch op := by
  rintro c rfl
  rcases h with h | h | h <;> exact h

theorem neutral_cleansUp {op : Op} (h : CleansUp op) : Neutral op := by
  rcases h with h | h | h <;> cases op <;> first | exact h.elim | trivial

theorem neutral_spawns {op : Op} (h : Spawns op) : Neutral op := by
  rcases h with h | h | h <;> cases op <;> first | exact h.elim | trivial

/-- The spawn and the cleanup around it. -/
theorem spawnCleaned_run {rounds : Nat} {o : Outcome Exn Unit}
    (hepoch : Epoch env args w.log expect) (hstill : Still w) (ho : o ≠ .cut)
    (h : Run (semantics env ok) (spawnCleaned args a expect rounds) w o w') :
    Unseen env args w' ∨ ∃ expect cid code oom before after doc,
      Concluded env args o w' expect cid code oom before after doc := by
  have hspawn : ((spawn args a expect (commandOf args a expect) rounds).handle
      recordError).Calls Neutral :=
    (spawn_calls.mono fun _ => neutral_spawns).handle fun e => recordError_calls fun _ _ => trivial
  have hend : ∀ {u : World} {o₁ oc : Outcome Exn Unit},
      Run (semantics env ok) ((spawn args a expect (commandOf args a expect) rounds).handle
        recordError) w o₁ u →
      Run (semantics env ok) (cleanup expect) u oc w' → (o = .value () → oc = .value ()) →
      (∀ e, o = .raised e → e.handled = true → oc = .raised e) →
      Unseen env args w' ∨ ∃ expect cid code oom before after doc,
        Concluded env args o w' expect cid code oom before after doc := by
    intro u o₁ oc h₁ hclean hvalue hraised
    have hepoch' : Epoch env args w'.log expect := (hepoch.of_run hspawn h₁).of_run
      (cleanup_calls.mono fun _ => neutral_cleansUp) hclean
    rcases (spawnHandled_run h₁).1 with hsilent | ⟨id, hexited, hcid⟩
    · obtain ⟨evs, hlog, hevs⟩ := hsilent.log
      obtain ⟨evs', hlog', hevs'⟩ := Run.log_extends cleanup_calls hclean
      have hrc : u.st.rc ≠ 0 := hsilent.rc hstill.rc
      refine .inl ⟨?_, ?_⟩
      · have hkept : w'.st.rc = u.st.rc :=
          Run.keeps (I := fun l => l.rc = u.st.rc) (cleanup_keeps hrc) hclean rfl
        rw [Failing, hkept]
        exact hrc
      · intro expect' he' e he
        obtain rfl := hepoch'.unique he'
        rw [hlog', hlog, List.append_assoc, List.mem_append, List.mem_append] at he
        rcases he with he | he | he
        · exact not_isExit (hstill.log e he)
        · exact hevs e he
        · exact not_isExit (noWatch_cleansUp (hevs' e he))
    · obtain ⟨before, doc, code, oom, after, hlog, hbefore, hshows, hafter, hrc⟩ := hexited.split
      obtain ⟨evs, hlog', hcleaned⟩ := cleanup_run hcid hclean
      have hcloses : ∀ e ∈ after, ¬ Gathers e.1 ∧ ¬ Records e.1 :=
        fun e he => not_evidence_closes (.inr (hafter e he))
      have hcollected : Collected expect id.text (after ++ evs) ↔ Collected expect id.text evs :=
        collected_congr (mem_append_iff_right fun e he => (hcloses e he).1)
      have hsaved : Saved (after ++ evs) ↔ Saved evs :=
        saved_congr (mem_append_iff_right fun e he => (hcloses e he).2)
      have hblocked : Blocked (after ++ evs) ↔ Blocked evs :=
        blocked_congr (mem_append_iff_right fun e he => (hcloses e he).2)
      refine .inr ⟨expect, id.text, code, oom, w.log ++ before, after ++ evs, doc, hepoch', ?_,
        hshows, ?_, ?_, ?_, ?_, ?_⟩
      · rw [hlog', hlog]
        simp only [List.append_assoc, List.cons_append]
      · intro e he
        rcases List.mem_append.mp he with he | he
        · exact not_isExit (hstill.log e he)
        · exact hbefore e he
      · intro e he
        rcases List.mem_append.mp he with he | he
        · rw [hafter e he]
          simp [NoWatch]
        · exact noWatch_cleansUp (hcleaned.calls e he)
      · exact hrc ▸ hcleaned.held
      · intro hv
        rw [hcollected, hsaved, hblocked]
        exact hrc ▸ hcleaned.done (hvalue hv)
      · intro e he hhandled
        rw [hsaved, hblocked]
        exact hcleaned.failed e (hraised e he hhandled) hhandled
  rcases run_finally.mp h with ⟨_, u, h₁, h₂⟩ | ⟨e, u, h₁, h₂⟩ | ⟨rfl, h₁⟩
  · rcases run_bind.mp h₂ with ⟨_, v, h₃, rfl, rfl⟩ | ⟨e, rfl, h₃⟩ | ⟨rfl, h₃⟩
    · exact hend h₁ h₃ (fun _ => rfl) (by simp)
    · exact hend h₁ h₃ (by simp) (fun _ he _ => he)
    · exact absurd rfl ho
  · have hunhandled := (spawnHandled_run h₁).2 e rfl
    rcases run_bind.mp h₂ with ⟨_, v, h₃, rfl, rfl⟩ | ⟨e', rfl, h₃⟩ | ⟨rfl, h₃⟩
    · refine hend h₁ h₃ (by simp) fun e' he hhandled => ?_
      rw [Outcome.raised.injEq] at he
      rw [← he, hunhandled] at hhandled
      cases hhandled
    · exact hend h₁ h₃ (by simp) (fun _ he _ => he)
    · exact absurd rfl ho
  · exact absurd rfl ho

theorem launch_run {rounds : Nat} {o : Outcome Exn Unit} (h : Entered args a w) (ho : o ≠ .cut)
    (hrun : Run (semantics env ok) (launch env args a rounds) w o w') :
    Unseen env args w' ∨ ∃ expect cid code oom before after doc,
      Concluded env args o w' expect cid code oom before after doc := by
  rcases launch_cases h hrun with hstopped | ⟨expect, v, hready, hspawn⟩
  · exact .inl (Still.unseen ⟨hstopped.rc, fun e he => noWatch_early (hstopped.calls e he)⟩)
  · refine spawnCleaned_run hready.epoch ⟨?_, fun e he => noWatch_early (hready.calls e he)⟩ ho
      hspawn
    rw [Failing, hready.rc]
    exact Nat.succ_ne_zero 4

/-! ## The exit code -/

/-- The watch saw this container exit; `after` is the rest of the trace. -/
def ExitSeen (env : Env) (args : Args) (log : Log) (expect : Expect) (cid : String) (code : Nat)
    (oom : Json) (after : Log) : Prop :=
  Epoch env args log expect ∧ ∃ before doc,
    log = before ++ inspected .watch cid (.ok doc) :: after ∧ ShowsExit expect cid doc code oom

/-- The exit code tells what happened. -/
structure Honest (env : Env) (args : Args) (rc : Nat) (log : Log) : Prop where
  success : rc = 0 ↔ ∃ expect cid oom after, ExitSeen env args log expect cid 0 oom after ∧
    oom.truthy = false ∧ Collected expect cid after ∧ Saved after
  failure : ∀ expect cid code oom after, ExitSeen env args log expect cid code oom after →
    1 ≤ code → rc = code

/-- The exit was seen with a code that `EXIT_LOCKED` is not, and then the last save of the
launch record raised a `BlockingIOError`. -/
def Mistaken (env : Env) (args : Args) (log : Log) : Prop :=
  ∃ expect cid code oom after, ExitSeen env args log expect cid code oom after ∧ 1 ≤ code ∧
    code ≠ exitLocked ∧ Blocked after

theorem ShowsExit.unique {doc : Json} {code code' : Nat} {oom oom' : Json} {cid' : String}
    (h : ShowsExit expect cid doc code oom) (h' : ShowsExit expect cid' doc code' oom') :
    code' = code ∧ oom' = oom := by
  obtain ⟨state, hstate, -, hcode, hoom⟩ := h.state
  obtain ⟨state', hstate', -, hcode', hoom'⟩ := h'.state
  rw [hstate, Except.ok.injEq] at hstate'
  subst hstate'
  rw [hcode, Except.ok.injEq, Json.int.injEq] at hcode'
  rw [hoom, Except.ok.injEq] at hoom'
  exact ⟨(Int.ofNat.inj hcode').symm, hoom'.symm⟩

theorem Epoch.of_append {log evs : Log} (h : Epoch env args (log ++ evs) expect)
    (hevs : ∀ e ∈ evs, Neutral e.1) : Epoch env args log expect := by
  refine ⟨h.image, ?_, ?_⟩
  · have hn := h.nonce
    rw [nonces_append, nonces_neutral hevs, List.append_nil] at hn
    exact hn
  · have hp := h.profile
    rw [profiles_append, profiles_neutral hevs, List.append_nil] at hp
    exact hp

theorem noWatch_closes {op : Op} (h : Closes op) : NoWatch op := by
  rintro c rfl
  exact h

theorem neutral_closes {op : Op} (h : Closes op) : Neutral op := by
  cases op <;> first | exact h.elim | trivial

/-- What is seen in the trace of a run is what the launch concluded. -/
theorem Concluded.exitSeen_iff {o : Outcome Exn Unit} {code code' : Nat} {oom oom' doc : Json}
    {before after after' tail : Log} {expect' : Expect} {cid' : String}
    (h : Concluded env args o w expect cid code oom before after doc)
    (htail : ∀ e ∈ tail, Closes e.1) :
    ExitSeen env args (w.log ++ tail) expect' cid' code' oom' after' ↔
      expect' = expect ∧ cid' = cid ∧ code' = code ∧ oom' = oom ∧ after' = after ++ tail := by
  have hneutral : ∀ e ∈ tail, Neutral e.1 := fun e he => neutral_closes (htail e he)
  constructor
  · rintro ⟨hepoch, before', doc', hlog, hshows⟩
    obtain rfl := (hepoch.of_append hneutral).unique h.epoch
    rw [h.log, List.append_assoc, List.cons_append] at hlog
    have hnone : ∀ e ∈ after ++ tail, ¬ IsExit expect' e := by
      intro e he
      rcases List.mem_append.mp he with he | he
      · exact not_isExit (h.noneAfter e he)
      · exact not_isExit (noWatch_closes (htail e he))
    obtain ⟨-, hev, hafter⟩ := split_unique h.noneBefore hnone hlog
      ⟨cid', doc', code', oom', rfl, hshows⟩
    rw [Sigma.mk.injEq, Op.inspect.injEq] at hev
    obtain ⟨⟨-, rfl⟩, hdoc⟩ := hev
    have hdoc' : (Except.ok doc : Except Exn Json) = .ok doc' := eq_of_heq hdoc
    rw [Except.ok.injEq] at hdoc'
    subst hdoc'
    obtain ⟨rfl, rfl⟩ := h.shows.unique hshows
    exact ⟨rfl, rfl, rfl, rfl, hafter.symm⟩
  · rintro ⟨rfl, rfl, rfl, rfl, rfl⟩
    refine ⟨h.epoch.append hneutral, before, doc, ?_, h.shows⟩
    rw [h.log, List.append_assoc, List.cons_append]

/-- The exit code of a run whose launch ended with `o` holding the code `found`. -/
def Returned (o : Outcome Exn Unit) (found rc : Nat) : Prop :=
  (o = .value () ∧ rc = found) ∨
    ∃ e, o = .raised e ∧ e.handled = true ∧
      rc = if blocking e then exitLocked else if found = 0 then exitCleanup else found

theorem handleRun_value {e : Exn} {early : Option Nat}
    (h : Run (semantics env ok) (handleRun e) w (.value early) w') :
    early = none ∧ e.handled = true ∧ (∃ tail, w'.log = w.log ++ tail ∧ ∀ e ∈ tail, Closes e.1) ∧
      w'.st.rc = if blocking e then exitLocked
        else if w.st.rc = 0 then exitCleanup else w.st.rc := by
  have htail := Run.log_extends handleRun_calls h
  unfold handleRun at h
  split at h
  · obtain ⟨_, v, h₁, h₂⟩ := run_bind_value.mp h
    obtain ⟨he, rfl⟩ := h₂
    rw [Outcome.value.injEq] at he
    obtain ⟨-, rfl⟩ := run_assign h₁
    exact ⟨he, rfl, htail, rfl⟩
  · next hne =>
    split at h
    · next hhandled =>
      obtain ⟨_, v, h₁, h₂⟩ := run_bind_value.mp h
      obtain ⟨_, u, h₃, h₄⟩ := run_bind_value.mp h₂
      obtain ⟨he, rfl⟩ := h₄
      rw [Outcome.value.injEq] at he
      obtain ⟨rfl, -⟩ := run_ask_value rfl h₃
      obtain ⟨-, rfl⟩ := run_assign h₁
      have hb : blocking e = false := by
        cases e with
        | os b m =>
          cases b with
          | true => exact absurd rfl (hne m)
          | false => rfl
        | _ => rfl
      refine ⟨he, hhandled, htail, ?_⟩
      rw [hb]
      rfl
    · cases h.1

/-- A run that returns without printing was refused with a failing code, or launched. -/
theorem run_value_cases {rounds rc : Nat} (hprint : args.printOnly = false)
    (h : Run (semantics env ok) (run env args rounds) initialWorld (.value rc) w') :
    (rc ≠ 0 ∧ ∀ e ∈ w'.log, Opens e.1 ∨ Closes e.1) ∨
      ∃ a v o v' tail, Entered args a v ∧
        Run (semantics env ok) (launch env args a rounds) v o v' ∧
        w'.log = v'.log ++ tail ∧ (∀ e ∈ tail, Closes e.1) ∧ Returned o v'.st.rc rc := by
  obtain ⟨early, u, h₁, h₂⟩ := run_bind_value.mp h
  obtain ⟨hrc, rfl⟩ := run_locals_bind h₂
  rw [Outcome.value.injEq] at hrc
  subst hrc
  rcases run_handle.mp h₁ with ⟨_, he, h₄⟩ | ⟨e, v, h₅, h₃⟩ | ⟨hcut, -⟩
  · rw [Outcome.value.injEq] at he
    subst he
    rcases body_cases hprint h₄ with hrefused | ⟨a, v, v', o, hentered, hlaunch, hunlock, ho⟩
    · exact absurd rfl (hrefused.novalue _)
    · cases o with
      | value x =>
        obtain rfl : early = none := by simpa [Outcome.map] using ho
        rcases hunlock with ⟨hcut, -⟩ | ⟨-, rfl⟩
        · cases hcut
        · exact .inr ⟨a, v, _, v', _, hentered, hlaunch, rfl, by simp [Closes], .inl ⟨rfl, rfl⟩⟩
      | raised e => simp [Outcome.map] at ho
      | cut => simp [Outcome.map] at ho
  · obtain ⟨rfl, hhandled, ⟨tail, htail, hcloses⟩, hrc⟩ := handleRun_value h₃
    rcases body_cases hprint h₅ with hrefused | ⟨a, v₀, v', o, hentered, hlaunch, hunlock, ho⟩
    · left
      refine ⟨?_, ?_⟩
      · rw [hrefused.locals] at hrc
        show w'.st.rc ≠ 0
        rw [hrc]
        split
        · exact Nat.succ_ne_zero _
        · exact Nat.succ_ne_zero _
      · intro e' he
        rw [htail] at he
        rcases List.mem_append.mp he with he | he
        · exact hrefused.calls e' he
        · exact .inr (hcloses e' he)
    · cases o with
      | value x => simp [Outcome.map] at ho
      | raised e' =>
        obtain rfl : e = e' := by simpa [Outcome.map] using ho
        rcases hunlock with ⟨hcut, -⟩ | ⟨-, rfl⟩
        · cases hcut
        · refine .inr ⟨a, v₀, _, v', ⟨.closeLock, ()⟩ :: tail, hentered, hlaunch, ?_, ?_,
            .inr ⟨e, rfl, hhandled, hrc⟩⟩
          · rw [htail, List.append_assoc]
            rfl
          · intro e' he
            rcases List.mem_cons.mp he with rfl | he
            · trivial
            · exact hcloses e' he
      | cut => simp [Outcome.map] at ho
  · cases hcut

theorem Returned.ne_zero {o : Outcome Exn Unit} {found rc : Nat} (h : Returned o found rc)
    (hfound : found ≠ 0) : rc ≠ 0 := by
  rcases h with ⟨-, rfl⟩ | ⟨e, -, -, rfl⟩
  · exact hfound
  · split
    · exact Nat.succ_ne_zero _
    · exact hfound

theorem Returned.not_cut {o : Outcome Exn Unit} {found rc : Nat} (h : Returned o found rc) :
    o ≠ .cut := by
  rcases h with ⟨rfl, -⟩ | ⟨e, rfl, -⟩
  · simp
  · simp

theorem exitRc_eq_zero {code : Nat} {oom : Json} :
    exitRc code oom = 0 ↔ code = 0 ∧ oom.truthy = false := by
  unfold exitRc
  by_cases hcode : code = 0
  · cases oom.truthy <;> simp [hcode, exitWatchdog]
  · simp [hcode]

theorem exitRc_of_pos {code : Nat} (oom : Json) (h : 1 ≤ code) : exitRc code oom = code :=
  if_pos (Nat.ne_of_gt h)

/-- When the trace shows one exit, honesty is about it. -/
theorem honest_iff_of_seen {log after : Log} {code rc : Nat} {oom : Json}
    (hseen : ∀ expect' cid' code' oom' after',
      ExitSeen env args log expect' cid' code' oom' after' ↔
        expect' = expect ∧ cid' = cid ∧ code' = code ∧ oom' = oom ∧ after' = after) :
    Honest env args rc log ↔
      (rc = 0 ↔ (code = 0 ∧ oom.truthy = false) ∧ Collected expect cid after ∧ Saved after) ∧
        (1 ≤ code → rc = code) := by
  have hexists : (∃ expect cid oom after, ExitSeen env args log expect cid 0 oom after ∧
      oom.truthy = false ∧ Collected expect cid after ∧ Saved after) ↔
      (code = 0 ∧ oom.truthy = false) ∧ Collected expect cid after ∧ Saved after := by
    constructor
    · rintro ⟨_, _, _, _, h, htruthy, hcollected, hsaved⟩
      obtain ⟨rfl, rfl, hcode, rfl, rfl⟩ := (hseen _ _ _ _ _).mp h
      exact ⟨⟨hcode.symm, htruthy⟩, hcollected, hsaved⟩
    · rintro ⟨⟨hcode, htruthy⟩, hcollected, hsaved⟩
      exact ⟨expect, cid, oom, after, (hseen _ _ _ _ _).mpr ⟨rfl, rfl, hcode.symm, rfl, rfl⟩,
        htruthy, hcollected, hsaved⟩
  constructor
  · intro h
    refine ⟨h.success.trans hexists, fun hpos => ?_⟩
    exact h.failure _ _ _ _ _ ((hseen _ _ _ _ _).mpr ⟨rfl, rfl, rfl, rfl, rfl⟩) hpos
  · rintro ⟨hzero, hcode⟩
    refine ⟨hzero.trans hexists.symm, ?_⟩
    intro _ _ code' _ _ h hpos
    obtain ⟨-, -, rfl, -, -⟩ := (hseen _ _ _ _ _).mp h
    exact hcode hpos

theorem mistaken_iff_of_seen {log after : Log} {code : Nat} {oom : Json}
    (hseen : ∀ expect' cid' code' oom' after',
      ExitSeen env args log expect' cid' code' oom' after' ↔
        expect' = expect ∧ cid' = cid ∧ code' = code ∧ oom' = oom ∧ after' = after) :
    Mistaken env args log ↔ 1 ≤ code ∧ code ≠ exitLocked ∧ Blocked after := by
  constructor
  · rintro ⟨_, _, _, _, _, h, hrest⟩
    obtain ⟨-, -, rfl, -, rfl⟩ := (hseen _ _ _ _ _).mp h
    exact hrest
  · intro h
    exact ⟨expect, cid, code, oom, after, (hseen _ _ _ _ _).mpr ⟨rfl, rfl, rfl, rfl, rfl⟩, h⟩

/-- The returned exit code is honest exactly when no `BlockingIOError` of the last save is
mistaken for a held lock. -/
theorem run_honest_iff {rounds rc : Nat} (hprint : args.printOnly = false)
    (h : Run (semantics env anyAnswer) (run env args rounds) initialWorld (.value rc) w') :
    Honest env args rc w'.log ↔ ¬ Mistaken env args w'.log := by
  -- without an exit in the trace both sides hold
  have hunseen : rc ≠ 0 → (∀ expect cid code oom after,
      ¬ ExitSeen env args w'.log expect cid code oom after) →
      (Honest env args rc w'.log ↔ ¬ Mistaken env args w'.log) := by
    intro hrc hnone
    refine ⟨fun _ hmistaken => ?_, fun _ => ?_⟩
    · obtain ⟨expect, cid, code, oom, after, hseen, _⟩ := hmistaken
      exact hnone _ _ _ _ _ hseen
    refine ⟨⟨fun hzero => absurd hzero hrc, ?_⟩, ?_⟩
    · rintro ⟨expect, cid, oom, after, hseen, -⟩
      exact absurd hseen (hnone _ _ _ _ _)
    · intro expect cid code oom after hseen
      exact absurd hseen (hnone _ _ _ _ _)
  have hwatch : ∀ {expect cid code oom after}, ExitSeen env args w'.log expect cid code oom after →
      ∃ e ∈ w'.log, IsExit expect e := by
    rintro expect cid code oom after ⟨-, before, doc, hlog, hshows⟩
    refine ⟨inspected .watch cid (.ok doc), ?_, cid, doc, code, oom, rfl, hshows⟩
    rw [hlog]
    exact List.mem_append_right _ List.mem_cons_self
  rcases run_value_cases hprint h with ⟨hrc, hcalls⟩ | ⟨a, v, o, v', tail, hentered, hlaunch, hlog,
    htail, hreturned⟩
  · refine hunseen hrc fun expect cid code oom after hseen => ?_
    obtain ⟨e, he, hexit⟩ := hwatch hseen
    refine not_isExit ?_ hexit
    rcases hcalls e he with hop | hop
    · rintro c hc
      rw [hc] at hop
      exact hop.elim id id
    · exact noWatch_closes hop
  rcases launch_run hentered hreturned.not_cut hlaunch with hunseen' |
    ⟨expect, cid, code, oom, before, after, doc, hconcluded⟩
  · refine hunseen (hreturned.ne_zero hunseen'.rc) fun expect cid code oom after hseen => ?_
    obtain ⟨e, he, hexit⟩ := hwatch hseen
    have hepoch : Epoch env args v'.log expect :=
      Epoch.of_append (hlog ▸ hseen.1) fun e he => neutral_closes (htail e he)
    rw [hlog] at he
    rcases List.mem_append.mp he with he | he
    · exact hunseen'.log expect hepoch e he hexit
    · exact not_isExit (noWatch_closes (htail e he)) hexit
  -- the exit is in the trace, once
  have hseen : ∀ expect' cid' code' oom' after',
      ExitSeen env args w'.log expect' cid' code' oom' after' ↔
        expect' = expect ∧ cid' = cid ∧ code' = code ∧ oom' = oom ∧ after' = after ++ tail := by
    intro _ _ _ _ _
    rw [hlog]
    exact hconcluded.exitSeen_iff htail
  have hquiet : ∀ e ∈ tail, ¬ Gathers e.1 ∧ ¬ Records e.1 :=
    fun e he => not_evidence_closes (.inl (htail e he))
  rw [honest_iff_of_seen hseen, mistaken_iff_of_seen hseen,
    collected_congr (mem_append_iff_left fun e he => (hquiet e he).1),
    saved_congr (mem_append_iff_left fun e he => (hquiet e he).2),
    blocked_congr (mem_append_iff_left fun e he => (hquiet e he).2), ← exitRc_eq_zero]
  rcases hreturned with ⟨hvalue, rfl⟩ | ⟨e, hraised, hhandled, hrc⟩
  · obtain ⟨hzero, hsaved, hblocked⟩ := hconcluded.done hvalue
    refine ⟨fun _ h => hblocked h.2.2, fun _ => ⟨?_, fun hpos => ?_⟩⟩
    · by_cases hexit : exitRc code oom = 0
      · rw [hzero hexit]
        exact ⟨fun h => ⟨hexit, h, hsaved⟩, fun h => h.2.1⟩
      · rw [hconcluded.held hexit]
        exact ⟨fun h => absurd h hexit, fun h => absurd h.1 hexit⟩
    · have hexit := exitRc_of_pos oom hpos
      rw [hconcluded.held (by omega), hexit]
  · obtain ⟨hsaved, hblocked⟩ := hconcluded.failed e hraised hhandled
    have hne : rc ≠ 0 := by
      rw [hrc]
      split
      · exact Nat.succ_ne_zero _
      · split
        · exact Nat.succ_ne_zero _
        · assumption
    have hfirst : (rc = 0 ↔ exitRc code oom = 0 ∧ Collected expect cid after ∧ Saved after) :=
      ⟨fun h => absurd h hne, fun h => absurd h.2.2 hsaved⟩
    rw [and_iff_right hfirst, hblocked]
    cases hb : blocking e with
    | false =>
      rw [hb, if_neg Bool.false_ne_true] at hrc
      refine ⟨fun _ h => absurd h.2.2 Bool.false_ne_true, fun _ hpos => ?_⟩
      have hexit := exitRc_of_pos oom hpos
      have hfound := hconcluded.held (by omega)
      rw [hrc, hfound, hexit, if_neg (by omega)]
    | true =>
      rw [hb, if_pos rfl] at hrc
      rw [hrc]
      constructor
      · rintro h ⟨hpos, hlocked, -⟩
        exact hlocked (h hpos).symm
      · intro h hpos
        by_contra hne'
        exact h ⟨hpos, fun heq => hne' heq.symm, rfl⟩

end

/-! ## Both sides on a run -/

theorem run_honest_iff_sample :
    ∃ w', Run (semantics launchEnv anyAnswer) (run launchEnv launchArgs 1) initialWorld
        (.value 0) w' ∧
      (Honest launchEnv launchArgs 0 w'.log ↔ ¬ Mistaken launchEnv launchArgs w'.log) := by
  obtain ⟨⟨o, w'⟩, hexec, heq⟩ := Option.map_eq_some_iff.mp launch_starts
  rw [Prod.mk.injEq] at heq
  obtain ⟨rfl, hcount⟩ := heq
  have hrun := run_of_exec hexec
  have hprint : launchArgs.printOnly = false := rfl
  exact ⟨w', hrun, @run_honest_iff launchEnv w' launchArgs 1 0 hprint hrun⟩

/-- The container returns 3, and the last save of the launch record is blocked. -/
def blockedInput (op : Op) : In op :=
  match op with
  | .inspect .watch _ => (.ok (containerDoc false 3) : Except Exn Json)
  | .writeTemp .launchRecord (.obj record) =>
    if (Json.field record "status").isText "FAILED" then
      (.error (.os true "Resource temporarily unavailable") : Except Exn Unit)
    else (.ok () : Except Exn Unit)
  | op => launchInput op

/-- The documents of the watch loop. -/
def watched (log : Log) : List (String × Json) :=
  log.filterMap fun
    | ⟨.inspect .watch cid, .ok doc⟩ => some (cid, doc)
    | _ => none

theorem launch_blocked : ((exec (semantics launchEnv anyAnswer) (fun _ => blockedInput)
    (run launchEnv launchArgs 1) 0 initialWorld).map fun r =>
      r.1 = .value 9 && nonces r.2.log = [launchNonce] &&
        profiles r.2.log = [encode launchProfileText] &&
        watched r.2.log = [(launchCid, containerDoc false 3)]) = some true := by
  decide +kernel

theorem watched_mem {log : Log} {cid : String} {doc : Json} (h : (cid, doc) ∈ watched log) :
    inspected .watch cid (.ok doc) ∈ log := by
  obtain ⟨⟨op, r⟩, hevent, hsome⟩ := List.mem_filterMap.mp h
  split at hsome
  · next heq =>
    rw [Option.some.injEq, Prod.mk.injEq] at hsome
    obtain ⟨rfl, rfl⟩ := hsome
    rw [heq] at hevent
    exact hevent
  · cases hsome

theorem launch_profile_digest :
    (launchEnv.sha256 (encode launchProfileText)).text = launchProfileSha256 := by
  decide +kernel

theorem containerDoc_showsExit : ShowsExit
    ⟨launchNonce, launchImage, launchEnv.sha256 (encode launchProfileText)⟩ launchCid
    (containerDoc false 3) 3 (.bool false) := by
  refine ⟨⟨rfl, rfl, _, rfl, rfl, ?_, rfl⟩, ⟨_, rfl, rfl, rfl, rfl⟩, by decide⟩
  rw [launch_profile_digest]
  rfl

/-- A container that returned 3 is reported as a held lock. -/
theorem run_not_honest :
    ∃ w', Run (semantics launchEnv anyAnswer) (run launchEnv launchArgs 1) initialWorld
        (.value 9) w' ∧
      ¬ Honest launchEnv launchArgs 9 w'.log := by
  obtain ⟨⟨o, w'⟩, hexec, heq⟩ := Option.map_eq_some_iff.mp launch_blocked
  simp only [Bool.and_eq_true, decide_eq_true_eq] at heq
  obtain ⟨⟨⟨rfl, hnonces⟩, hprofiles⟩, hwatched⟩ := heq
  have hrun := run_of_exec hexec
  refine ⟨w', hrun, fun hhonest => ?_⟩
  have hmem : inspected .watch launchCid (.ok (containerDoc false 3)) ∈ w'.log := by
    refine watched_mem ?_
    rw [hwatched]
    exact List.mem_cons_self
  obtain ⟨before, after, hlog⟩ := List.append_of_mem hmem
  have hepoch : Epoch launchEnv launchArgs w'.log
      ⟨launchNonce, launchImage, launchEnv.sha256 (encode launchProfileText)⟩ :=
    ⟨rfl, hnonces, _, hprofiles, rfl⟩
  have hrc := hhonest.failure _ _ _ _ _
    ⟨hepoch, before, _, hlog, containerDoc_showsExit⟩ (Nat.le_add_left 1 2)
  cases hrc

end Guard
end FlashNext
