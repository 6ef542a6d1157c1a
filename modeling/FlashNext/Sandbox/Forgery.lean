import FlashNext.Sandbox.Candidate
import Mathlib.Algebra.Order.Ring.Rat
import Mathlib.Tactic.NormNum

/-!
# When the marker can be forged

The descriptor of the marker is inherited by the process that runs the candidate, so the
candidate can send the marker itself.  `trusted_iff` says that the driver can be trusted with
exactly the candidates that do not: those that never send just the marker, exit with status 0
and stay within the output bound without reaching the epilogue.
-/

namespace FlashNext
namespace Sandbox

open Effect Text
open Py (Str Value str)

theorem update_trace {w : World} {op : Op} {a : Ans op} : (update w op a).trace = w.trace := by
  cases op with
  | read s => cases a <;> rfl
  | launch => cases a <;> rfl
  | _ => rfl

/-- A run shows only what the program can do. -/
theorem run_can {program : Program} {α : Type} {p : DriverM α} {w w' : World} {o : Outcome Exc α}
    (h : Run (sandbox program) p w o w') (hw : program.can w.trace) : program.can w'.trace := by
  refine Run.keeps_all (I := fun v => program.can v.trace) ?_ h hw
  intro op i v hi _
  show program.can (update (v.act i.1) op i.2).trace
  rw [update_trace]
  exact hi.1.can

section

variable {program : Program} {interp : Interp} {candidate : Str} {reference : Value} {timeout : ℚ}

variable {w w' : World} {l : Locals}

theorem act_nil (w : World) : w.act [] = w := by
  rw [World.act, List.append_nil]

theorem mayAct_nil (hcan : program.can w.trace) : MayAct program w [] := by
  refine ⟨?_, fun _ => rfl, fun s _ => rfl⟩
  rw [List.append_nil]
  exact hcan

/-- A call before which the candidate does nothing. -/
theorem run_quietly {α : Type} {c : Op} {k : Ans c → DriverM α} {o : Outcome Exc α} (a : Ans c)
    (hcan : program.can w.trace) (ha : consistent w c a)
    (h : Run (sandbox program) (k a) (update w c a) o w') :
    Run (sandbox program) (ask c >>= k) w o w' := by
  refine run_ask_bind.mpr ⟨[], a, mayAct_nil hcan, ?_, ?_⟩
  · rw [act_nil]
    exact ha
  · rw [act_nil]
    exact h

/-- The clock stands at its start, and no child was seen. -/
structure Early (l : Locals) (w : World) : Prop where
  clock : w.clock = 0
  owned : l.owned = []
  deadline : 0 < l.deadline
  settling : l.pipeDeadline = none ∨ l.pipeDeadline = some pipeSettle

theorem Early.store {stream : Stream} {bytes : Bytes} (h : Early l w) :
    Early (l.store stream bytes) (update w (.read stream) (.chunk bytes)) := by
  refine ⟨h.clock, ?_, ?_, ?_⟩
  · rw [store_owned, h.owned]
  · rw [store_deadline]
    exact h.deadline
  · rw [store_pipeDeadline]
    exact h.settling

/-- The variables after a poll at the start of the clock. -/
def Locals.noticing (l : Locals) (code : Option Int) : Locals :=
  if code.isSome && l.pipeDeadline.isNone then { l with pipeDeadline := some (0 + pipeSettle) }
  else l

theorem pipeSettle_pos : ¬ pipeSettle ≤ 0 := by
  unfold pipeSettle
  norm_num

section

variable (code : Option Int)

@[simp] theorem noticing_owned : (l.noticing code).owned = l.owned := by
  unfold Locals.noticing
  split <;> rfl

@[simp] theorem noticing_deadline : (l.noticing code).deadline = l.deadline := by
  unfold Locals.noticing
  split <;> rfl

@[simp] theorem noticing_status : (l.noticing code).status = l.status := by
  unfold Locals.noticing
  split <;> rfl

@[simp] theorem noticing_fault : (l.noticing code).fault = l.fault := by
  unfold Locals.noticing
  split <;> rfl

@[simp] theorem noticing_completion : (l.noticing code).completion = l.completion := by
  unfold Locals.noticing
  split <;> rfl

@[simp] theorem noticing_registered : (l.noticing code).registered = l.registered := by
  unfold Locals.noticing
  split <;> rfl

theorem Knows.noticing (h : Knows l w) : Knows (l.noticing code) w := by
  unfold Locals.noticing
  split
  · exact h.of_locals ⟨rfl, rfl, rfl, rfl, id⟩
  · exact h

end

theorem Early.pipeDeadline (h : Early l w) (code : Option Int) :
    (l.noticing code).pipeDeadline = none ∨ (l.noticing code).pipeDeadline = some pipeSettle := by
  unfold Locals.noticing
  split
  · show some (0 + pipeSettle) = none ∨ some (0 + pipeSettle) = some pipeSettle
    rw [zero_add]
    exact .inr rfl
  · exact h.settling

theorem Early.settles (h : Early l w) (code : Int) :
    (l.noticing (some code)).pipeDeadline = some pipeSettle := by
  rcases h.settling with hnone | hsome
  · have hset : (l.noticing (some code)).pipeDeadline = some (0 + pipeSettle) := by
      unfold Locals.noticing
      rw [hnone]
      rfl
    rw [hset, zero_add]
  · unfold Locals.noticing
    rw [hsome, Option.isNone_some, Bool.and_false, if_neg Bool.false_ne_true, hsome]

theorem Early.waits (h : Early l w) (code : Option Int) :
    ((l.noticing code).pipeDeadline.any fun deadline => deadline ≤ (0 : ℚ)) = false := by
  rcases h.pipeDeadline code with hnone | hsome
  · rw [hnone, Option.any_none]
  · rw [hsome, Option.any_some, decide_eq_false_iff_not]
    exact pipeSettle_pos

theorem Early.noticing (h : Early l w) (code : Option Int) : Early (l.noticing code) w := by
  refine ⟨h.clock, ?_, ?_, h.pipeDeadline code⟩
  · rw [noticing_owned, h.owned]
  · rw [noticing_deadline]
    exact h.deadline

/-- A call of a clock that does not move. -/
theorem update_clock (h : w.clock = 0) : update w .monotonic (0 : ℚ) = w := by
  cases w
  subst h
  rfl

theorem Early.owned_self (h : Early l w) : ({ l with owned := union l.owned [] } : Locals) = l := by
  have howned := h.owned
  cases l
  subst howned
  rfl

/-- A round at the start of the clock, before which the candidate acts, and which reads some
of the streams. -/
theorem Early.advance {rounds : Nat} {acts : List Action} {l₁ l' : Locals} {v : World}
    (streams : List Stream) (h : Early l w) (hacts : MayAct program w acts)
    (hnodup : streams.Nodup)
    (hready : ∀ s ∈ streams, s ∈ (l.noticing (exitOf (w.trace ++ acts))).registered)
    (hdrain : Run (sandbox program) (drainAll streams (l.noticing (exitOf (w.trace ++ acts))))
      (w.act acts) (.value l₁) v)
    (hcan : program.can v.trace) (hstatus : l₁.status ≠ .outputLimit) (hopen : l₁.registered ≠ [])
    (hrest : Run (sandbox program) (watch rounds l₁) v (.value l') w') :
    Run (sandbox program) (watch (rounds + 1) l) w (.value l') w' := by
  have hcan' : program.can (w.act acts).trace := hacts.can
  refine run_ask_bind.mpr ⟨acts, (0 : ℚ), hacts, le_of_eq h.clock, ?_⟩
  rw [update_clock (w := w.act acts) h.clock]
  refine run_quietly (c := .children) ([] : List Nat) hcan' trivial ?_
  rw [if_neg (not_le_of_gt h.deadline), h.owned_self]
  refine run_quietly (c := .poll) (exitOf (w.trace ++ acts)) hcan' (.inl rfl) ?_
  show Run (sandbox program) (if ((l.noticing (exitOf (w.trace ++ acts))).pipeDeadline.any
      fun deadline => deadline ≤ (0 : ℚ)) = true
    then settle (l.noticing (exitOf (w.trace ++ acts)))
    else pump (watch rounds) (l.noticing (exitOf (w.trace ++ acts)))) (w.act acts) _ _
  rw [if_neg (ne_true_of_eq_false (h.waits _))]
  refine run_quietly (c := .select _) (.ok streams : Except Exc (List Stream)) hcan'
    ⟨hnodup, hready⟩ ?_
  refine run_bind_value.mpr ⟨l₁, v, hdrain, ?_⟩
  rw [if_neg hstatus]
  refine run_quietly (c := .poll) (exitOf v.trace) hcan (.inl rfl) ?_
  have hmore : ¬ ((exitOf v.trace).isSome && l₁.registered.isEmpty) = true := by
    rw [Bool.and_eq_true, List.isEmpty_iff]
    exact fun hdone => hopen hdone.2
  rw [if_neg hmore]
  exact hrest

/-- The driver at a time when the candidate has done all it will do: the marker was read and
the pipes are being drained. -/
structure Draining (program : Program) (done : List Action) (l : Locals) (w : World) : Prop where
  knows : Knows l w
  can : program.can done
  trace : w.trace = done
  exited : exitOf done = some 0
  stdout : (written .stdout done).length ≤ maxOutputBytes
  stderr : (written .stderr done).length ≤ maxOutputBytes
  early : Early l w
  settling : l.pipeDeadline = some pipeSettle
  status : l.status = .ok
  fault : l.fault = none
  completion : l.completion = completionMarker
  registered : .completion ∈ l.registered

/-- The loop can end well from here. -/
def EndsWell (program : Program) (done : List Action) (l : Locals) (w : World) : Prop :=
  ∃ rounds l' w', Run (sandbox program) (watch rounds l) w (.value l') w' ∧ l'.status = .ok ∧
    l'.fault = none ∧ l'.completion = completionMarker ∧ w'.trace = done

theorem Draining.noticing {done : List Action} (h : Draining program done l w)
    (code : Option Int) : l.noticing code = l := by
  unfold Locals.noticing
  rw [h.settling, Option.isNone_some, Bool.and_false, if_neg Bool.false_ne_true]

/-- One round that drains one stream. -/
theorem Draining.advance {done : List Action} {stream : Stream} {l₁ : Locals} {v : World}
    (h : Draining program done l w) (hstream : stream ∈ l.registered)
    (hdrain : Run (sandbox program) (drain stream l) w (.value l₁) v)
    (hnext : Draining program done l₁ v) (hends : EndsWell program done l₁ v) :
    EndsWell program done l w := by
  obtain ⟨rounds, l', w', hrun, hgood⟩ := hends
  have hstatus : l₁.status ≠ .outputLimit := by
    rw [hnext.status]
    decide
  refine ⟨rounds + 1, l', w', h.early.advance [stream]
    (mayAct_nil (h.trace ▸ h.can)) (by simp) ?_ ?_ (hnext.trace ▸ hnext.can) hstatus
    (List.ne_nil_of_mem hnext.registered) hrun, hgood⟩
  · intro s hs
    rw [h.noticing]
    exact List.mem_singleton.mp hs ▸ hstream
  · rw [h.noticing, act_nil]
    exact run_bind_value.mpr ⟨l₁, v, hdrain, rfl, rfl⟩

/-- The last round: both outputs have ended and the time to settle is over. -/
theorem Draining.last {done : List Action} (h : Draining program done l w)
    (hout : .stdout ∉ l.registered) (herr : .stderr ∉ l.registered) :
    EndsWell program done l w := by
  refine ⟨1, l, { w with clock := pipeSettle }, ?_, h.status, h.fault, h.completion, h.trace⟩
  have hpos : w.clock ≤ pipeSettle := by
    rw [h.early.clock]
    unfold pipeSettle
    norm_num
  have hcan : program.can w.trace := h.trace ▸ h.can
  have hpoll : consistent { w with clock := pipeSettle } .poll (some 0 : Option Int) := by
    left
    show some 0 = exitOf w.trace
    rw [h.trace, h.exited]
  have hround : Run (sandbox program) (round (watch 0) pipeSettle l) { w with clock := pipeSettle }
      (.value l) { w with clock := pipeSettle } := by
    refine run_quietly (c := .poll) (some 0 : Option Int) hcan hpoll ?_
    have hkept : (if (some (0 : Int)).isSome && l.pipeDeadline.isNone then
        { l with pipeDeadline := some (pipeSettle + pipeSettle) } else l) = l := by
      rw [h.settling]
      rfl
    have hover : (l.pipeDeadline.any fun deadline => deadline ≤ pipeSettle) = true := by
      rw [h.settling, Option.any_some, decide_eq_true_iff]
    rw [hkept]
    show Run (sandbox program) (if (l.pipeDeadline.any fun deadline => deadline ≤ pipeSettle) = true
      then settle l else pump (watch 0) l) _ _ _
    rw [if_pos hover]
    refine run_quietly (c := .alive l.owned) ([] : List Nat) hcan trivial ?_
    have hnone : (!([] : List Nat).isEmpty ||
        l.registered.any fun s => s = .stdout || s = .stderr) = false := by
      rw [List.isEmpty_nil, Bool.not_true, Bool.false_or, List.any_eq_false]
      intro s hs
      cases s with
      | stdout => exact absurd hs hout
      | stderr => exact absurd hs herr
      | completion => decide
    rw [hnone]
    exact ⟨rfl, rfl⟩
  refine run_quietly (c := .monotonic) pipeSettle hcan hpos ?_
  refine run_quietly (c := .children) ([] : List Nat) hcan trivial ?_
  rw [h.early.owned_self]
  by_cases hlate : l.deadline ≤ pipeSettle
  · rw [if_pos hlate]
    exact run_quietly (c := .poll) (some 0 : Option Int) hcan hpoll hround
  · rw [if_neg hlate]
    exact hround

/-- An output that stays within its bound as a whole stays within it on the way. -/
theorem Draining.not_exceeds {done : List Action} {stream : Stream} {bytes : Bytes}
    (h : Draining program done l w) (hbytes : bytes = (w.unread stream).take 4096) :
    (l.store stream bytes).exceeds stream = false := by
  have hlen : w.taken stream + bytes.length ≤ (written stream done).length := by
    have hwithin := h.knows.within stream
    have hunread : (w.unread stream).length = (written stream w.trace).length - w.taken stream :=
      List.length_drop
    have htake : bytes.length ≤ (w.unread stream).length := by
      rw [hbytes, List.length_take]
      omega
    rw [h.trace] at hwithin hunread
    omega
  have hcarried : ∀ s, (w.carried s).length = w.taken s := by
    intro s
    rw [World.carried, List.length_take]
    exact Nat.min_eq_left (h.knows.within s)
  cases stream with
  | stdout =>
    have hcount : l.stdout.count = w.taken .stdout := by
      rw [h.knows.stdout, ← hcarried]
      rfl
    have hmax := h.stdout
    simp only [Locals.exceeds, store_stdout, if_true, Tail.append, decide_eq_false_iff_not]
    omega
  | stderr =>
    have hcount : l.stderr.count = w.taken .stderr := by
      rw [h.knows.stderr, ← hcarried]
      rfl
    have hmax := h.stderr
    simp only [Locals.exceeds, store_stderr, if_true, Tail.append, decide_eq_false_iff_not]
    omega
  | completion => rfl

/-- Reading a chunk of an output. -/
theorem Draining.chunk {done : List Action} {stream : Stream} {bytes : Bytes}
    (h : Draining program done l w) (hstream : stream ≠ .completion)
    (hbytes : bytes = (w.unread stream).take 4096) (hsome : bytes ≠ []) :
    Run (sandbox program) (drain stream l) w (.value (l.store stream bytes))
        (update w (.read stream) (.chunk bytes)) ∧
      Draining program done (l.store stream bytes) (update w (.read stream) (.chunk bytes)) := by
  have hshort := h.not_exceeds hbytes
  constructor
  · refine run_quietly (c := .read stream) (.chunk bytes) (h.trace ▸ h.can) ⟨hsome, hbytes⟩ ?_
    dsimp only
    rw [hshort, Bool.false_and, if_neg Bool.false_ne_true]
    exact ⟨rfl, rfl⟩
  · have hknows := h.knows.store hbytes fun _ => hshort
    refine ⟨hknows, h.can, h.trace, h.exited, h.stdout, h.stderr, h.early.store, ?_, ?_, ?_, ?_, ?_⟩
    · rw [store_pipeDeadline, h.settling]
    · rw [store_status, h.status]
    · rw [store_fault, h.fault]
    · rw [store_completion, if_neg hstream, h.completion]
    · rw [store_registered]
      exact h.registered

/-- Seeing the end of an output. -/
theorem Draining.ended {done : List Action} {stream : Stream} (h : Draining program done l w)
    (hstream : stream ≠ .completion) (hempty : w.unread stream = []) :
    Run (sandbox program) (drain stream l) w (.value (l.unregister stream))
        (update w (.read stream) .ended) ∧
      Draining program done (l.unregister stream) (update w (.read stream) .ended) := by
  constructor
  · exact run_quietly (c := .read stream) .ended (h.trace ▸ h.can) hempty ⟨rfl, rfl⟩
  · refine ⟨h.knows.end hempty, h.can, h.trace, h.exited, h.stdout, h.stderr,
      ⟨h.early.clock, h.early.owned, h.early.deadline, h.early.settling⟩, h.settling, h.status,
      h.fault, h.completion, ?_⟩
    exact List.mem_filter.mpr ⟨h.registered, by simpa using Ne.symm hstream⟩

/-- An output is drained to its end. -/
theorem Draining.drained {done : List Action} {left : Nat} (stream : Stream)
    (hstream : stream ≠ .completion) : ∀ {l : Locals} {w : World}, Draining program done l w →
      stream ∈ l.registered → (w.unread stream).length ≤ left →
      (∀ l' w', Draining program done l' w' →
        l'.registered = l.registered.filter (· ≠ stream) → EndsWell program done l' w') →
      EndsWell program done l w := by
  induction left with
  | zero =>
    intro l w h hmem hleft hrest
    have hempty := List.eq_nil_of_length_eq_zero (Nat.le_zero.mp hleft)
    obtain ⟨hrun, hnext⟩ := h.ended hstream hempty
    exact h.advance hmem hrun hnext (hrest _ _ hnext rfl)
  | succ left ih =>
    intro l w h hmem hleft hrest
    by_cases hempty : w.unread stream = []
    · obtain ⟨hrun, hnext⟩ := h.ended hstream hempty
      exact h.advance hmem hrun hnext (hrest _ _ hnext rfl)
    · have hsome : (w.unread stream).take 4096 ≠ [] := by
        simpa using hempty
      obtain ⟨hrun, hnext⟩ := h.chunk hstream rfl hsome
      refine h.advance hmem hrun hnext (ih hnext ?_ ?_ ?_)
      · rw [store_registered]
        exact hmem
      · have hpos : 0 < (w.unread stream).length := List.length_pos_of_ne_nil hempty
        have htake : 0 < ((w.unread stream).take 4096).length := List.length_pos_of_ne_nil hsome
        show ((written stream w.trace).drop (if stream = stream then
          w.taken stream + ((w.unread stream).take 4096).length else w.taken stream)).length ≤ left
        rw [if_pos rfl, List.length_drop]
        have hunread : (w.unread stream).length =
          (written stream w.trace).length - w.taken stream := List.length_drop
        omega
      · intro l' w' hl' hreg
        rw [store_registered] at hreg
        exact hrest l' w' hl' hreg

/-- Once the marker was read and the candidate is gone, the loop can end well. -/
theorem Draining.endsWell {done : List Action} (h : Draining program done l w)
    (hreg : l.registered = [.stdout, .stderr, .completion]) : EndsWell program done l w := by
  refine h.drained .stdout (by decide) (by rw [hreg]; decide) (le_refl _) ?_
  intro l₁ w₁ h₁ hreg₁
  rw [hreg] at hreg₁
  refine h₁.drained .stderr (by decide) (by rw [hreg₁]; decide) (le_refl _) ?_
  intro l₂ w₂ h₂ hreg₂
  rw [hreg₁] at hreg₂
  refine h₂.last ?_ ?_
  · rw [hreg₂]
    decide
  · rw [hreg₂]
    decide

/-! ## The forgery -/

/-- Reading the marker off its pipe, when nothing was read and nothing else was sent. -/
theorem run_drain_marker (hcan : program.can w.trace)
    (hmark : written .completion w.trace = completionMarker) (htaken : w.taken .completion = 0) :
    Run (sandbox program) (drain .completion l) w (.value (l.store .completion completionMarker))
      (update w (.read .completion) (.chunk completionMarker)) := by
  have hunread : completionMarker = (w.unread .completion).take 4096 := by
    rw [World.unread, hmark, htaken]
    decide
  refine run_quietly (c := .read .completion) (.chunk completionMarker) hcan
    ⟨by decide, hunread⟩ ?_
  have hquiet : (l.store .completion completionMarker).exceeds .completion = false := rfl
  dsimp only
  rw [hquiet, Bool.false_and, if_neg Bool.false_ne_true]
  exact ⟨rfl, rfl⟩

/-- The world of a candidate that did its early part, when the marker was read. -/
def stolen (early : List Action) : World :=
  update (({ World.start with launched := true } : World).act early) (.read .completion)
    (.chunk completionMarker)

def stolenLocals (timeout : ℚ) (early : List Action) : Locals :=
  ((Locals.start (0 + timeout)).noticing (exitOf early)).store .completion completionMarker

theorem early_launched (ht : 0 < timeout) (early : List Action) :
    Early ((Locals.start (0 + timeout)).noticing (exitOf early))
      (({ World.start with launched := true } : World).act early) := by
  have hstart : Early (Locals.start (0 + timeout)) { World.start with launched := true } := by
    refine ⟨rfl, rfl, ?_, .inl rfl⟩
    show 0 < 0 + timeout
    rw [zero_add]
    exact ht
  exact ⟨rfl, (hstart.noticing _).owned, (hstart.noticing _).deadline, (hstart.noticing _).settling⟩

theorem mayAct_launched {early : List Action} (hcan : program.can early) :
    MayAct program { World.start with launched := true } early :=
  ⟨hcan, fun h => Bool.noConfusion h, fun _ h => absurd h List.not_mem_nil⟩

theorem mayAct_stolen {early late : List Action} (hcan : program.can (early ++ late)) :
    MayAct program (stolen early) late :=
  ⟨hcan, fun h => Bool.noConfusion h, fun _ h => absurd h List.not_mem_nil⟩

theorem knows_stolen {early : List Action} (hcan : program.can early)
    (hmark : written .completion early = completionMarker) :
    Knows (stolenLocals timeout early) (stolen early) := by
  have hstart : Knows (Locals.start (0 + timeout)) { World.start with launched := true } :=
    (knows_start (0 + timeout)).of_same rfl rfl rfl
  refine ((hstart.act (mayAct_launched hcan)).noticing _).store ?_ fun _ => rfl
  show completionMarker = ((written .completion early).drop 0).take 4096
  rw [hmark]
  decide

/-- The driver has the marker, the candidate did its late part and the end was noticed. -/
theorem draining_stolen {early late : List Action} (ht : 0 < timeout)
    (hcan : program.can (early ++ late)) (hmark : written .completion early = completionMarker)
    (hexit : exitOf (early ++ late) = some 0)
    (hout : (written .stdout (early ++ late)).length ≤ maxOutputBytes)
    (herr : (written .stderr (early ++ late)).length ≤ maxOutputBytes) :
    Draining program (early ++ late) ((stolenLocals timeout early).noticing (some 0))
      ((stolen early).act late) := by
  have hearly : Early (stolenLocals timeout early) (stolen early) := (early_launched ht early).store
  have hstolen : Knows (stolenLocals timeout early) (stolen early) :=
    knows_stolen (program.closed hcan) hmark
  have hknows := hstolen.act (mayAct_stolen hcan)
  refine ⟨hknows.noticing _, hcan, rfl, hexit, hout, herr, ?_, hearly.settles 0, ?_, ?_, ?_, ?_⟩
  · exact ⟨rfl, (hearly.noticing _).owned, (hearly.noticing _).deadline,
      (hearly.noticing _).settling⟩
  · rw [noticing_status, stolenLocals, store_status, noticing_status]
    rfl
  · rw [noticing_fault, stolenLocals, store_fault, noticing_fault]
    rfl
  · rw [noticing_completion, stolenLocals, store_completion, if_pos rfl, noticing_completion]
    rfl
  · rw [noticing_registered, stolenLocals, store_registered, noticing_registered]
    show Stream.completion ∈ [Stream.stdout, .stderr, .completion]
    decide

/-- The loop can end well on a program that sends the marker and exits well. -/
theorem exists_watch_ok {early late : List Action} (ht : 0 < timeout)
    (hcan : program.can (early ++ late)) (hmark : written .completion early = completionMarker)
    (hexit : exitOf (early ++ late) = some 0)
    (hout : (written .stdout (early ++ late)).length ≤ maxOutputBytes)
    (herr : (written .stderr (early ++ late)).length ≤ maxOutputBytes) :
    EndsWell program (early ++ late) (Locals.start (0 + timeout))
      { World.start with launched := true } := by
  have hdraining := draining_stolen ht hcan hmark hexit hout herr
  have hregistered : (stolenLocals timeout early).registered = [.stdout, .stderr, .completion] := by
    rw [stolenLocals, store_registered, noticing_registered]
    rfl
  have hstatus : (stolenLocals timeout early).status = .ok := by
    rw [stolenLocals, store_status, noticing_status]
    rfl
  have hends := hdraining.endsWell (by rw [noticing_registered, hregistered])
  have hearly : Early (stolenLocals timeout early) (stolen early) := (early_launched ht early).store
  obtain ⟨rounds, l', w', hrun, hgood⟩ := hends
  have hopen : ((stolenLocals timeout early).noticing (some 0)).registered ≠ [] :=
    List.ne_nil_of_mem hdraining.registered
  have hlate : Run (sandbox program) (watch (rounds + 1) (stolenLocals timeout early))
      (stolen early) (.value l') w' := by
    refine hearly.advance [] (mayAct_stolen hcan) List.nodup_nil ?_ ?_ hcan ?_ hopen hrun
    · intro s hs
      cases hs
    · have hnoticed : exitOf ((stolen early).trace ++ late) = some 0 := hexit
      rw [hnoticed]
      exact ⟨rfl, rfl⟩
    · rw [hdraining.status]
      decide
  refine ⟨rounds + 2, l', w', ?_, hgood⟩
  have hstart : Early (Locals.start (0 + timeout)) { World.start with launched := true } := by
    refine ⟨rfl, rfl, ?_, .inl rfl⟩
    show 0 < 0 + timeout
    rw [zero_add]
    exact ht
  refine hstart.advance [.completion] (mayAct_launched (program.closed hcan))
    (by simp) ?_ ?_ (program.closed hcan) ?_ ?_ hlate
  · intro s hs
    rw [noticing_registered, List.mem_singleton.mp hs]
    show Stream.completion ∈ [Stream.stdout, .stderr, .completion]
    decide
  · exact run_bind_value.mpr ⟨_, _, run_drain_marker (program.closed hcan) hmark rfl, rfl, rfl⟩
  · rw [hstatus]
    decide
  · rw [hregistered]
    decide

/-- The driver calls a program good that sends the marker and exits well. -/
theorem exists_ok_run {early late : List Action} (ht : 0 < timeout)
    (hcan : program.can (early ++ late)) (hmark : written .completion early = completionMarker)
    (hexit : exitOf (early ++ late) = some 0)
    (hout : (written .stdout (early ++ late)).length ≤ maxOutputBytes)
    (herr : (written .stderr (early ++ late)).length ≤ maxOutputBytes) :
    ∃ rounds r w', Run (sandbox program) (runCandidate interp candidate reference timeout rounds)
      World.start (.value r) w' ∧ r.status = .ok ∧ w'.trace = early ++ late := by
  obtain ⟨rounds, l', w', hwatch, hok, hfault, hcompletion, htrace⟩ :=
    exists_watch_ok ht hcan hmark hexit hout herr
  have hsupervise : Run (sandbox program) (supervise timeout rounds)
      { World.start with launched := true } (.value l') w' := by
    refine run_quietly (c := .register) (.ok () : Except Exc Unit) program.start trivial ?_
    exact run_quietly (c := .monotonic) (0 : ℚ) program.start (le_refl (0 : ℚ)) hwatch
  have hawait : Run (sandbox program) (awaitExit l') w' (.value (some 0)) w' := by
    refine run_quietly (c := .poll) (some 0 : Option Int) (htrace ▸ hcan) (.inl ?_) ⟨rfl, rfl⟩
    rw [htrace, hexit]
  have hjudge : l'.judge (some 0) = l' := by
    unfold Locals.judge
    rw [if_neg (not_not_intro hok), if_neg (by decide), if_neg (not_not_intro hcompletion)]
  refine ⟨rounds, l'.result (some 0), w', ?_, hok, htrace⟩
  refine run_bind_value.mpr ⟨3, World.start, run_attempt_value.mpr ?_, ?_⟩
  · exact run_quietly (c := .pipe) (.ok 3 : Except Exc Nat) program.start trivial ⟨rfl, rfl⟩
  refine run_bind_value.mpr ⟨(), World.start, run_attempt_value.mpr ?_, ?_⟩
  · exact run_quietly (c := .writeHarness _) (.ok () : Except Exc Unit) program.start trivial
      ⟨rfl, rfl⟩
  refine run_quietly (c := .launch) (.ok () : Except Exc Unit) program.start trivial ?_
  refine run_bind_value.mpr ⟨l', w', hsupervise, ?_⟩
  rw [hfault]
  refine run_bind_value.mpr ⟨some 0, w', hawait, ?_⟩
  rw [hjudge]
  exact ⟨rfl, rfl⟩

end

/-! ## An honest candidate and a forger -/

/-- The program that does these things, one after the other. -/
def Program.of (trace : List Action) : Program :=
  ⟨fun done => done <+: trace, List.nil_prefix, fun h => (List.prefix_append _ _).trans h⟩

/-- Word characters are ASCII; nothing else is asked of the interpreter. -/
def asciiInterp : Interp where
  loads _ := .error ⟨"JSONDecodeError", [], false⟩
  loads_distinct h := by cases h
  sha256 _ := ⟨"0000000000000000000000000000000000000000000000000000000000000000", by decide⟩
  sourceHash := ⟨"0000000000000000000000000000000000000000000000000000000000000000", by decide⟩
  isWord c := (48 ≤ c && c ≤ 57) || (65 ≤ c && c ≤ 90) || c == 95 || (97 ≤ c && c ≤ 122)
  word_encodes := by
    intro c hc
    simp only [Bool.or_eq_true, Bool.and_eq_true, decide_eq_true_eq, beq_iff_eq] at hc
    simp only [isSurrogate, Bool.and_eq_false_iff, decide_eq_false_iff_not]
    omega
  floatText _ := []

def sampleReference : Value :=
  .dict [(str "entry_point", .str (str "f")), (str "test", .str (str "def check(f): assert f()"))]

end Sandbox
end FlashNext
