import FlashNext.Guard.Start

/-!
# The memory watchdog

The watch loop keeps one number, the samples in a row below the floor.  While the container
runs and nothing else ends the loop, it stops exactly where the list of the readings so far
says so: at an unknown reading, at one below half the floor, or at the fifth of five readings
in a row below the floor.
-/

namespace FlashNext
namespace Guard

open Effect Posix Text Checkpoint

/-! ## The world of a container that runs -/

/-- The inspection shows the expected container running. -/
def showsRunning (expect : Expect) (cid : String) (doc : Json) : Bool :=
  match verifyOwnership doc expect cid >>= fun doc => doc.get "State" with
  | .ok state =>
    match (orEmpty state).get "Running" with
    | .ok (.bool true) => true
    | _ => false
  | .error _ => false

/-- The container runs, no stop event is set, no deadline elapses, memory can be read and the
telemetry written. -/
def steady (args : Args) (expect : Expect) (cid : String) (start : Decimal) :
    (op : Op) → Ans op → Bool
  | .inspect .watch _, .ok doc => showsRunning expect cid doc
  | .inspect .watch _, .error _ => false
  | .eventIsSet, set => !set
  | .monotonic, now => args.maxWatchSeconds.all fun limit =>
    limit.mant = 0 || elapsedBelow now start limit
  | .memAvailable, .error _ => false
  | .writeTelemetry _, .error _ => false
  | .sleep, .error _ => false
  | _, _ => true

/-- `telemetry.jsonl`, line by line, once it is open. -/
def telemetryFile (log : Log) : Option (List Json) :=
  log.foldl (fun file e =>
    match e with
    | ⟨.openTelemetry, .ok ()⟩ => some []
    | ⟨.writeTelemetry line, .ok ()⟩ => file.map (· ++ [line])
    | _ => file) none

/-- What the memory reader returned since the telemetry was opened. -/
def readings (log : Log) : List Json :=
  log.foldl (fun taken e =>
    match e with
    | ⟨.openTelemetry, .ok ()⟩ => []
    | ⟨.memAvailable, .ok reading⟩ => taken ++ [reading]
    | _ => taken) []

/-- The telemetry line of a reading. -/
def telemetryLine (cid : String) (now : Decimal) (reading : Json) : Json :=
  .obj [("time", .float now), ("cid", .str cid),
    ("mem_available_kb", (knownMemory reading).elim .null .int)]

/-! ## When the readings ask for a stop -/

/-- Reading `j` is a number below the limit. -/
def BelowAt (limit : Int) (taken : List Json) (j : Nat) : Prop :=
  ∃ reading kb, taken[j]? = some reading ∧ knownMemory reading = some kb ∧ kb < limit

/-- Reading `i` is no nonnegative integer, or below half the floor, or the fifth in a row
below the floor. -/
def StopsAt (floor : Int) (taken : List Json) (i : Nat) : Prop :=
  (∃ reading, taken[i]? = some reading ∧ knownMemory reading = none) ∨
    BelowAt (floor / 2) taken i ∨
    (4 ≤ i ∧ ∀ j, i - 4 ≤ j → j ≤ i → BelowAt floor taken j)

section Readings

variable {floor limit : Int} {taken : List Json} {reading : Json} {i j low : Nat}

theorem belowAt_append (h : j < taken.length) :
    BelowAt limit (taken ++ [reading]) j ↔ BelowAt limit taken j := by
  rw [BelowAt, BelowAt, List.getElem?_append_left h]

theorem belowAt_last : BelowAt limit (taken ++ [reading]) taken.length ↔
    ∃ kb, knownMemory reading = some kb ∧ kb < limit := by
  simp only [BelowAt, List.getElem?_concat_length, Option.some.injEq]
  constructor
  · rintro ⟨r, kb, hr, hkb⟩
    exact ⟨kb, hr ▸ hkb⟩
  · rintro ⟨kb, hkb⟩
    exact ⟨reading, kb, rfl, hkb⟩

/-- Later readings do not change what an earlier one asked for. -/
theorem stopsAt_append (h : i < taken.length) :
    StopsAt floor (taken ++ [reading]) i ↔ StopsAt floor taken i := by
  have hrow : (∀ j, i - 4 ≤ j → j ≤ i → BelowAt floor (taken ++ [reading]) j) ↔
      ∀ j, i - 4 ≤ j → j ≤ i → BelowAt floor taken j := by
    refine forall_congr' fun j => imp_congr_right fun _ => imp_congr_right fun hj => ?_
    exact belowAt_append (by omega)
  rw [StopsAt, StopsAt, List.getElem?_append_left h, belowAt_append h, hrow]

theorem not_stopsAt_of_le (h : taken.length ≤ i) : ¬ StopsAt floor taken i := by
  have hnone : taken[i]? = none := List.getElem?_eq_none h
  have hbelow : ∀ limit, ¬ BelowAt limit taken i := by
    rintro limit ⟨r, kb, hr, _⟩
    rw [hnone] at hr
    cases hr
  intro hstop
  rcases hstop with ⟨r, hr, _⟩ | hhalf | ⟨_, hrow⟩
  · rw [hnone] at hr
    cases hr
  · exact hbelow _ hhalf
  · exact hbelow _ (hrow i (by omega) (by omega))

/-- `low` is the length of the run of readings below the floor that the list ends in. -/
structure LowRun (floor : Int) (taken : List Json) (low : Nat) : Prop where
  le : low ≤ taken.length
  below : ∀ j, taken.length - low ≤ j → j < taken.length → BelowAt floor taken j
  before : low < taken.length → ¬ BelowAt floor taken (taken.length - low - 1)

theorem lowRun_nil : LowRun floor [] 0 := by
  refine ⟨Nat.le_refl 0, ?_, ?_⟩
  · intro j _ hj
    exact absurd hj (Nat.not_lt_zero j)
  · intro h
    exact absurd h (Nat.lt_irrefl 0)

/-- The counter after one more reading. -/
def lowAfter (floor kb : Int) (low : Nat) : Nat := if kb < floor then low + 1 else 0

theorem LowRun.snoc {kb : Int} (h : LowRun floor taken low)
    (hkb : knownMemory reading = some kb) :
    LowRun floor (taken ++ [reading]) (lowAfter floor kb low) := by
  have hlen : (taken ++ [reading]).length = taken.length + 1 := by simp
  have hle := h.le
  have hlast : BelowAt floor (taken ++ [reading]) taken.length ↔ kb < floor := by
    rw [belowAt_last, hkb]
    simp
  unfold lowAfter
  by_cases hlow : kb < floor
  · rw [if_pos hlow]
    refine ⟨by omega, ?_, ?_⟩
    · intro j hj hj'
      by_cases hjl : j = taken.length
      · exact hjl ▸ hlast.mpr hlow
      · exact (belowAt_append (by omega)).mpr (h.below j (by omega) (by omega))
    · intro hlt
      have hidx : (taken ++ [reading]).length - (low + 1) - 1 = taken.length - low - 1 := by omega
      rw [hidx, belowAt_append (by omega)]
      exact h.before (by omega)
  · rw [if_neg hlow]
    refine ⟨by omega, ?_, ?_⟩
    · intro j hj hj'
      omega
    · intro _
      have hidx : (taken ++ [reading]).length - 0 - 1 = taken.length := by omega
      rw [hidx, hlast]
      exact hlow

/-- The counter reaches five exactly where five readings in a row are below the floor. -/
theorem LowRun.five_iff {kb : Int} (h : LowRun floor taken low) (hfive : low < 5)
    (hkb : knownMemory reading = some kb) :
    5 ≤ lowAfter floor kb low ↔ 4 ≤ taken.length ∧ ∀ j, taken.length - 4 ≤ j →
      j ≤ taken.length → BelowAt floor (taken ++ [reading]) j := by
  have hsnoc := h.snoc hkb
  have hle := hsnoc.le
  have hlen : (taken ++ [reading]).length = taken.length + 1 := by simp
  have hle' := h.le
  constructor
  · intro hge
    have hlow : lowAfter floor kb low = low + 1 := by
      unfold lowAfter at hge ⊢
      split
      · rfl
      · next hno => rw [if_neg hno] at hge; omega
    refine ⟨by omega, fun j hj hj' => hsnoc.below j (by omega) (by omega)⟩
  · rintro ⟨hfour, hrow⟩
    by_cases hge : 5 ≤ lowAfter floor kb low
    · exact hge
    · -- otherwise one of the five readings is not below the floor
      refine absurd (hrow ((taken ++ [reading]).length - lowAfter floor kb low - 1)
        (by omega) (by omega)) (hsnoc.before (by omega))

/-- The two tests of the loop say together whether the reading asks for a stop. -/
theorem LowRun.stopsAt_iff {kb : Int} (h : LowRun floor taken low) (hfive : low < 5)
    (hkb : knownMemory reading = some kb) :
    (kb < floor / 2 ∨ 5 ≤ lowAfter floor kb low) ↔
      StopsAt floor (taken ++ [reading]) taken.length := by
  have hhalf : BelowAt (floor / 2) (taken ++ [reading]) taken.length ↔ kb < floor / 2 := by
    rw [belowAt_last, hkb]
    simp
  rw [StopsAt, hhalf, h.five_iff hfive hkb]
  simp only [List.getElem?_concat_length, Option.some.injEq]
  constructor
  · intro hstop
    exact .inr hstop
  · intro hstop
    rcases hstop with ⟨r, hr, hunknown⟩ | hstop
    · rw [← hr, hkb] at hunknown
      cases hunknown
    · exact hstop

end Readings

/-! ## One round of the loop -/

section

variable {env : Env} {args : Args} {expect : Expect} {cid : String} {start : Decimal}
  {w w' : World} {o : Outcome Exn Unit}

/-- The calls of the steady world. -/
abbrev steadily (env : Env) (args : Args) (expect : Expect) (cid : String) (start : Decimal) :=
  semantics env fun op a => steady args expect cid start op a = true

@[simp] theorem telemetryFile_snoc (log : Log) (e : Event Op Ans) :
    telemetryFile (log ++ [e]) =
      match e with
      | ⟨.openTelemetry, .ok ()⟩ => some []
      | ⟨.writeTelemetry line, .ok ()⟩ => (telemetryFile log).map (· ++ [line])
      | _ => telemetryFile log := by
  simp only [telemetryFile, List.foldl_append, List.foldl_cons, List.foldl_nil]

@[simp] theorem readings_snoc (log : Log) (e : Event Op Ans) :
    readings (log ++ [e]) =
      match e with
      | ⟨.openTelemetry, .ok ()⟩ => []
      | ⟨.memAvailable, .ok reading⟩ => readings log ++ [reading]
      | _ => readings log := by
  simp only [readings, List.foldl_append, List.foldl_cons, List.foldl_nil]

/-- Every reading has its line. -/
def OneLineEach (cid : String) (log : Log) : Prop :=
  ∃ lines, telemetryFile log = some lines ∧
    List.Forall₂ (fun line reading => ∃ now, line = telemetryLine cid now reading) lines
      (readings log)

theorem showsRunning_ok {doc : Json} (h : showsRunning expect cid doc = true) :
    Owned doc expect cid ∧ ∃ state, doc.get "State" = .ok state ∧
      (orEmpty state).get "Running" = .ok (.bool true) := by
  unfold showsRunning at h
  split at h
  · next state hstate =>
    obtain ⟨doc', hverify, hfield⟩ := bind_ok.mp hstate
    obtain ⟨rfl, howned⟩ := verifyOwnership_ok.mp hverify
    split at h
    · next hrunning => exact ⟨howned, state, hfield, hrunning⟩
    · cases h
  · cases h

/-- In the steady world an inspection shows the container running and the round goes on. -/
theorem run_steady_inspect {k : Json → GuardM Unit} (h : Run (steadily env args expect cid start)
    (attempt (ask (.inspect .watch cid)) >>= k) w o w') :
    ∃ doc, showsRunning expect cid doc = true ∧ Run (steadily env args expect cid start) (k doc)
      ⟨w.log ++ [inspected .watch cid (.ok doc)], w.st⟩ o w' := by
  obtain ⟨r, hr, h⟩ := run_ask_bind (c := .inspect .watch cid)
    (k := fun r => Prog.ofExcept r >>= k) rfl h
  cases r with
  | error e => cases hr
  | ok doc => exact ⟨doc, hr, h⟩

theorem sampleMemory_steady {k : Option Int → GuardM Unit}
    (h : Run (steadily env args expect cid start) (sampleMemory cid >>= k) w o w') :
    ∃ reading now, Run (steadily env args expect cid start) (k (knownMemory reading))
      ⟨w.log ++ [⟨.memAvailable, .ok reading⟩] ++ [⟨.time, now⟩] ++
        [⟨.writeTelemetry (telemetryLine cid now reading), .ok ()⟩], w.st⟩ o w' := by
  obtain ⟨r, hr, h⟩ := run_ask_bind (c := .memAvailable) (k := fun r =>
    (Prog.ofExcept r >>= fun available => do
      let now ← ask .time
      attempt (ask (.writeTelemetry (telemetryLine cid now available)))
      return knownMemory available) >>= k) rfl h
  cases r with
  | error e => cases hr
  | ok reading =>
    obtain ⟨now, -, h⟩ := run_ask_bind (c := .time) (k := fun now =>
      (attempt (ask (.writeTelemetry (telemetryLine cid now reading))) >>= fun _ =>
        pure (knownMemory reading)) >>= k) rfl h
    obtain ⟨r, hr, h⟩ := run_ask_bind (c := .writeTelemetry (telemetryLine cid now reading))
      (k := fun r => (Prog.ofExcept r >>= fun _ => pure (knownMemory reading)) >>= k) rfl h
    cases r with
    | error e => cases hr
    | ok u => exact ⟨reading, now, h⟩

/-- Nothing was read and nothing written. -/
structure Idle (w v : World) : Prop where
  st : v.st = w.st
  readings : readings v.log = readings w.log
  telemetry : telemetryFile v.log = telemetryFile w.log

/-- No deadline elapses, and only the clock may be read. -/
theorem deadlinePassed_steady {k : Bool → GuardM Unit}
    (h : Run (steadily env args expect cid start) (deadlinePassed args start >>= k) w o w') :
    ∃ v, Idle w v ∧ Run (steadily env args expect cid start) (k false) v o w' := by
  unfold deadlinePassed at h
  cases hlimit : args.maxWatchSeconds with
  | none =>
    rw [hlimit] at h
    exact ⟨w, ⟨rfl, rfl, rfl⟩, h⟩
  | some limit =>
    rw [hlimit] at h
    dsimp only at h
    by_cases hzero : limit.mant = 0
    · rw [if_pos hzero] at h
      exact ⟨w, ⟨rfl, rfl, rfl⟩, h⟩
    · rw [if_neg hzero] at h
      obtain ⟨now, hnow, h⟩ := run_ask_bind (c := .monotonic)
        (k := fun now => k (!elapsedBelow now start limit)) rfl h
      have hbelow : elapsedBelow now start limit = true := by
        have hall : (args.maxWatchSeconds.all fun limit =>
          limit.mant = 0 || elapsedBelow now start limit) = true := hnow
        simpa [hlimit, hzero] using hall
      rw [hbelow] at h
      refine ⟨⟨w.log ++ [(⟨.monotonic, now⟩ : Event Op Ans)], w.st⟩, ⟨rfl, ?_, ?_⟩, h⟩
      · rw [readings_snoc]
      · rw [telemetryFile_snoc]

/-- The world after one sample. -/
def sampled (cid : String) (w : World) (doc reading : Json) (now : Decimal) : World :=
  ⟨w.log ++ [inspected .watch cid (.ok doc)] ++ [⟨.eventIsSet, false⟩] ++
    [⟨.memAvailable, .ok reading⟩] ++ [⟨.time, now⟩] ++
    [⟨.writeTelemetry (telemetryLine cid now reading), .ok ()⟩], w.st⟩

theorem readings_sampled (cid : String) (w : World) (doc reading : Json) (now : Decimal) :
    readings (sampled cid w doc reading now).log = readings w.log ++ [reading] := by
  simp only [sampled, readings_snoc]

theorem telemetryFile_sampled (doc reading : Json) (now : Decimal) {lines : List Json}
    (h : telemetryFile w.log = some lines) :
    telemetryFile (sampled cid w doc reading now).log =
      some (lines ++ [telemetryLine cid now reading]) := by
  simp only [sampled, telemetryFile_snoc, h, Option.map_some]

/-- One round: a reading is taken and its line written, and either the reading asks for a
stop or the loop goes on with the counter after it. -/
theorem watchLoop_round {rounds low : Nat}
    (h : Run (steadily env args expect cid start)
      (watchLoop args expect cid start (rounds + 1) low) w o w') :
    ∃ reading v, v.st = w.st ∧ readings v.log = readings w.log ++ [reading] ∧
      (∀ lines, telemetryFile w.log = some lines → ∃ now,
        telemetryFile v.log = some (lines ++ [telemetryLine cid now reading])) ∧
      ((knownMemory reading = none ∧ o = .value () ∧
          w' = ⟨v.log, { v.st with rc := exitWatchdog }⟩) ∨
        ∃ kb, knownMemory reading = some kb ∧
          let low := lowAfter (memFloorKb args.memAvailableFloorGib) kb low
          ((kb < memFloorKb args.memAvailableFloorGib / 2 ∨ 5 ≤ low) ∧ o = .value () ∧
              w' = ⟨v.log, { v.st with rc := exitWatchdog }⟩ ∨
            ¬ (kb < memFloorKb args.memAvailableFloorGib / 2 ∨ 5 ≤ low) ∧
              Run (steadily env args expect cid start)
                (watchLoop args expect cid start rounds low) v o w')) := by
  obtain ⟨doc, hdoc, h⟩ := run_steady_inspect h
  obtain ⟨howned, state, hstate, hrunning⟩ := showsRunning_ok hdoc
  rw [verifyOwnership_ok.mpr ⟨rfl, howned⟩] at h
  replace h : Run _ (Prog.ofExcept (doc.get "State") >>= _) _ o w' := h
  rw [hstate] at h
  replace h : Run _ (Prog.ofExcept ((orEmpty state).get "Running") >>= _) _ o w' := h
  rw [hrunning] at h
  obtain ⟨set, hset, h⟩ := run_ask_bind (c := .eventIsSet) rfl h
  have hclear : set = false := by simpa [steady] using hset
  subst hclear
  replace h : Run _ (sampleMemory cid >>= _) _ o w' := h
  obtain ⟨reading, now, h⟩ := sampleMemory_steady h
  replace h : Run _ _ (sampled cid w doc reading now) o w' := h
  have hread := readings_sampled cid w doc reading now
  have hwritten : ∀ lines, telemetryFile w.log = some lines → ∃ now',
      telemetryFile (sampled cid w doc reading now).log =
        some (lines ++ [telemetryLine cid now' reading]) :=
    fun lines hl => ⟨now, telemetryFile_sampled doc reading now hl⟩
  cases hknown : knownMemory reading with
  | none =>
    rw [hknown] at h
    exact ⟨reading, sampled cid w doc reading now, rfl, hread, hwritten,
        .inl ⟨hknown, run_assign h⟩⟩
  | some kb =>
    rw [hknown] at h
    dsimp only at h
    by_cases hstop : kb < memFloorKb args.memAvailableFloorGib / 2 ∨
        5 ≤ lowAfter (memFloorKb args.memAvailableFloorGib) kb low
    · rw [lowAfter] at hstop
      rw [if_pos hstop] at h
      exact ⟨reading, sampled cid w doc reading now, rfl, hread, hwritten,
        .inr ⟨kb, hknown, .inl ⟨hstop, run_assign h⟩⟩⟩
    · rw [lowAfter] at hstop
      rw [if_neg hstop] at h
      obtain ⟨v, hidle, h⟩ := deadlinePassed_steady h
      obtain ⟨r, hr, h⟩ := run_ask_bind (c := .sleep) (k := fun r => Prog.ofExcept r >>= fun _ =>
        watchLoop args expect cid start rounds
          (lowAfter (memFloorKb args.memAvailableFloorGib) kb low)) rfl h
      cases r with
      | error e => cases hr
      | ok u =>
        refine ⟨reading, ⟨v.log ++ [(⟨.sleep, .ok u⟩ : Event Op Ans)], v.st⟩, hidle.st, ?_, ?_,
          .inr ⟨kb, hknown, .inr ⟨hstop, h⟩⟩⟩
        · rw [readings_snoc]
          exact hidle.readings.trans hread
        · intro lines hl
          obtain ⟨now', hfile⟩ := hwritten lines hl
          refine ⟨now', ?_⟩
          rw [telemetryFile_snoc]
          exact hidle.telemetry.trans hfile

/-! ## The whole watch -/

/-- The loop has used its rounds and no reading asks for a stop, or it stopped with the
watchdog code at the first reading that does. -/
def Exact (floor : Int) (rounds : Nat) (taken : List Json) (o : Outcome Exn Unit) (rc : Nat) :
    Prop :=
  (o = .cut ∧ taken.length = rounds ∧ ∀ j, ¬ StopsAt floor taken j) ∨
    ∃ i, o = .value () ∧ rc = exitWatchdog ∧ taken.length = i + 1 ∧ StopsAt floor taken i ∧
      ∀ j < i, ¬ StopsAt floor taken j

theorem watchLoop_steady {rounds : Nat} :
    ∀ {low : Nat} {w : World} {o : Outcome Exn Unit}, low < 5 →
      LowRun (memFloorKb args.memAvailableFloorGib) (readings w.log) low →
      (∀ j, ¬ StopsAt (memFloorKb args.memAvailableFloorGib) (readings w.log) j) →
      OneLineEach cid w.log →
      Run (steadily env args expect cid start)
        (watchLoop args expect cid start rounds low) w o w' →
      OneLineEach cid w'.log ∧
        Exact (memFloorKb args.memAvailableFloorGib) ((readings w.log).length + rounds)
          (readings w'.log) o w'.st.rc := by
  induction rounds with
  | zero =>
    intro low w o hfive hlow hno hlines h
    obtain ⟨rfl, rfl⟩ := h
    exact ⟨hlines, .inl ⟨rfl, rfl, hno⟩⟩
  | succ rounds ih =>
    intro low w o hfive hlow hno hlines h
    obtain ⟨reading, v, hst, htaken, hline, h⟩ := watchLoop_round h
    have hlines' : OneLineEach cid v.log := by
      obtain ⟨lines, hfile, heach⟩ := hlines
      obtain ⟨now, hfile'⟩ := hline lines hfile
      refine ⟨_, hfile', ?_⟩
      rw [htaken]
      exact List.rel_append heach (.cons ⟨now, rfl⟩ .nil)
    have hlen : (readings v.log).length = (readings w.log).length + 1 := by
      rw [htaken, List.length_append, List.length_singleton]
    have hearlier : ∀ j < (readings w.log).length,
        ¬ StopsAt (memFloorKb args.memAvailableFloorGib) (readings v.log) j := by
      intro j hj
      rw [htaken, stopsAt_append hj]
      exact hno j
    have hstops : StopsAt (memFloorKb args.memAvailableFloorGib) (readings v.log)
        (readings w.log).length → o = .value () →
        w' = ⟨v.log, { v.st with rc := exitWatchdog }⟩ →
        OneLineEach cid w'.log ∧
          Exact (memFloorKb args.memAvailableFloorGib) ((readings w.log).length + (rounds + 1))
            (readings w'.log) o w'.st.rc := by
      intro hstop ho hw
      subst hw
      exact ⟨hlines', .inr ⟨(readings w.log).length, ho, rfl, hlen, hstop, hearlier⟩⟩
    rcases h with ⟨hunknown, ho, hw⟩ | ⟨kb, hkb, ⟨hstop, ho, hw⟩ | ⟨hgo, h⟩⟩
    · refine hstops (.inl ⟨reading, ?_, hunknown⟩) ho hw
      rw [htaken, List.getElem?_concat_length]
    · refine hstops ?_ ho hw
      rw [htaken]
      exact (hlow.stopsAt_iff hfive hkb).mp hstop
    · -- the reading asks for nothing, so neither does any reading so far
      have hno' : ∀ j, ¬ StopsAt (memFloorKb args.memAvailableFloorGib) (readings v.log) j := by
        intro j
        by_cases hj : j < (readings w.log).length
        · exact hearlier j hj
        · by_cases hj' : j = (readings w.log).length
          · rw [hj', htaken, ← hlow.stopsAt_iff hfive hkb]
            exact hgo
          · exact not_stopsAt_of_le (by omega)
      have hlow' := hlow.snoc hkb
      rw [← htaken] at hlow'
      obtain ⟨hfile, hexact⟩ := ih (by omega) hlow' hno' hlines' h
      refine ⟨hfile, ?_⟩
      have hrounds : (readings v.log).length + rounds = (readings w.log).length + (rounds + 1) := by
        omega
      exact hrounds ▸ hexact

/-- Watched from the opening of the telemetry on, a running container is stopped with the
watchdog code at the first reading that asks for it and at no other, and the telemetry then
holds one line for each reading. -/
theorem watchLoop_exact {rounds : Nat} {log : Log}
    (hopen : w.log = log ++ [⟨.openTelemetry, .ok ()⟩])
    (h : Run (semantics env fun op a => steady args expect cid start op a = true)
      (watchLoop args expect cid start rounds 0) w o w') :
    OneLineEach cid w'.log ∧
      Exact (memFloorKb args.memAvailableFloorGib) rounds (readings w'.log) o w'.st.rc := by
  have htaken : readings w.log = [] := by
    rw [hopen, readings_snoc]
  have hfile : telemetryFile w.log = some [] := by
    rw [hopen, telemetryFile_snoc]
  have hlow : LowRun (memFloorKb args.memAvailableFloorGib) (readings w.log) 0 := by
    rw [htaken]
    exact lowRun_nil
  have hno : ∀ j, ¬ StopsAt (memFloorKb args.memAvailableFloorGib) (readings w.log) j := by
    intro j
    rw [htaken]
    exact not_stopsAt_of_le (Nat.zero_le j)
  have hlines : OneLineEach cid w.log := by
    refine ⟨[], hfile, ?_⟩
    rw [htaken]
    exact .nil
  obtain ⟨heach, hexact⟩ := watchLoop_steady (by omega) hlow hno hlines h
  rw [htaken, List.length_nil, Nat.zero_add] at hexact
  exact ⟨heach, hexact⟩

end

/-! ## A watch that stops -/

/-- The readings of the watched container, in GiB: the row of low readings is broken once. -/
def sampleReadings : List Json := [7, 7, 7, 7, 16, 7, 7, 7, 7, 7].map fun gib => .int (gib * 2 ^ 20)

def watchedArgs : Args := { launchArgs with memAvailableFloorGib := ⟨8, 0⟩ }

/-- Every round makes six calls, the third of which reads the memory. -/
def watchedInput (n : Nat) (op : Op) : In op :=
  match op with
  | .memAvailable => (.ok (sampleReadings.getD (n / 6) .null) : Except Exn Json)
  | .inspect _ _ => (.ok (containerDoc true 0) : Except Exn Json)
  | .eventIsSet => false
  | op => launchInput op

def watchedWorld : World :=
  ⟨[] ++ [⟨.openTelemetry, .ok ()⟩], ⟨exitWatchdog, some launchCid, [], true⟩⟩

def watchedExpect : Expect :=
  ⟨launchNonce, launchImage, ⟨launchProfileSha256, launchProfileSha256_isHex⟩⟩

instance (args : Args) (expect : Expect) (cid : String) (start : Decimal) (op : Op)
    (i : (steadily launchEnv args expect cid start).In op) (w : World) :
    Decidable ((steadily launchEnv args expect cid start).allowed op i w) :=
  inferInstanceAs (Decidable (steady args expect cid start op (answer launchEnv op i w.st) = true))

theorem watched_stops : ((exec (steadily launchEnv watchedArgs watchedExpect launchCid ⟨0, 0⟩)
    watchedInput (watchLoop watchedArgs watchedExpect launchCid ⟨0, 0⟩ 20 0) 0 watchedWorld).map
      fun r => (r.1, readings r.2.log)) = some (.value (), sampleReadings) := by
  decide +kernel

theorem watchLoop_exact_sample :
    ∃ w', Run (steadily launchEnv watchedArgs watchedExpect launchCid ⟨0, 0⟩)
        (watchLoop watchedArgs watchedExpect launchCid ⟨0, 0⟩ 20 0) watchedWorld (.value ()) w' ∧
      readings w'.log = sampleReadings ∧ OneLineEach launchCid w'.log ∧
      Exact (memFloorKb watchedArgs.memAvailableFloorGib) 20 (readings w'.log) (.value ())
        w'.st.rc := by
  obtain ⟨⟨o, w'⟩, hexec, heq⟩ := Option.map_eq_some_iff.mp watched_stops
  rw [Prod.mk.injEq] at heq
  obtain ⟨rfl, hreadings⟩ := heq
  have hrun := run_of_exec hexec
  have hopen : watchedWorld.log = [] ++ [⟨.openTelemetry, .ok ()⟩] := rfl
  exact ⟨w', hrun, hreadings, watchLoop_exact hopen hrun⟩

end Guard
end FlashNext
