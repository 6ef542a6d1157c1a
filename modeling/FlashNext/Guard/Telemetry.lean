import FlashNext.Guard.MemVerdict
import FlashNext.Guard.Watchdog

/-!
# The telemetry and its verdict

What the watch loop leaves in `telemetry.jsonl` is one line for each reading that was written, with
the beginning of one more line where a write failed in the middle of it.  An unknown reading is
written as `null`, which the verdict divides.
-/

namespace FlashNext
namespace Guard

open Effect Posix Text Checkpoint
open Compare (Double)
open Num (toDouble overflows)

/-! ## What the loop leaves -/

/-- What a failed write leaves of its line. -/
inductive Left where
  | nothing
  | part
  | whole
  deriving DecidableEq

/-- The telemetry file, the readings its lines were written for, the last reading that has no line
yet, and whether a write was cut short. -/
structure Telemetry where
  lines : List Line
  kept : List Json
  pending : Option Json
  cut : Bool

def Telemetry.add (t : Telemetry) (line : Json) : Telemetry :=
  { t with lines := t.lines ++ [.whole line], kept := t.kept ++ t.pending.toList, pending := none }

def Telemetry.after (left : Left) (t : Telemetry) (e : Event Op Ans) : Telemetry :=
  match e with
  | ⟨.openTelemetry, .ok ()⟩ => ⟨[], [], none, false⟩
  | ⟨.memAvailable, .ok reading⟩ => { t with pending := some reading }
  | ⟨.writeTelemetry line, .ok ()⟩ => t.add line
  | ⟨.writeTelemetry line, .error _⟩ =>
    match left with
    | .nothing => t
    | .part => { t with lines := t.lines ++ [.torn], cut := true }
    | .whole => t.add line
  | _ => t

/-- The telemetry after the calls of a log. -/
def telemetry (left : Left) (log : Log) : Telemetry :=
  log.foldl (Telemetry.after left) ⟨[], [], none, false⟩

@[simp] theorem telemetry_snoc (left : Left) (log : Log) (e : Event Op Ans) :
    telemetry left (log ++ [e]) = (telemetry left log).after left e := by
  simp only [telemetry, List.foldl_append, List.foldl_cons, List.foldl_nil]

/-- The line is a reading's. -/
def IsLine (cid : String) (line : Line) (reading : Json) : Prop :=
  ∃ now, line = .whole (telemetryLine cid now reading)

/-- The complete lines are those of the readings kept. -/
structure Faithful (cid : String) (t : Telemetry) : Prop where
  lines : ∃ whole, List.Forall₂ (IsLine cid) whole t.kept ∧
    t.lines = if t.cut then whole ++ [.torn] else whole

/-- A loop that goes on has left no line cut short. -/
structure Going (cid : String) (t : Telemetry) : Prop where
  faithful : Faithful cid t
  complete : t.cut = false

theorem Faithful.pending {cid : String} {t : Telemetry} (h : Faithful cid t) (p : Option Json) :
    Faithful cid { t with pending := p } :=
  ⟨h.lines⟩

theorem Going.add {cid : String} {t : Telemetry} {now : Decimal} {reading : Json}
    (h : Going cid t) (hpending : t.pending = some reading) :
    Going cid (t.add (telemetryLine cid now reading)) := by
  obtain ⟨whole, hall, hlines⟩ := h.faithful.lines
  rw [h.complete] at hlines
  refine ⟨⟨whole ++ [.whole (telemetryLine cid now reading)], ?_, ?_⟩, h.complete⟩
  · show List.Forall₂ (IsLine cid) _ (t.kept ++ t.pending.toList)
    rw [hpending]
    exact List.rel_append hall (.cons ⟨now, rfl⟩ .nil)
  · show t.lines ++ [_] = if t.cut then _ else _
    rw [h.complete, hlines]
    rfl

/-- A failed write leaves the lines before it as they are. -/
theorem Going.failed {cid : String} {t : Telemetry} {now : Decimal} {reading : Json} {e : Exn}
    (h : Going cid t) (hpending : t.pending = some reading) (left : Left) :
    Faithful cid (t.after left ⟨.writeTelemetry (telemetryLine cid now reading), .error e⟩) := by
  cases left with
  | nothing => exact h.faithful
  | whole => exact (h.add hpending).faithful
  | part =>
    obtain ⟨whole, hall, hlines⟩ := h.faithful.lines
    rw [h.complete] at hlines
    refine ⟨whole, hall, ?_⟩
    show t.lines ++ [.torn] = whole ++ [.torn]
    rw [hlines]
    rfl

/-! ## The runs of the loop -/

section

variable {env : Env} {ok : (op : Op) → Ans op → Prop} {args : Args} {expect : Expect}
  {cid : String} {start : Decimal} {left : Left} {w w' : World}

/-- The calls that have nothing to do with the telemetry. -/
def Untold : Op → Prop
  | .openTelemetry => False
  | .writeTelemetry _ => False
  | .memAvailable => False
  | _ => True

theorem after_untold {op : Op} (h : Untold op) (t : Telemetry) (a : Ans op) :
    t.after left ⟨op, a⟩ = t := by
  cases op <;> first | rfl | exact h.elim

/-- They leave the telemetry as it is. -/
theorem telemetry_of_untold {α : Type} {p : GuardM α} (hp : p.Calls Untold) {o : Outcome Exn α}
    (h : Run (semantics env ok) p w o w') : telemetry left w'.log = telemetry left w.log := by
  refine Run.rel_of_calls (P := Untold)
    (R := fun u v : World => telemetry left v.log = telemetry left u.log) (fun _ => rfl)
    (fun huv hvw => hvw.trans huv) ?_ hp h
  intro op i u hop _
  show telemetry left (if quiet op then u.log else u.log ++ [⟨op, _⟩]) = _
  cases quiet op with
  | true => rfl
  | false => exact (telemetry_snoc left _ _).trans (after_untold hop _ _)

/-- A loop that first does something else. -/
theorem faithful_bind {α : Type} {p : GuardM α} {f : α → GuardM Unit} (hp : p.Calls Untold)
    {o : Outcome Exn Unit} (hw : Going cid (telemetry left w.log))
    (hf : ∀ a v, Going cid (telemetry left v.log) → Run (semantics env ok) (f a) v o w' →
      Faithful cid (telemetry left w'.log))
    (h : Run (semantics env ok) (p >>= f) w o w') : Faithful cid (telemetry left w'.log) := by
  cases run_bind_or h with
  | inl hvalue =>
    obtain ⟨a, v, hv, hrest⟩ := hvalue
    exact hf a v ((telemetry_of_untold hp hv).symm ▸ hw) hrest
  | inr hno =>
    obtain ⟨-, o', -, hv⟩ := hno
    exact (telemetry_of_untold hp hv).symm ▸ hw.faithful

theorem faithful_of_untold {α : Type} {p : GuardM α} (hp : p.Calls Untold) {o : Outcome Exn α}
    (hw : Going cid (telemetry left w.log)) (h : Run (semantics env ok) p w o w') :
    Faithful cid (telemetry left w'.log) :=
  (telemetry_of_untold hp h).symm ▸ hw.faithful

/-- A sample is written whole before the loop goes on. -/
theorem faithful_sample {f : Option Int → GuardM Unit} {o : Outcome Exn Unit}
    (hw : Going cid (telemetry left w.log))
    (hf : ∀ a v, Going cid (telemetry left v.log) → Run (semantics env ok) (f a) v o w' →
      Faithful cid (telemetry left w'.log))
    (h : Run (semantics env ok) (sampleMemory cid >>= f) w o w') :
    Faithful cid (telemetry left w'.log) := by
  obtain ⟨r, -, h⟩ := run_ask_bind (c := .memAvailable) (k := fun r =>
    (Prog.ofExcept r >>= fun available => do
      let now ← ask .time
      attempt (ask (.writeTelemetry (telemetryLine cid now available)))
      return knownMemory available) >>= f) rfl h
  cases r with
  | error e =>
    obtain ⟨-, rfl⟩ := h
    show Faithful cid (telemetry left (w.log ++ [_]))
    rw [telemetry_snoc]
    exact hw.faithful
  | ok reading =>
    obtain ⟨now, -, h⟩ := run_ask_bind (c := .time) (k := fun now =>
      (attempt (ask (.writeTelemetry (telemetryLine cid now reading))) >>= fun _ =>
        pure (knownMemory reading)) >>= f) rfl h
    obtain ⟨r, -, h⟩ := run_ask_bind (c := .writeTelemetry (telemetryLine cid now reading))
      (k := fun r => (Prog.ofExcept r >>= fun _ => pure (knownMemory reading)) >>= f) rfl h
    have hread : Going cid { telemetry left w.log with pending := some reading } :=
      ⟨hw.faithful.pending _, hw.complete⟩
    cases r with
    | error e =>
      obtain ⟨-, rfl⟩ := h
      show Faithful cid (telemetry left (w.log ++ [_] ++ [_] ++ [_]))
      rw [telemetry_snoc, telemetry_snoc, telemetry_snoc]
      exact hread.failed rfl left
    | ok u =>
      refine hf (knownMemory reading) _ ?_ h
      show Going cid (telemetry left (w.log ++ [_] ++ [_] ++ [_]))
      rw [telemetry_snoc, telemetry_snoc, telemetry_snoc]
      exact hread.add rfl

theorem untold_setRc (rc : Nat) : (setRc rc).Calls Untold := calls_setRc (fun _ _ => trivial) rc

theorem observeExit_untold {current : Json} : (observeExit current).Calls Untold :=
  (Prog.Calls.ofExcept _).bind fun _ => (Prog.Calls.ofExcept _).bind fun _ =>
    Prog.Calls.ite (untold_setRc _) ((Prog.Calls.ofExcept _).bind fun _ => untold_setRc _)

theorem deadlinePassed_untold : (deadlinePassed args start).Calls Untold := by
  unfold deadlinePassed
  split
  · exact calls_ret
  · exact Prog.Calls.ite calls_ret ((calls_ask trivial).bind fun _ => calls_ret)

/-- Every run of the loop leaves a telemetry of complete lines, the last of which may be cut. -/
theorem watchLoop_faithful {rounds : Nat} :
    ∀ {low : Nat} {w : World} {o : Outcome Exn Unit}, Going cid (telemetry left w.log) →
      Run (semantics env ok) (watchLoop args expect cid start rounds low) w o w' →
      Faithful cid (telemetry left w'.log) := by
  induction rounds with
  | zero =>
    intro low w o hw h
    obtain ⟨-, rfl⟩ := h
    exact hw.faithful
  | succ rounds ih =>
    intro low w o hw h
    have hinspect : (attempt (ask (.inspect .watch cid))).Calls Untold :=
      calls_attempt (calls_ask trivial)
    refine faithful_bind hinspect hw (fun doc v hw h => ?_) h
    refine faithful_bind (Prog.Calls.ofExcept _) hw (fun doc v hw h => ?_) h
    refine faithful_bind (Prog.Calls.ofExcept _) hw (fun state v hw h => ?_) h
    refine faithful_bind (Prog.Calls.ofExcept _) hw (fun running v hw h => ?_) h
    by_cases hstopped : running = .bool false
    · rw [if_pos hstopped] at h
      exact faithful_of_untold observeExit_untold hw h
    rw [if_neg hstopped] at h
    refine faithful_bind (Prog.Calls.require _ _) hw (fun _ v hw h => ?_) h
    refine faithful_bind (calls_ask trivial : (ask .eventIsSet).Calls Untold) hw
      (fun stop v hw h => ?_) h
    by_cases hstop : stop = true
    · rw [if_pos hstop] at h
      exact faithful_of_untold (setInterrupted_calls trivial fun _ _ => trivial) hw h
    rw [if_neg hstop] at h
    refine faithful_sample hw (fun sample v hw h => ?_) h
    cases sample with
    | none => exact faithful_of_untold (untold_setRc _) hw h
    | some available =>
      dsimp only at h
      generalize (if available < memFloorKb args.memAvailableFloorGib then low + 1 else 0) = low'
        at h
      split at h
      · exact faithful_of_untold (untold_setRc _) hw h
      refine faithful_bind deadlinePassed_untold hw (fun late v hw h => ?_) h
      split at h
      · exact faithful_of_untold (untold_setRc _) hw h
      have hsleep : (attempt (ask .sleep)).Calls Untold := calls_attempt (calls_ask trivial)
      exact faithful_bind hsleep hw (fun _ v hw h => ih hw h) h

end

/-! ## The agreement -/

section

variable {allowed : Double} {rowsDone : Int} {cid : String}

theorem knownMemory_nonneg {reading : Json} {kb : Int} (h : knownMemory reading = some kb) :
    0 ≤ kb := by
  unfold knownMemory at h
  simpa using (Option.filter_eq_some_iff.mp h).2

/-- The line of a reading has a value in GiB just where the reading is known and in range. -/
theorem lineGib_line {line : Line} {reading : Json} (h : IsLine cid line reading) {x : Double} :
    lineGib line = .ok x ↔ ∃ kb, knownMemory reading = some kb ∧ overflows (kb / 2 ^ 20) = false ∧
      x = asGib kb := by
  obtain ⟨now, rfl⟩ := h
  have hlookup : Json.lookup [("time", .float now), ("cid", .str cid),
      ("mem_available_kb", (knownMemory reading).elim .null .int)] "mem_available_kb" =
        some ((knownMemory reading).elim .null .int) := by
    rw [Json.lookup_cons, if_neg (by decide), Json.lookup_cons, if_neg (by decide),
      Json.lookup_cons, if_pos rfl]
  have hline : lineGib (.whole (telemetryLine cid now reading)) =
      orRaise (Json.lookup [("time", .float now), ("cid", .str cid),
        ("mem_available_kb", (knownMemory reading).elim .null .int)] "mem_available_kb") .key >>=
          gib := rfl
  rw [hline, hlookup]
  show gib _ = .ok x ↔ _
  cases hknown : knownMemory reading with
  | none =>
    constructor
    · intro hgib
      cases hgib
    · intro hsome
      obtain ⟨kb, hkb, -⟩ := hsome
      cases hkb
  | some kb =>
    show intGib kb = .ok x ↔ _
    rw [intGib_ok]
    constructor
    · intro hgib
      exact ⟨kb, rfl, hgib⟩
    · intro hsome
      obtain ⟨kb', hkb, hgib⟩ := hsome
      obtain rfl := Option.some.inj hkb
      exact hgib

/-- The readings are these numbers of kB, each a double in GiB. -/
def AreKb (readings : List Json) (kbs : List Int) : Prop :=
  List.Forall₂ (fun reading kb => knownMemory reading = some kb ∧
    overflows (kb / 2 ^ 20) = false) readings kbs

theorem exists_areKb {readings : List Json} (h : ∀ reading ∈ readings, ∃ kb,
    knownMemory reading = some kb ∧ overflows (kb / 2 ^ 20) = false) :
    ∃ kbs, AreKb readings kbs := by
  induction readings with
  | nil => exact ⟨[], .nil⟩
  | cons reading readings ih =>
    obtain ⟨kb, hkb⟩ := h reading (by simp)
    obtain ⟨kbs, hkbs⟩ := ih fun other hother => h other (by simp [hother])
    exact ⟨kb :: kbs, .cons hkb hkbs⟩

theorem mapM_lineGib {lines : List Line} {readings : List Json}
    (hlines : List.Forall₂ (IsLine cid) lines readings) {vals : List Double} :
    lines.mapM lineGib = .ok vals ↔ ∃ kbs, AreKb readings kbs ∧ vals = kbs.map asGib := by
  rw [mapM_ok]
  induction hlines generalizing vals with
  | nil =>
    constructor
    · intro hvals
      cases hvals
      exact ⟨[], .nil, rfl⟩
    · intro hkbs
      obtain ⟨kbs, hkbs, rfl⟩ := hkbs
      cases hkbs
      exact .nil
  | cons hline _ ih =>
    constructor
    · intro hvals
      cases hvals with
      | cons hx hrest =>
        obtain ⟨kb, hknown, hrange, rfl⟩ := (lineGib_line hline).mp hx
        obtain ⟨kbs, hkbs, rfl⟩ := ih.mp hrest
        exact ⟨kb :: kbs, .cons ⟨hknown, hrange⟩ hkbs, rfl⟩
    · intro hkbs
      obtain ⟨kbs, hkbs, rfl⟩ := hkbs
      cases hkbs with
      | cons hkb hrest =>
        exact .cons ((lineGib_line hline).mpr ⟨_, hkb.1, hkb.2, rfl⟩) (ih.mpr ⟨_, hrest, rfl⟩)

theorem fallsBelow_iff {below : Int → Int → ℚ} {readings : List Json} {kbs rest : List Int}
    {first : Int} (h : AreKb readings kbs) (hdrop : kbs.drop (warmup kbs.length) = first :: rest) :
    FallsBelow below allowed readings ↔
      ∃ kb ∈ first :: rest, Exceeds allowed (below first kb) := by
  have hpost : AreKb (postWarmup readings) (first :: rest) := by
    rw [← hdrop, postWarmup, h.length_eq]
    exact List.forall₂_drop _ h
  unfold FallsBelow
  generalize postWarmup readings = post at hpost
  have hall := hpost
  cases hpost with
  | cons hfirst _ =>
    rw [List.head?_cons, Option.bind_some, hfirst.1]
    constructor
    · intro hfalls
      obtain ⟨first', reading, kb, hsame, hmem, hknown, hexceeds⟩ := hfalls
      obtain rfl := Option.some.inj hsame
      obtain ⟨kb', hkb', hboth⟩ := forall₂_exists_right hall reading hmem
      rw [hknown, Option.some.injEq] at hboth
      exact ⟨kb', hkb', hboth.1 ▸ hexceeds⟩
    · intro hfalls
      obtain ⟨kb, hkb, hexceeds⟩ := hfalls
      obtain ⟨reading, hmem, hknown⟩ := forall₂_exists_left hall kb hkb
      exact ⟨first, reading, kb, rfl, hmem, hknown.1, hexceeds⟩

theorem not_exceeds_nan {q : ℚ} : ¬ Exceeds (.nonfinite .nan) q := id

/-- The verdict on lines of readings that are all known. -/
theorem agrees_iff_of_areKb {lines : List Line} {readings : List Json} {kbs : List Int}
    (hlines : List.Forall₂ (IsLine cid) lines readings) (hkbs : AreKb readings kbs) :
    Agrees allowed rowsDone lines readings ↔ (60 ≤ readings.length →
      allowed ≠ .nonfinite .nan ∧
        (FallsBelow roundedDecline allowed readings ↔ FallsBelow decline allowed readings)) := by
  have hmap : memVerdict allowed rowsDone lines = judge allowed rowsDone (kbs.map asGib) := by
    rw [memVerdict, (mapM_lineGib hlines).mpr ⟨kbs, hkbs, rfl⟩]
    rfl
  have hlen : readings.length = kbs.length := hkbs.length_eq
  unfold Agrees
  rw [hmap]
  by_cases hsamples : 60 ≤ readings.length
  · have hrange : ∀ kb ∈ kbs, 0 ≤ kb ∧ overflows (kb / 2 ^ 20) = false := by
      intro kb hkb
      obtain ⟨reading, -, hknown⟩ := forall₂_exists_left hkbs kb hkb
      exact ⟨knownMemory_nonneg hknown.1, hknown.2⟩
    have hlast : warmup kbs.length < kbs.length := by
      unfold warmup
      omega
    have hleft : 0 < (kbs.drop (warmup kbs.length)).length := by
      rw [List.length_drop]
      omega
    obtain ⟨first, rest, hdrop⟩ := List.exists_cons_of_length_pos hleft
    obtain ⟨verdict, hjudge, hpass⟩ :=
      judge_asGib allowed rowsDone (hlen ▸ hsamples) hdrop hrange
    rw [← fallsBelow_iff hkbs hdrop] at hpass
    rw [hjudge]
    simp only [Except.ok.injEq, exists_eq_left', hsamples, forall_const, hpass]
    by_cases hnan : allowed = .nonfinite .nan
    · subst hnan
      have hexact : ¬ FallsBelow decline (.nonfinite .nan) readings := by
        rw [fallsBelow_iff hkbs hdrop]
        intro hfalls
        obtain ⟨kb, -, hexceeds⟩ := hfalls
        exact not_exceeds_nan hexceeds
      simp [hexact]
    · simp only [ne_eq, hnan, not_false_eq_true, true_and]
      exact not_iff_not
  · have hfew : (kbs.map asGib).length < 60 := by
      rw [List.length_map]
      omega
    have hjudge : judge allowed rowsDone (kbs.map asGib) =
        .ok (.insufficientSamples (kbs.map asGib).length) := by
      rw [judge, if_pos hfew]
    rw [hjudge]
    simp [hsamples]

/-- A telemetry of the loop has the verdict that is wanted just where it is judgeable. -/
theorem agrees_iff_judgeable (allowed : Double) (rowsDone : Int) {t : Telemetry} (h : Faithful cid t) :
    Agrees allowed rowsDone t.lines t.kept ↔ Judgeable allowed t.cut t.kept := by
  obtain ⟨whole, hwhole, hlines⟩ := h.lines
  by_cases hcut : t.cut = true
  · rw [if_pos hcut] at hlines
    rw [hlines]
    constructor
    · intro hagrees
      obtain ⟨verdict, hverdict, -⟩ := hagrees
      obtain ⟨vals, hvals, -⟩ := bind_ok.mp hverdict
      obtain ⟨x, -, hx⟩ := forall₂_exists_right (mapM_ok.mp hvals) .torn (by simp)
      cases hx
    · intro hjudgeable
      have hcomplete := hjudgeable.complete
      rw [hcut] at hcomplete
      cases hcomplete
  · rw [if_neg hcut] at hlines
    rw [hlines]
    constructor
    · intro hagrees
      obtain ⟨verdict, hverdict, -⟩ := id hagrees
      obtain ⟨vals, hvals, -⟩ := bind_ok.mp hverdict
      obtain ⟨kbs, hkbs, -⟩ := (mapM_lineGib hwhole).mp hvals
      have hall := (agrees_iff_of_areKb hwhole hkbs).mp hagrees
      refine ⟨by simpa using hcut, ?_, fun hsamples => (hall hsamples).1,
        fun hsamples => (hall hsamples).2⟩
      intro reading hreading
      obtain ⟨kb, -, hkb⟩ := forall₂_exists_right hkbs reading hreading
      exact ⟨kb, hkb⟩
    · intro hjudgeable
      obtain ⟨kbs, hkbs⟩ := exists_areKb hjudgeable.known
      exact (agrees_iff_of_areKb hwhole hkbs).mpr fun hsamples =>
        ⟨hjudgeable.number hsamples, hjudgeable.rounding hsamples⟩

/-- Readings below `2 ^ 53` kB are doubles in GiB, and so are their differences. -/
theorem roundedDecline_of_small {first kb : Int} (hfirst : 0 ≤ first ∧ first < 2 ^ 53)
    (hkb : 0 ≤ kb ∧ kb < 2 ^ 53) : roundedDecline first kb = decline first kb := by
  have hexact : ∀ n : Int, |n| < 2 ^ 53 → toDouble (n / 2 ^ 20) = n / 2 ^ 20 := by
    intro n hn
    have hbits := Num.toDouble_of_bits (k := -20) hn (by norm_num)
    have hpow : (n : ℚ) * 2 ^ (-20 : Int) = n / 2 ^ 20 := by
      rw [zpow_neg, div_eq_mul_inv]
      rfl
    rwa [hpow] at hbits
  have hdiff := hexact (first - kb) (by rw [abs_lt]; omega)
  rw [roundedDecline, decline, hexact first (by rw [abs_lt]; omega),
    hexact kb (by rw [abs_lt]; omega), ← sub_div]
  rw [← Int.cast_sub]
  exact hdiff

theorem gib_of_small {kb : Int} (h : 0 ≤ kb ∧ kb < 2 ^ 53) : overflows (kb / 2 ^ 20) = false := by
  have hpos : (0 : ℚ) ≤ kb := by exact_mod_cast h.1
  have hlt : (kb : ℚ) < 2 ^ 53 := by exact_mod_cast h.2
  refine Num.not_overflows_of_le (by positivity) ?_
  have hunit := Num.one_le_halfGap
  rw [Num.largest_eq, div_le_iff₀ (by positivity)]
  nlinarith

theorem judgeable_iff_of_small {cut : Bool} {readings : List Json}
    (hsmall : ∀ reading ∈ readings, ∀ kb, knownMemory reading = some kb → kb < 2 ^ 53) :
    Judgeable allowed cut readings ↔ cut = false ∧
      (∀ reading ∈ readings, knownMemory reading ≠ none) ∧
      (60 ≤ readings.length → allowed ≠ .nonfinite .nan) := by
  have hbounds : ∀ reading ∈ readings, ∀ kb, knownMemory reading = some kb →
      0 ≤ kb ∧ kb < 2 ^ 53 := fun reading hreading kb hkb =>
    ⟨knownMemory_nonneg hkb, hsmall reading hreading kb hkb⟩
  constructor
  · intro h
    refine ⟨h.complete, ?_, h.number⟩
    intro reading hreading hnone
    obtain ⟨kb, hkb, -⟩ := h.known reading hreading
    rw [hnone] at hkb
    cases hkb
  · intro h
    obtain ⟨hcut, hknown, hnumber⟩ := h
    refine ⟨hcut, ?_, hnumber, fun _ => ?_⟩
    · intro reading hreading
      obtain ⟨kb, hkb⟩ := Option.ne_none_iff_exists'.mp (hknown reading hreading)
      exact ⟨kb, hkb, gib_of_small (hbounds reading hreading kb hkb)⟩
    · have hpost : ∀ reading ∈ postWarmup readings, reading ∈ readings :=
        fun reading hreading => List.mem_of_mem_drop hreading
      have hsame : ∀ first reading kb, (postWarmup readings).head?.bind knownMemory = some first →
          reading ∈ postWarmup readings → knownMemory reading = some kb →
          roundedDecline first kb = decline first kb := by
        intro first reading kb hfirst hreading hkb
        obtain ⟨head, hhead, hknown⟩ := Option.bind_eq_some_iff.mp hfirst
        have hmem := hpost head (List.mem_of_mem_head? hhead)
        exact roundedDecline_of_small (hbounds head hmem first hknown)
          (hbounds reading (hpost reading hreading) kb hkb)
      unfold FallsBelow
      constructor
      · intro hfalls
        obtain ⟨first, reading, kb, hfirst, hreading, hkb, hexceeds⟩ := hfalls
        rw [hsame first reading kb hfirst hreading hkb] at hexceeds
        exact ⟨first, reading, kb, hfirst, hreading, hkb, hexceeds⟩
      · intro hfalls
        obtain ⟨first, reading, kb, hfirst, hreading, hkb, hexceeds⟩ := hfalls
        rw [← hsame first reading kb hfirst hreading hkb] at hexceeds
        exact ⟨first, reading, kb, hfirst, hreading, hkb, hexceeds⟩

end

/-- For every run of the watch loop: the telemetry has the verdict that is wanted just where every
line is complete, every reading is known, and the numbers are doubles that can be compared; and of
readings below `2 ^ 53` kB nothing is asked but that each is known. -/
theorem memVerdict_agrees {env : Env} {args : Args} {expect : Expect} {cid : String}
    {start : Decimal} {rounds : Nat} {log : Log} {w w' : World} {o : Outcome Exn Unit}
    (hopen : w.log = log ++ [⟨.openTelemetry, .ok ()⟩])
    (h : Run (semantics env anyAnswer) (watchLoop args expect cid start rounds 0) w o w')
    (left : Left) (allowed : Double) (rowsDone : Int) :
    (Agrees allowed rowsDone (telemetry left w'.log).lines (telemetry left w'.log).kept ↔
      Judgeable allowed (telemetry left w'.log).cut (telemetry left w'.log).kept) ∧
    ((∀ reading ∈ (telemetry left w'.log).kept, ∀ kb, knownMemory reading = some kb →
        kb < 2 ^ 53) →
      (Agrees allowed rowsDone (telemetry left w'.log).lines (telemetry left w'.log).kept ↔
        (telemetry left w'.log).cut = false ∧
          (∀ reading ∈ (telemetry left w'.log).kept, knownMemory reading ≠ none) ∧
          (60 ≤ (telemetry left w'.log).kept.length → allowed ≠ .nonfinite .nan))) := by
  have hgoing : Going cid (telemetry left w.log) := by
    rw [hopen, telemetry_snoc]
    exact ⟨⟨[], .nil, rfl⟩, rfl⟩
  have hagrees := agrees_iff_judgeable allowed rowsDone (watchLoop_faithful hgoing h)
  refine ⟨hagrees, ?_⟩
  intro hsmall
  rw [hagrees]
  exact judgeable_iff_of_small hsmall

/-! ## Runs -/

theorem watched_run : ((exec (semantics launchEnv anyAnswer) watchedInput
    (watchLoop watchedArgs watchedExpect launchCid ⟨0, 0⟩ 20 0) 0 watchedWorld).map
      fun r => (r.1, (telemetry .nothing r.2.log).kept, (telemetry .nothing r.2.log).cut)) =
    some (.value (), sampleReadings, false) := by
  decide +kernel

theorem memVerdict_agrees_sample :
    ∃ w', Run (semantics launchEnv anyAnswer)
        (watchLoop watchedArgs watchedExpect launchCid ⟨0, 0⟩ 20 0) watchedWorld (.value ()) w' ∧
      (telemetry .nothing w'.log).kept = sampleReadings ∧
      Agrees (.finite 1) 0 (telemetry .nothing w'.log).lines (telemetry .nothing w'.log).kept := by
  obtain ⟨r, hexec, heq⟩ := Option.map_eq_some_iff.mp watched_run
  obtain ⟨o, w'⟩ := r
  rw [Prod.mk.injEq, Prod.mk.injEq] at heq
  obtain ⟨rfl, hkept, hcut⟩ := heq
  have hrun := run_of_exec hexec
  have hopen : watchedWorld.log = [] ++ [⟨.openTelemetry, .ok ()⟩] := rfl
  have hknown : ∀ reading ∈ sampleReadings, ∃ kb, knownMemory reading = some kb ∧ kb < 2 ^ 53 := by
    decide +kernel
  refine ⟨w', hrun, hkept, ((memVerdict_agrees hopen hrun .nothing (.finite 1) 0).2 ?_).mpr ?_⟩
  · intro reading hreading kb hkb
    obtain ⟨kb', hkb', hlt⟩ := hknown reading (hkept ▸ hreading)
    rw [hkb, Option.some.injEq] at hkb'
    omega
  · refine ⟨hcut, ?_, by simp⟩
    intro reading hreading
    obtain ⟨kb, hkb, -⟩ := hknown reading (hkept ▸ hreading)
    simp [hkb]

/-- The container runs and its memory is unknown. -/
def unknownInput (n : Nat) (op : Op) : In op :=
  match op with
  | .memAvailable => (.ok .null : Except Exn Json)
  | op => watchedInput n op

theorem unknown_run : ((exec (semantics launchEnv anyAnswer) unknownInput
    (watchLoop watchedArgs watchedExpect launchCid ⟨0, 0⟩ 20 0) 0 watchedWorld).map
      fun r => (telemetry .nothing r.2.log).lines.map fun line =>
        match lineGib line with
        | .ok _ => none
        | .error e => some e) = some [some .type] := by
  decide +kernel

theorem verdict_of_unknown :
    ¬ ∀ (env : Env) (args : Args) (expect : Expect) (cid : String) (start : Decimal) (rounds : Nat)
      (log : Log) (w w' : World) (o : Outcome Exn Unit) (left : Left) (allowed : Double)
      (rowsDone : Int), w.log = log ++ [⟨.openTelemetry, .ok ()⟩] →
      Run (semantics env anyAnswer) (watchLoop args expect cid start rounds 0) w o w' →
      Agrees allowed rowsDone (telemetry left w'.log).lines (telemetry left w'.log).kept := by
  intro hall
  obtain ⟨r, hexec, heq⟩ := Option.map_eq_some_iff.mp unknown_run
  obtain ⟨verdict, hverdict, -⟩ := hall launchEnv watchedArgs watchedExpect launchCid ⟨0, 0⟩ 20 []
    watchedWorld r.2 r.1 .nothing (.finite 1) 0 rfl (run_of_exec hexec)
  obtain ⟨vals, hvals, -⟩ := bind_ok.mp hverdict
  have heach := mapM_ok.mp hvals
  generalize (telemetry .nothing r.2.log).lines = lines at heq heach
  cases heach with
  | nil => cases heq
  | cons hline _ =>
    rw [List.map_cons, hline] at heq
    cases heq

end Guard
end FlashNext
