import FlashNext.Capture.Observed
import FlashNext.Effect.Check

/-!
# What a valid capture shows

`finalize` objects to all that is missing, so with no objection everything is there
(`finalErrors_clean`); with what the calls amount to this is what a valid capture shows
(`capture_sound`).
-/

namespace FlashNext
namespace Capture

open Text Py Effect

namespace CaptureRecord

variable {env : Digests} {r : CaptureRecord}

theorem flag_eq_nil {bad : Bool} {e : CaptureError} : flag bad e = [] ↔ bad = false := by
  cases bad <;> simp [flag]

/-- The last usage is what the frozen request asks for. -/
structure Complete (r : CaptureRecord) (usage : ObservedUsage) : Prop where
  promptTokens : usage.counts.promptTokens = r.expected.prompt.length
  completionTokens : ∃ maxTokens, Value.lookup r.expected.fields "max_tokens" = some maxTokens ∧
    (Value.int usage.counts.completionTokens).eqv maxTokens = true
  totalTokens : usage.counts.totalTokens =
    usage.counts.promptTokens + usage.counts.completionTokens

theorem usageErrors_clean (h : r.usageErrors = .ok []) :
    ∃ usage, r.usage = some usage ∧ r.Complete usage := by
  unfold usageErrors at h
  cases husage : r.usage with
  | none =>
    rw [husage, Except.ok.injEq] at h
    cases h
  | some usage =>
    rw [husage] at h
    obtain ⟨mismatch, hmismatch, h⟩ := bind_ok.mp h
    have h := Except.ok.inj h
    rw [List.append_eq_nil_iff, flag_eq_nil, flag_eq_nil, decide_eq_false_iff_not, not_not] at h
    obtain ⟨rfl, htotal⟩ := h
    refine ⟨usage, rfl, ?_⟩
    unfold lengthMismatch at hmismatch
    split at hmismatch
    · cases hmismatch
    · next hprompt =>
      split at hmismatch
      · cases hmismatch
      · next maxTokens hmax =>
        have heqv := Except.ok.inj hmismatch
        rw [Bool.not_eq_false'] at heqv
        exact ⟨not_not.mp hprompt, ⟨maxTokens, hmax, heqv⟩, htotal⟩

/-- Nothing is missing, as far as the stream goes. -/
structure StreamComplete (r : CaptureRecord) : Prop where
  errors : r.errors = []
  request : r.requestValue.isSome = true
  stored : r.storedBytes ≠ 0
  named : r.models ≠ []
  models : ∀ model ∈ r.models, model = modelId
  done : r.sawDone = true
  finish : r.finishReason = .str (str "length")
  usage : ∃ usage, r.usage = some usage ∧ r.Complete usage

theorem streamErrors_clean (h : r.streamErrors = .ok []) : r.StreamComplete := by
  obtain ⟨usage, husage, h⟩ := bind_ok.mp h
  have h := Except.ok.inj h
  simp only [List.append_eq_nil_iff, flag_eq_nil, decide_eq_false_iff_not, not_or, not_exists,
    not_and, not_not, Bool.not_eq_false'] at h
  obtain ⟨⟨⟨⟨⟨⟨herrors, hrequest⟩, hstored⟩, hnamed, hmodels⟩, hdone⟩, hfinish⟩, rfl⟩ := h
  exact ⟨herrors, Option.isNone_eq_false_iff.mp hrequest, hstored, hnamed, hmodels, hdone,
    hfinish, usageErrors_clean husage⟩

/-- With no objection at all, the cache was observed as well. -/
theorem finalErrors_clean {success : Bool} {observation : Option (Nat × CacheSource)}
    (h : r.finalErrors success = .ok ([], observation)) :
    r.StreamComplete ∧ success = true ∧
      ∃ cached source, observation = some (cached, source) ∧
        r.cacheObservation [] true = some (cached, source) ∧
        (r.warmup = false → cached = 0) ∧ contradictory r.usage (some cached) = false := by
  obtain ⟨errors, herrors, h⟩ := bind_ok.mp h
  have h := Except.ok.inj h
  rw [Prod.mk.injEq] at h
  obtain ⟨hall, hobservation⟩ := h
  simp only [List.append_eq_nil_iff, flag_eq_nil, Bool.not_eq_false'] at hall
  obtain ⟨⟨⟨rfl, hcontradictory⟩, hcached⟩, rfl⟩ := hall
  refine ⟨streamErrors_clean herrors, rfl, ?_⟩
  rw [hobservation] at hcontradictory hcached
  cases observation with
  | none => cases hcached
  | some observed =>
    obtain ⟨cached, source⟩ := observed
    refine ⟨cached, source, rfl, hobservation, ?_, hcontradictory⟩
    intro hwarmup
    have hzero : flag (decide (cached ≠ 0) && !r.warmup) .coldRequestCacheHit = [] := hcached
    rw [flag_eq_nil, hwarmup, Bool.not_false, Bool.and_true, decide_eq_false_iff_not,
      not_not] at hzero
    exact hzero

/-! ## The frozen request stays -/

theorem noteUsage_expected (data : List (Str × Value)) :
    (r.noteUsage data).expected = r.expected := by
  rcases noteUsage_cases r data with ⟨-, hnote⟩ | hnote | ⟨usage, -, -, hnote⟩
  · rw [hnote]
  · rw [hnote]
    rfl
  · rw [hnote]
    simp only
    split <;> rfl

theorem noteCache_expected (data : List (Str × Value)) :
    (r.noteCache data).expected = r.expected := by
  unfold noteCache
  simp only
  split
  · rfl
  · split
    · rfl
    · split
      · rfl
      · split <;> rfl

theorem run_expected (call : Call) : (call.run env r).1.expected = r.expected := by
  cases call with
  | request payload =>
    rcases request_cases (r := r) env payload with hr | ⟨hr, -⟩
    · rw [Call.run, hr]
    · rw [Call.run, hr]
  | chunk raw =>
    cases raw with
    | none => rfl
    | some raw =>
      simp only [Call.run, chunk]
      split <;> rfl
  | event value =>
    simp only [Call.run, event]
    cases value.asDict? with
    | none => rfl
    | some data =>
      simp only
      cases finishOf data with
      | error e => exact (noteUsage_expected data).trans (by rw [noteModel_eq])
      | ok reason =>
        exact (noteCache_expected data).trans ((noteUsage_expected data).trans
          (by rw [noteModel_eq]))
  | done => rfl

theorem runCalls_expected (calls : List Call) : (runCalls env r calls).expected = r.expected := by
  induction calls generalizing r with
  | nil => rfl
  | cons call calls ih => exact ih.trans (run_expected call)

theorem new_ok {expected : List (Str × Value)} {index : Nat} {warmup : Bool} {sequence : Nat}
    {contract : Option Value} (h : new env expected index warmup sequence contract = .ok r) :
    ∃ zero frozen, frozen.fields = expected ∧ r = start zero frozen index warmup sequence := by
  obtain ⟨zero, -, h⟩ := bind_ok.mp h
  split at h
  · cases h
  · obtain ⟨text, -, h⟩ := bind_ok.mp h
    exact ⟨zero, _, rfl, (Except.ok.inj h).symm⟩

/-- A request with `max_tokens` can be compared with. -/
theorem finalErrors_ok {maxTokens : Value} (success : Bool)
    (hmax : Value.lookup r.expected.fields "max_tokens" = some maxTokens) :
    ∃ errors observation, r.finalErrors success = .ok (errors, observation) := by
  have husage : ∃ errors, r.usageErrors = .ok errors := by
    unfold usageErrors
    cases r.usage with
    | none => exact ⟨_, rfl⟩
    | some usage =>
      have hmismatch : ∃ mismatch, r.lengthMismatch usage = .ok mismatch := by
        unfold lengthMismatch
        rw [hmax]
        split
        · exact ⟨_, rfl⟩
        · exact ⟨_, rfl⟩
      obtain ⟨mismatch, hmismatch⟩ := hmismatch
      simp only [hmismatch]
      exact ⟨_, rfl⟩
  obtain ⟨errors, husage⟩ := husage
  unfold finalErrors streamErrors
  rw [husage]
  exact ⟨_, _, rfl⟩

end CaptureRecord

/-- The record has nothing to object to when the output is finalized. -/
def Valid (r : CaptureRecord) (output : Output) : Prop :=
  ∃ observation, r.finalErrors output.success = .ok ([], observation)

/-- A record that is valid was told of a complete stream without objecting to any of it. -/
theorem agrees_of_valid {env : Digests} {expected : List (Str × Value)} {index : Nat}
    {warmup : Bool} {sequence : Nat} {contract : Option Value} {start : CaptureRecord}
    {calls : List Call} {output : Output}
    (hnew : CaptureRecord.new env expected index warmup sequence contract = .ok start)
    (hvalid : Valid (runCalls env start calls) output) :
    start.expected.fields = expected ∧ start.warmup = warmup ∧
      CaptureRecord.Agrees env start (runCalls env start calls) calls := by
  obtain ⟨zero, frozen, hfields, rfl⟩ := CaptureRecord.new_ok hnew
  obtain ⟨observation, hfinal⟩ := hvalid
  obtain ⟨hcomplete, -⟩ := CaptureRecord.finalErrors_clean hfinal
  exact ⟨hfields, rfl,
    CaptureRecord.runCalls_agrees zero frozen index warmup sequence calls hcomplete.errors⟩

theorem inputHash_ok {env : Digests} {payload : Value} {digest : Str} :
    inputHash env payload = .ok digest ↔
      ∃ text, env.dumps payload = .ok text ∧ env.sha256 text = digest := by
  unfold inputHash
  cases env.dumps payload with
  | error e => simp [Except.map]
  | ok text => simp [Except.map]

theorem eqv_trans {a b c : Value} (hab : b.eqv a = true) (hbc : c.eqv b = true) :
    c.eqv a = true := by
  rw [Value.eqv_iff] at *
  exact ⟨hbc.1.trans hab.1, hbc.2⟩

/-- What a valid capture shows. -/
structure Shown (env : Digests) (start : CaptureRecord) (calls : List Call) (output : Output)
    (result : Output) : Prop where
  request : ∃ payload, .request payload ∈ calls ∧
    env.dumps payload = env.dumps (.dict start.expected.fields)
  arrived : 0 < (received calls).length ∧ (received calls).length ≤ maxWireBytes
  stored : (runCalls env start calls).wire = received calls
  models : ∀ model ∈ namedModels (objects calls), model = modelId
  done : .done ∈ calls
  finish : (finishReasons (objects calls)).getLast? = some (.str (str "length"))
  usage : ∃ (observed : List ObservedUsage) (last : ObservedUsage),
    usages (objects calls) = observed.map (fun usage => .dict usage.fields) ∧
      observed.Pairwise (fun a b => a.counts.completionTokens ≤ b.counts.completionTokens) ∧
      observed.getLast? = some last ∧
      last.counts.promptTokens = start.expected.prompt.length ∧
      (∃ maxTokens, Value.lookup start.expected.fields "max_tokens" = some maxTokens ∧
        (Value.int last.counts.completionTokens).eqv maxTokens = true) ∧
      last.counts.totalTokens = last.counts.promptTokens + last.counts.completionTokens
  details : (details (objects calls)).Pairwise fun a b => b.eqv a = true
  success : output.success = true
  cold : start.warmup = false → result.cachedTokens = some 0

/-- A capture is valid only when all was there and agreed, and only then the output is left a
success; otherwise it has no lengths. -/
theorem capture_sound (env : Digests) (save : Document → Option Str)
    {expected : List (Str × Value)} {index : Nat} {warmup : Bool} {sequence : Nat}
    {contract : Option Value} {start : CaptureRecord} {maxTokens : Value} (calls : List Call)
    (output : Output)
    (hnew : CaptureRecord.new env expected index warmup sequence contract = .ok start)
    (hmax : Value.lookup expected "max_tokens" = some maxTokens)
    (hsha : ∀ payload text frozen, .request payload ∈ calls → env.dumps payload = .ok text →
      env.dumps (.dict expected) = .ok frozen → env.sha256 text = env.sha256 frozen →
      text = frozen) :
    let record := runCalls env start calls
    let result := (record.finalize env save output).1
    (result.success = true ↔ Valid record output) ∧
      (Valid record output → Shown env start calls output result) ∧
      (¬ Valid record output →
        result.success = false ∧ result.outputLen = 0 ∧ result.promptLen = 0) := by
  intro record result
  obtain ⟨zero, frozen, hfields, hstart⟩ := CaptureRecord.new_ok hnew
  have hexpected : record.expected.fields = expected := by
    rw [show record.expected = start.expected from CaptureRecord.runCalls_expected calls, hstart]
    exact hfields
  obtain ⟨errors, observation, hfinal⟩ :=
    CaptureRecord.finalErrors_ok output.success (hexpected ▸ hmax)
  have hresult : result = record.mark errors observation output := by
    show (record.finalize env save output).1 = _
    rw [CaptureRecord.finalize, hfinal]
  cases errors with
  | cons e es =>
    have hnot : ¬ Valid record output := by
      rintro ⟨observation', hfinal'⟩
      rw [hfinal] at hfinal'
      cases hfinal'
    have hfailed : (record.mark (e :: es) observation output).success = false := rfl
    refine ⟨⟨fun hsuccess => ?_, fun h => absurd h hnot⟩, fun h => absurd h hnot, fun _ => ?_⟩
    · rw [hresult, hfailed] at hsuccess
      cases hsuccess
    · rw [hresult]
      exact ⟨rfl, rfl, rfl⟩
  | nil =>
    have hvalid : Valid record output := ⟨observation, hfinal⟩
    have hsuccess : (record.mark [] observation output).success = true := by
      unfold CaptureRecord.mark
      cases record.usage <;> rfl
    refine ⟨⟨fun _ => hvalid, fun _ => hresult ▸ hsuccess⟩, fun _ => ?_,
      fun h => absurd hvalid h⟩
    obtain ⟨hcomplete, hupstream, cached, source, hobservation, -, hcold, -⟩ :=
      CaptureRecord.finalErrors_clean hfinal
    obtain ⟨-, -, hsame, htold, hheard⟩ := agrees_of_valid hnew hvalid
    obtain ⟨usage, husage, hlast⟩ := hcomplete.usage
    constructor
    · obtain ⟨payload, hpayload⟩ := Option.isSome_iff_exists.mp hcomplete.request
      obtain ⟨hmem, digest, hactual, hfrozen⟩ := htold.requested payload hpayload
      rw [hsame.expected] at hfrozen
      have hstartFields : start.expected.fields = expected := by
        rw [hstart]
        exact hfields
      rw [hstartFields] at hfrozen ⊢
      obtain ⟨text, htext, hdigest⟩ := inputHash_ok.mp hactual
      obtain ⟨frozenText, hfrozenText, hdigest'⟩ := inputHash_ok.mp hfrozen
      have hequal := hsha payload text frozenText hmem htext hfrozenText
        (hdigest.trans hdigest'.symm)
      exact ⟨payload, hmem, by rw [htext, hfrozenText, hequal]⟩
    · refine ⟨Nat.pos_of_ne_zero ?_, htold.bounded⟩
      rw [← htold.stored]
      exact hcomplete.stored
    · exact htold.wire
    · intro model hmodel
      exact hcomplete.models model ((hheard.models model).mpr hmodel)
    · exact htold.done hcomplete.done
    · have hfinish := hcomplete.finish
      rw [hheard.finish] at hfinish
      cases hreasons : (finishReasons (objects calls)).getLast? with
      | none =>
        rw [hreasons] at hfinish
        cases hfinish
      | some reason =>
        rw [hreasons] at hfinish
        exact congrArg some hfinish
    · obtain ⟨observed, husages, hgetLast, hchain⟩ := hheard.counted
      have htrans : Trans (fun a b : ObservedUsage =>
          a.counts.completionTokens ≤ b.counts.completionTokens)
          (fun a b : ObservedUsage => a.counts.completionTokens ≤ b.counts.completionTokens)
          (fun a b : ObservedUsage => a.counts.completionTokens ≤ b.counts.completionTokens) :=
        ⟨Nat.le_trans⟩
      rw [← hsame.expected]
      exact ⟨observed, usage, husages, hchain.pairwise, hgetLast.symm.trans husage,
        hlast.promptTokens, hlast.completionTokens, hlast.totalTokens⟩
    · have htrans : Trans (fun a b : Value => b.eqv a = true) (fun a b : Value => b.eqv a = true)
          (fun a b : Value => b.eqv a = true) := ⟨eqv_trans⟩
      exact hheard.steady.pairwise
    · exact hupstream
    · intro hwarmup
      have hzero : cached = 0 := hcold (hsame.warmup.trans hwarmup)
      rw [hresult, hobservation, hzero]
      unfold CaptureRecord.mark
      rw [husage]
      rfl

/-! ## A complete capture -/

def sampleExpected : List (Str × Value) :=
  [(str "max_tokens", .int 2), (str "model", .str modelId),
    (str "prompt", .list [.int 1, .int 2, .int 3])]

def sampleText : Bytes :=
  (str "\x7b\"max_tokens\":2,\"model\":\"nvidia/Qwen3.8-Flash-Next-NVFP4\",\"prompt\":[1,2,3]\x7d").map
    UInt8.ofNat

def sampleWire : Bytes := (str "data: test-only\n").map UInt8.ofNat

def sampleDigests : Digests where
  dumps v :=
    if v = .dict sampleExpected then .ok sampleText
    else .ok ((str "[1,2,3]").map UInt8.ofNat)
  sha256 bytes :=
    if bytes = sampleText then
      str "26d6dfce492de9574f6b66841b956c31233c08b0c090eb0458d0756ce7c4dcb1"
    else if bytes = sampleWire then
      str "fd007fb4652974468e242ecaf4646a4519b31de2c1b33ba18ca5a7ef4602a7ba"
    else str "a615eeaee21de5179de080de8c3052c8da901138406ba71c38c032845f7d54f4"

def sampleFrozen : Frozen := ⟨sampleExpected, [1, 2, 3], by decide⟩

/-- A record of a measured request. -/
def sampleStart : CaptureRecord := CaptureRecord.start false sampleFrozen 0 false 0

def sampleUsage (cached : List (Str × Value)) : Value :=
  .dict ([(str "prompt_tokens", .int 3), (str "completion_tokens", .int 2),
    (str "total_tokens", .int 5)] ++ cached)

/-- An event with a choice that is finished, explicit cache details and the usage. -/
def sampleEvent (usage : Value) : Value :=
  .dict [(str "model", .str modelId), (str "usage", usage),
    (str "choices", .list [.dict [(str "finish_reason", .str (str "length"))]]),
    (str "sglext", .dict [(str "cached_tokens_details",
      .dict [(str "device", .int 0), (str "host", .int 0)])])]

def sampleCalls (events : List Value) : List Call :=
  [.request (.dict sampleExpected), .chunk (some sampleWire)] ++ events.map .event ++ [.done]

def sampleOutput : Output := ⟨true, 999, 999, some 999, []⟩

theorem capture_sound_sample :
    Shown sampleDigests sampleStart (sampleCalls [sampleEvent (sampleUsage [])]) sampleOutput
      ((runCalls sampleDigests sampleStart
        (sampleCalls [sampleEvent (sampleUsage [])])).finalize sampleDigests (fun _ => none)
          sampleOutput).1 :=
  (@capture_sound sampleDigests (fun _ => none) sampleExpected 0 false 0 none sampleStart (.int 2)
    (sampleCalls [sampleEvent (sampleUsage [])]) sampleOutput rfl (by decide)
    (by
      intro payload text frozen hmem htext hfrozen _
      have hpayload : payload = .dict sampleExpected := by
        simpa [sampleCalls] using hmem
      rw [hpayload, hfrozen] at htext
      exact (Except.ok.inj htext).symm)).2.1 ⟨_, rfl⟩

end Capture
end FlashNext
