import FlashNext.Capture.Record
import Mathlib.Data.List.Chain

/-!
# What a record has observed

Objections are never taken back, so a record without any has not objected to a call so far.
Then it holds what the calls amount to: the bytes that arrived, the models that were named, the
last usage, finish reason and cache details (`runCalls_agrees`).
-/

namespace FlashNext
namespace Capture

open Text Py

/-! ## The calls -/

section Calls

/-- The events that are objects. -/
def objects (calls : List Call) : List (List (Str × Value)) :=
  calls.filterMap fun
    | .event data => data.asDict?
    | _ => none

/-- The bytes that arrived. -/
def received (calls : List Call) : Bytes :=
  calls.flatMap fun
    | .chunk (some raw) => raw
    | _ => []

/-- The usage of an event, when it is counted. -/
def usageOf (data : List (Str × Value)) : Option ObservedUsage :=
  match (Value.field data "usage").asDict? with
  | none => none
  | some fields =>
    match h : countsOf fields with
    | none => none
    | some counts => some ⟨fields, counts, h⟩

/-- The finish reason of an event. -/
def newFinish (data : List (Str × Value)) : Option Value :=
  match CaptureRecord.finishOf data with
  | .error _ => none
  | .ok reason => reason

/-- Reading the choices of the event raises. -/
def breaks (data : List (Str × Value)) : Bool :=
  match CaptureRecord.finishOf data with
  | .error _ => true
  | .ok _ => false

/-- The cache details in an event. -/
def reportedDetails (data : List (Str × Value)) : Option Value :=
  (Value.field data "sglext").asDict?.bind (Value.lookup · "cached_tokens_details")

/-- The cache details that the record gets to see. -/
def observedDetails (data : List (Str × Value)) : Option Value :=
  if breaks data then none else reportedDetails data

def namedModels (events : List (List (Str × Value))) : List Str :=
  events.filterMap fun data => (Value.field data "model").asStr?

/-- The usages of the events, those without one left out. -/
def usages (events : List (List (Str × Value))) : List Value :=
  (events.map (Value.field · "usage")).filter (· ≠ .none)

def finishReasons (events : List (List (Str × Value))) : List Value := events.filterMap newFinish

def details (events : List (List (Str × Value))) : List Value := events.filterMap observedDetails

end Calls

namespace CaptureRecord

variable {env : Digests} {r : CaptureRecord} {data : List (Str × Value)}

/-! ## One event -/

/-- What an event that is not objected to leaves. -/
def advance (data : List (Str × Value)) (r : CaptureRecord) : CaptureRecord :=
  { r with
    models := (Value.field data "model").asStr?.elim r.models r.models.insert
    usage := (usageOf data).or r.usage
    finishReason := (newFinish data).getD r.finishReason
    cacheDetailsSeen := r.cacheDetailsSeen || (observedDetails data).isSome
    cacheDetails := (observedDetails data).getD r.cacheDetails }

/-- What an event must be like not to be objected to. -/
structure Accepts (r : CaptureRecord) (data : List (Str × Value)) : Prop where
  counted : Value.field data "usage" ≠ .none →
    ∃ usage, usageOf data = some usage ∧ Value.field data "usage" = .dict usage.fields
  increasing : ∀ usage last, usageOf data = some usage → r.usage = some last →
    last.counts.completionTokens ≤ usage.counts.completionTokens
  steady : ∀ details, observedDetails data = some details → r.cacheDetailsSeen = true →
    details.eqv r.cacheDetails = true

theorem object_errors (e : CaptureError) : (r.object e).errors ≠ [] :=
  List.append_ne_nil_of_right_ne_nil _ (List.cons_ne_nil _ _)

theorem usageOf_dict {fields : List (Str × Value)} {counts : Counts}
    (hvalue : Value.field data "usage" = .dict fields) (hcounts : countsOf fields = some counts) :
    usageOf data = some ⟨fields, counts, hcounts⟩ := by
  unfold usageOf
  rw [hvalue]
  show (match h : countsOf fields with
    | none => none
    | some counts => some (⟨fields, counts, h⟩ : ObservedUsage)) = _
  split
  · next hnone =>
    rw [hcounts] at hnone
    cases hnone
  · next counts' hsome =>
    have heq : counts' = counts := Option.some.inj (hsome.symm.trans hcounts)
    subst heq
    rfl

/-- A usage that is objected to, or one that is taken. -/
theorem noteUsage_cases (r : CaptureRecord) (data : List (Str × Value)) :
    (Value.field data "usage" = .none ∧ r.noteUsage data = r) ∨
      r.noteUsage data = r.object .invalidUsage ∨
      ∃ usage : ObservedUsage, usageOf data = some usage ∧
        Value.field data "usage" = .dict usage.fields ∧
        r.noteUsage data =
          let decreasing := r.usage.any fun last =>
            usage.counts.completionTokens < last.counts.completionTokens
          { (if decreasing then r.object .decreasingUsage else r) with usage := some usage } := by
  cases hvalue : Value.field data "usage" with
  | none =>
    refine .inl ⟨rfl, ?_⟩
    rw [noteUsage, hvalue]
    rfl
  | dict fields =>
    cases hcounts : countsOf fields with
    | none =>
      refine .inr (.inl ?_)
      rw [noteUsage, hvalue]
      show (match h : countsOf fields with
        | none => r.object .invalidUsage
        | some counts => _) = _
      split
      · rfl
      · next counts hsome =>
        rw [hcounts] at hsome
        cases hsome
    | some counts =>
      refine .inr (.inr ⟨⟨fields, counts, hcounts⟩, usageOf_dict hvalue hcounts, rfl, ?_⟩)
      rw [noteUsage, hvalue]
      show (match h : countsOf fields with
        | none => r.object .invalidUsage
        | some counts => _) = _
      split
      · next hnone =>
        rw [hcounts] at hnone
        cases hnone
      · next counts' hsome =>
        have heq : counts' = counts := Option.some.inj (hsome.symm.trans hcounts)
        subst heq
        rfl
  | _ =>
    refine .inr (.inl ?_)
    rw [noteUsage, hvalue]
    rfl

theorem noteUsage_clean (h : (r.noteUsage data).errors = []) :
    r.errors = [] ∧ r.noteUsage data = { r with usage := (usageOf data).or r.usage } ∧
      (Value.field data "usage" ≠ .none →
        ∃ usage, usageOf data = some usage ∧ Value.field data "usage" = .dict usage.fields) ∧
      ∀ usage last, usageOf data = some usage → r.usage = some last →
        last.counts.completionTokens ≤ usage.counts.completionTokens := by
  rcases noteUsage_cases r data with
    ⟨hvalue, hnote⟩ | hnote | ⟨usage, husage, hvalue, hnote⟩
  · have husage : usageOf data = none := by
      unfold usageOf
      rw [hvalue]
      rfl
    rw [hnote] at h ⊢
    rw [husage]
    exact ⟨h, rfl, fun hne => absurd hvalue hne, fun usage last hu => by cases hu⟩
  · rw [hnote] at h
    exact absurd h (object_errors _)
  · cases hdecreasing : (r.usage.any fun last =>
        decide (usage.counts.completionTokens < last.counts.completionTokens)) with
    | true =>
      rw [hnote, hdecreasing] at h
      exact absurd h (object_errors _)
    | false =>
      rw [hnote, hdecreasing] at h
      rw [hnote, hdecreasing, husage]
      refine ⟨h, rfl, fun _ => ⟨usage, rfl, hvalue⟩, fun usage' last hu hlast => ?_⟩
      rw [Option.some.injEq] at hu
      subst hu
      rw [hlast, Option.any_some, decide_eq_false_iff_not] at hdecreasing
      exact Nat.le_of_not_lt hdecreasing

theorem noteCache_clean (h : (r.noteCache data).errors = []) :
    r.errors = [] ∧
      r.noteCache data = { r with
        cacheDetailsSeen := r.cacheDetailsSeen || (reportedDetails data).isSome
        cacheDetails := (reportedDetails data).getD r.cacheDetails } ∧
      ∀ details, reportedDetails data = some details → r.cacheDetailsSeen = true →
        details.eqv r.cacheDetails = true := by
  unfold noteCache reportedDetails at *
  cases hvalue : Value.field data "sglext" with
  | none =>
    rw [hvalue] at h
    refine ⟨h, ?_, fun details hdetails => by cases hdetails⟩
    simp [Value.isNone, Value.asDict?]
  | dict fields =>
    rw [hvalue] at h
    simp only [Value.isNone, Value.asDict?, Bool.false_eq_true, if_false, Option.bind_some] at h ⊢
    cases hlookup : Value.lookup fields "cached_tokens_details" with
    | none =>
      rw [hlookup] at h
      refine ⟨h, ?_, fun details hdetails => by cases hdetails⟩
      simp
    | some details =>
      rw [hlookup] at h
      cases hchanging : (r.cacheDetailsSeen && !details.eqv r.cacheDetails) with
      | true =>
        simp only [hchanging, if_true] at h
        exact absurd h (object_errors _)
      | false =>
        simp only [hchanging, Bool.false_eq_true, if_false] at h ⊢
        refine ⟨h, by simp, fun details' hdetails hseen => ?_⟩
        rw [Option.some.injEq] at hdetails
        subst hdetails
        rw [hseen, Bool.true_and, Bool.not_eq_false'] at hchanging
        exact hchanging
  | _ =>
    rw [hvalue] at h
    exact absurd h (object_errors _)

theorem noteModel_eq :
    r.noteModel data =
      { r with models := (Value.field data "model").asStr?.elim r.models r.models.insert } := by
  unfold noteModel
  cases (Value.field data "model").asStr? <;> rfl

/-- An event that is not objected to is an object that the record accepts. -/
theorem event_clean {value : Value} (h : (r.event value).1.errors = []) :
    ∃ data, value = .dict data ∧ r.errors = [] ∧ r.Accepts data ∧
      (r.event value).1 = r.advance data := by
  unfold event at h ⊢
  cases hvalue : value.asDict? with
  | none =>
    rw [hvalue] at h
    exact absurd h (object_errors _)
  | some data =>
    rw [hvalue] at h
    refine ⟨data, Value.asDict?_eq_some.mp hvalue, ?_⟩
    have hobserved (reason : Option Value) (hfinish : finishOf data = .ok reason) :
        observedDetails data = reportedDetails data ∧ newFinish data = reason := by
      rw [observedDetails, breaks, newFinish, hfinish]
      exact ⟨rfl, rfl⟩
    cases hfinish : finishOf data with
    | error e =>
      simp only [hfinish] at h ⊢
      have hdetails : observedDetails data = none := by
        rw [observedDetails, breaks, hfinish]
        rfl
      have hnew : newFinish data = none := by
        rw [newFinish, hfinish]
      obtain ⟨herrors, hnote, hcounted, hincreasing⟩ := noteUsage_clean h
      rw [noteModel_eq] at herrors hincreasing hnote
      refine ⟨herrors, ⟨hcounted, hincreasing, fun details hd => ?_⟩, ?_⟩
      · rw [hdetails] at hd
        cases hd
      · rw [noteModel_eq, hnote, advance, hdetails, hnew]
        simp
    | ok reason =>
      simp only [hfinish] at h ⊢
      obtain ⟨hdetails, hnew⟩ := hobserved reason hfinish
      obtain ⟨herrors, hcache, hsteady⟩ := noteCache_clean h
      obtain ⟨herrors', hnote, hcounted, hincreasing⟩ := noteUsage_clean herrors
      rw [noteModel_eq] at herrors' hincreasing hnote
      rw [noteModel_eq, hnote] at hsteady
      refine ⟨herrors', ⟨hcounted, hincreasing, ?_⟩, ?_⟩
      · rw [hdetails]
        exact hsteady
      · rw [hcache, noteModel_eq, hnote, advance, hdetails, hnew]

/-! ## The events of a run -/

theorem isChain_snoc {α : Type} {R : α → α → Prop} {xs : List α} {x : α} :
    List.IsChain R (xs ++ [x]) ↔ List.IsChain R xs ∧ ∀ y ∈ xs.getLast?, R y x := by
  simp [List.isChain_append]

/-- The record holds what the events amount to. -/
structure Heard (r : CaptureRecord) (events : List (List (Str × Value))) : Prop where
  models : ∀ model, model ∈ r.models ↔ model ∈ namedModels events
  finish : r.finishReason = (finishReasons events).getLast?.getD .none
  counted : ∃ observed : List ObservedUsage,
    usages events = observed.map (fun usage => .dict usage.fields) ∧
      r.usage = observed.getLast? ∧
      observed.IsChain fun a b => a.counts.completionTokens ≤ b.counts.completionTokens
  seen : r.cacheDetailsSeen = !(details events).isEmpty
  cache : r.cacheDetails = (details events).getLast?.getD .none
  steady : (details events).IsChain fun a b => b.eqv a = true

theorem Heard.advance {events : List (List (Str × Value))} (h : r.Heard events)
    (haccepts : r.Accepts data) : (r.advance data).Heard (events ++ [data]) := by
  have hsingle {β : Type} (f : List (Str × Value) → Option β) :
      (events ++ [data]).filterMap f = events.filterMap f ++ (f data).toList := by
    rw [List.filterMap_append]
    cases hf : f data <;> simp [hf]
  constructor
  · intro model
    rw [namedModels, hsingle]
    show model ∈ (Value.field data "model").asStr?.elim r.models r.models.insert ↔ _
    have hmodels := h.models model
    cases (Value.field data "model").asStr? with
    | none =>
      rw [Option.toList_none, List.append_nil]
      exact hmodels
    | some m =>
      simp only [Option.elim_some, List.mem_insert_iff, Option.toList_some, List.mem_append,
        List.mem_singleton]
      rw [or_comm]
      exact or_congr_left hmodels
  · rw [finishReasons, hsingle]
    show (newFinish data).getD r.finishReason = _
    cases newFinish data with
    | none =>
      rw [Option.toList_none, List.append_nil]
      exact h.finish
    | some reason => simp
  · obtain ⟨observed, husages, husage, hchain⟩ := h.counted
    by_cases hnone : Value.field data "usage" = .none
    · have hof : usageOf data = none := by
        unfold usageOf
        rw [hnone]
        rfl
      refine ⟨observed, ?_, ?_, hchain⟩
      · rw [usages, List.map_append, List.filter_append, ← usages, husages]
        simp [hnone]
      · show (usageOf data).or r.usage = _
        rw [hof, Option.none_or, husage]
    · obtain ⟨usage, hof, hvalue⟩ := haccepts.counted hnone
      refine ⟨observed ++ [usage], ?_, ?_, isChain_snoc.mpr ⟨hchain, fun last hlast => ?_⟩⟩
      · rw [usages, List.map_append, List.filter_append, ← usages, husages, List.map_append]
        simp [hvalue]
      · show (usageOf data).or r.usage = _
        rw [hof, List.getLast?_append]
        rfl
      · exact haccepts.increasing usage last hof (husage.trans hlast)
  · rw [details, hsingle]
    show (r.cacheDetailsSeen || (observedDetails data).isSome) = _
    rw [h.seen, ← details]
    cases observedDetails data <;> simp
  · rw [details, hsingle]
    show (observedDetails data).getD r.cacheDetails = _
    cases observedDetails data with
    | none =>
      rw [Option.toList_none, List.append_nil]
      exact h.cache
    | some x => simp
  · rw [details, hsingle]
    cases hdetails : observedDetails data with
    | none =>
      rw [Option.toList_none, List.append_nil]
      exact h.steady
    | some x =>
      refine isChain_snoc.mpr ⟨h.steady, fun last hlast => ?_⟩
      have hlast' : (details events).getLast? = some last := hlast
      have hseen : r.cacheDetailsSeen = true := by
        rw [h.seen]
        cases hd : details events with
        | nil =>
          rw [hd] at hlast'
          cases hlast'
        | cons y ys => rfl
      have hcache : r.cacheDetails = last := by
        rw [h.cache, hlast']
        rfl
      rw [← hcache]
      exact haccepts.steady x hdetails hseen

/-- The record holds what it was told beside the events. -/
structure Told (env : Digests) (r : CaptureRecord) (calls : List Call) : Prop where
  requested : ∀ payload, r.requestValue = some payload → .request payload ∈ calls ∧
    ∃ digest, inputHash env payload = .ok digest ∧
      inputHash env (.dict r.expected.fields) = .ok digest
  arrived : r.bytesReceived = (received calls).length
  bounded : (received calls).length ≤ maxWireBytes
  wire : r.wire = received calls
  stored : r.storedBytes = (received calls).length
  done : r.sawDone = true → .done ∈ calls

/-- What does not change. -/
structure SameRequest (r r' : CaptureRecord) : Prop where
  expected : r'.expected = r.expected
  warmup : r'.warmup = r.warmup

/-- All that a record without objections holds after the calls. -/
structure Agrees (env : Digests) (start r : CaptureRecord) (calls : List Call) : Prop where
  same : start.SameRequest r
  told : r.Told env calls
  heard : r.Heard (objects calls)

theorem request_cases (env : Digests) (payload : Value) :
    (r.request env payload).1 = r ∨
      ((r.request env payload).1 = { r with requestValue := some payload } ∧
        ∃ digest, inputHash env payload = .ok digest ∧
          inputHash env (.dict r.expected.fields) = .ok digest) := by
  unfold request
  split
  · exact .inl rfl
  · cases hactual : inputHash env payload with
    | error e => exact .inl rfl
    | ok actual =>
      cases hfrozen : inputHash env (.dict r.expected.fields) with
      | error e => exact .inl rfl
      | ok frozen =>
        by_cases hne : actual ≠ frozen
        · simp only [if_pos hne]
          exact .inl trivial
        · simp only [if_neg hne]
          rw [not_not] at hne
          exact .inr ⟨trivial, actual, rfl, by rw [hne]⟩

/-- A chunk that is not objected to is within the bound and stored whole. -/
theorem chunk_clean {raw : Bytes} (h : (r.chunk (some raw)).1.errors = []) :
    r.errors = [] ∧ r.bytesReceived + raw.length ≤ maxWireBytes ∧
      (r.chunk (some raw)).1 = { r with
        bytesReceived := r.bytesReceived + raw.length
        storedBytes := r.storedBytes + (raw.take (maxWireBytes - r.storedBytes)).length
        wire := r.wire ++ raw.take (maxWireBytes - r.storedBytes) } := by
  unfold chunk at h ⊢
  simp only at h ⊢
  split at h
  · exact absurd h (object_errors _)
  · next hbound =>
    rw [if_neg hbound]
    exact ⟨h, Nat.le_of_not_lt hbound, rfl⟩

/-- No call takes an objection back. -/
theorem errors_of_run {call : Call} (h : (call.run env r).1.errors = []) : r.errors = [] := by
  cases call with
  | request payload =>
    rcases request_cases (r := r) env payload with hr | ⟨hr, -⟩
    · rw [Call.run, hr] at h
      exact h
    · rw [Call.run, hr] at h
      exact h
  | chunk raw =>
    cases raw with
    | none => exact h
    | some raw => exact (chunk_clean h).1
  | event value =>
    obtain ⟨data, -, herrors, -⟩ := event_clean h
    exact herrors
  | done => exact h

theorem Told.mono {calls : List Call} {call : Call} (h : r.Told env calls)
    (hreceived : received (calls ++ [call]) = received calls) : r.Told env (calls ++ [call]) where
  requested payload hp :=
    ⟨List.mem_append_left _ (h.requested payload hp).1, (h.requested payload hp).2⟩
  arrived := hreceived ▸ h.arrived
  bounded := hreceived ▸ h.bounded
  wire := hreceived ▸ h.wire
  stored := hreceived ▸ h.stored
  done hd := List.mem_append_left _ (h.done hd)

/-- A call that is no event changes nothing that was heard. -/
theorem Heard.keep {r' : CaptureRecord} {events : List (List (Str × Value))} (h : r.Heard events)
    (hmodels : r'.models = r.models) (hfinish : r'.finishReason = r.finishReason)
    (husage : r'.usage = r.usage) (hseen : r'.cacheDetailsSeen = r.cacheDetailsSeen)
    (hcache : r'.cacheDetails = r.cacheDetails) : r'.Heard events where
  models := hmodels ▸ h.models
  finish := hfinish ▸ h.finish
  counted := husage ▸ h.counted
  seen := hseen ▸ h.seen
  cache := hcache ▸ h.cache
  steady := h.steady

theorem received_append (calls : List Call) (call : Call) :
    received (calls ++ [call]) = received calls ++ received [call] :=
  List.flatMap_append

theorem objects_append (calls : List Call) (call : Call) :
    objects (calls ++ [call]) = objects calls ++ objects [call] :=
  List.filterMap_append

theorem Told.chunk {calls : List Call} {raw : Bytes} (h : r.Told env calls)
    (hclean : (r.chunk (some raw)).1.errors = []) :
    (r.chunk (some raw)).1.Told env (calls ++ [.chunk (some raw)]) := by
  obtain ⟨-, hbound, hr⟩ := chunk_clean hclean
  rw [h.arrived] at hbound
  have hreceived : received (calls ++ [.chunk (some raw)]) = received calls ++ raw := by
    rw [received_append]
    exact congrArg _ (List.append_nil raw)
  have hlength : (received (calls ++ [.chunk (some raw)])).length =
      (received calls).length + raw.length := by
    rw [hreceived, List.length_append]
  have htake : raw.take (maxWireBytes - r.storedBytes) = raw := by
    apply List.take_of_length_le
    rw [h.stored]
    omega
  rw [htake] at hr
  rw [hr]
  constructor
  · intro payload hp
    exact ⟨List.mem_append_left _ (h.requested payload hp).1, (h.requested payload hp).2⟩
  · show r.bytesReceived + raw.length = _
    rw [hlength, h.arrived]
  · rw [hlength]
    exact hbound
  · show r.wire ++ raw = _
    rw [hreceived, h.wire]
  · show r.storedBytes + raw.length = _
    rw [hlength, h.stored]
  · intro hd
    exact List.mem_append_left _ (h.done hd)

/-- One more call. -/
theorem Agrees.run {start : CaptureRecord} {calls : List Call} {call : Call}
    (h : Agrees env start r calls) (hclean : (call.run env r).1.errors = []) :
    Agrees env start (call.run env r).1 (calls ++ [call]) := by
  cases call with
  | request payload =>
    have hreceived : received (calls ++ [.request payload]) = received calls := by
      rw [received_append]
      exact List.append_nil _
    have hobjects : objects (calls ++ [.request payload]) = objects calls := by
      rw [objects_append]
      exact List.append_nil _
    show Agrees env start (r.request env payload).1 _
    rcases request_cases (r := r) env payload with hr | ⟨hr, digest, hactual, hfrozen⟩
    · rw [hr]
      exact ⟨h.same, h.told.mono hreceived, hobjects ▸ h.heard⟩
    · have htold := h.told.mono hreceived
      rw [hr]
      refine ⟨⟨h.same.expected, h.same.warmup⟩, ⟨fun payload' hp => ?_, htold.arrived,
        htold.bounded, htold.wire, htold.stored, htold.done⟩, ?_⟩
      · rw [Option.some.injEq] at hp
        subst hp
        exact ⟨List.mem_append_right _ (List.mem_singleton_self _), digest, hactual, hfrozen⟩
      · rw [hobjects]
        exact h.heard.keep rfl rfl rfl rfl rfl
  | chunk raw =>
    have hobjects : objects (calls ++ [.chunk raw]) = objects calls := by
      rw [objects_append]
      exact List.append_nil _
    show Agrees env start (r.chunk raw).1 _
    cases raw with
    | none =>
      have hreceived : received (calls ++ [.chunk none]) = received calls := by
        rw [received_append]
        exact List.append_nil _
      exact ⟨h.same, h.told.mono hreceived, hobjects ▸ h.heard⟩
    | some raw =>
      have htold := h.told.chunk hclean
      obtain ⟨-, -, hr⟩ := chunk_clean hclean
      rw [hr] at htold ⊢
      refine ⟨⟨h.same.expected, h.same.warmup⟩, htold, ?_⟩
      rw [hobjects]
      exact h.heard.keep rfl rfl rfl rfl rfl
  | event value =>
    have hreceived : received (calls ++ [.event value]) = received calls := by
      rw [received_append]
      exact List.append_nil _
    obtain ⟨data, rfl, -, haccepts, hr⟩ := event_clean hclean
    have htold := h.told.mono hreceived
    show Agrees env start (r.event (.dict data)).1 _
    rw [hr]
    refine ⟨⟨h.same.expected, h.same.warmup⟩, ⟨htold.requested, htold.arrived,
      htold.bounded, htold.wire, htold.stored, htold.done⟩, ?_⟩
    rw [objects_append]
    exact h.heard.advance haccepts
  | done =>
    have hreceived : received (calls ++ [.done]) = received calls := by
      rw [received_append]
      exact List.append_nil _
    have hobjects : objects (calls ++ [.done]) = objects calls := by
      rw [objects_append]
      exact List.append_nil _
    have htold := h.told.mono hreceived
    show Agrees env start r.done _
    refine ⟨⟨h.same.expected, h.same.warmup⟩, ⟨htold.requested, htold.arrived,
      htold.bounded, htold.wire, htold.stored, fun _ => ?_⟩, ?_⟩
    · exact List.mem_append_right _ (List.mem_singleton_self _)
    · rw [hobjects]
      exact h.heard.keep rfl rfl rfl rfl rfl

/-- A record that objects to nothing holds what the calls amount to. -/
theorem runCalls_agrees (zero : Bool) (expected : Frozen) (index : Nat) (warmup : Bool)
    (sequence : Nat) (calls : List Call)
    (h : (runCalls env (start zero expected index warmup sequence) calls).errors = []) :
    Agrees env (start zero expected index warmup sequence)
      (runCalls env (start zero expected index warmup sequence) calls) calls := by
  induction calls using List.reverseRecOn with
  | nil =>
    refine ⟨⟨rfl, rfl⟩, ⟨?_, rfl, Nat.zero_le _, rfl, rfl, ?_⟩,
      ⟨?_, rfl, ⟨[], rfl, rfl, .nil⟩, rfl, rfl, .nil⟩⟩
    · intro payload hp
      cases hp
    · intro hd
      cases hd
    · intro model
      constructor
      · intro hm
        cases hm
      · intro hm
        cases hm
  | append_singleton calls call ih =>
    rw [runCalls, List.foldl_append] at h ⊢
    exact (ih (errors_of_run h)).run h

end CaptureRecord

end Capture
end FlashNext
