import FlashNext.Capture.Sound
import Mathlib.Algebra.Order.Ring.Cast
import Mathlib.Algebra.Order.Ring.Rat

/-!
# Cache hits

A measured request must not have hit the cache.  Cache details must agree over all events, so
the last ones stand for all that the record gets to see; but of the usages the last alone is
looked at, and of an event whose choices cannot be read the details are not.  A valid capture
shows that nothing was cached exactly when nothing else is reported there (`cold_iff`).
-/

namespace FlashNext
namespace Capture

open Text Py

/-- A positive number. -/
def positive : Value → Bool
  | .bool b => b
  | .int n => 0 < n
  | .float q => 0 < q
  | .nonfinite .inf => true
  | _ => false

/-- Cache details with a positive counter. -/
def detailsHit (details : Value) : Bool :=
  details.asDict?.any fun fields =>
    ["device", "host", "storage"].any fun key => positive (Value.field fields key)

/-- A usage with positive cached tokens. -/
def usageHit (usage : Value) : Bool :=
  usage.asDict?.any fun fields => positive (CaptureRecord.aggregateOf fields)

/-- The event reports a cache hit. -/
def reportsHit (data : List (Str × Value)) : Bool :=
  (reportedDetails data).any detailsHit || usageHit (Value.field data "usage")

/-- No hit stands where the record does not look: in a usage that is superseded, or in an event
that breaks. -/
def HitsSeen (events : List (List (Str × Value))) : Prop :=
  (∀ usage ∈ (usages events).dropLast, usageHit usage = false) ∧
    ∀ data ∈ events, breaks data = true → (reportedDetails data).any detailsHit = false

instance (events : List (List (Str × Value))) : Decidable (HitsSeen events) :=
  inferInstanceAs (Decidable (_ ∧ _))

theorem positive_canon (v : Value) : positive v.canon = positive v := by
  cases v with
  | bool b => cases b <;> simp [Value.canon, positive]
  | int n =>
    show decide (0 < (n : ℚ)) = decide (0 < n)
    rw [decide_eq_decide, Int.cast_pos]
  | _ => rfl

/-- Equal details report the same. -/
theorem detailsHit_canon {a b : Value} (h : a.canon = b.canon) : detailsHit a = detailsHit b := by
  have hnone {v : Value} (hv : v.asDict? = none) : v.canon.asDict? = none := by
    cases v with
    | dict fs => cases hv
    | _ => rfl
  have hcanon (v : Value) : detailsHit v.canon = detailsHit v := by
    cases v with
    | dict fs =>
      show (["device", "host", "storage"].any fun key =>
        positive (Value.field (Value.canonFields fs) key)) = _
      simp only [Value.field_canonFields, positive_canon]
      rfl
    | _ => rfl
  rw [← hcanon a, h, hcanon b]

theorem positive_of_countOf {v : Value} (h : countOf v = some 0) : positive v = false := by
  cases v with
  | int n =>
    rw [countOf] at h
    split at h
    · have hn := Option.some.inj h
      rw [positive, decide_eq_false_iff_not]
      omega
    · cases h
  | _ => cases h

/-- Details that sum up to nothing report no hit. -/
theorem detailsHit_of_detailsCached {details : Value}
    (h : CaptureRecord.detailsCached details = some 0) : detailsHit details = false := by
  obtain ⟨fields, hfields, h⟩ := Option.bind_eq_some_iff.mp h
  obtain ⟨device, hdevice, h⟩ := Option.bind_eq_some_iff.mp h
  obtain ⟨host, hhost, h⟩ := Option.bind_eq_some_iff.mp h
  obtain ⟨storage, hstorage, h⟩ := Option.bind_eq_some_iff.mp h
  have hsum : device + host + storage = 0 := Option.some.inj h
  obtain rfl : device = 0 := by omega
  obtain rfl : host = 0 := by omega
  obtain rfl : storage = 0 := by omega
  have hpositive : positive (Value.field fields "storage") = false := by
    unfold CaptureRecord.storageOf at hstorage
    split at hstorage
    · next hnone =>
      rw [Value.isNone_iff.mp hnone]
      rfl
    · exact positive_of_countOf hstorage
  rw [detailsHit, hfields, Option.any_some]
  simp [positive_of_countOf hdevice, positive_of_countOf hhost, hpositive]

/-- A last usage that does not contradict an empty cache reports no hit. -/
theorem usageHit_of_last {usage : ObservedUsage}
    (h : CaptureRecord.contradictory (some usage) (some 0) = false) :
    usageHit (.dict usage.fields) = false := by
  show positive (CaptureRecord.aggregateOf usage.fields) = false
  rw [CaptureRecord.contradictory, Option.any_some, Bool.and_eq_false_iff] at h
  rcases h with hnone | hcount
  · rw [Bool.not_eq_false', Value.isNone_iff] at hnone
    rw [hnone]
    rfl
  · rw [Bool.or_eq_false_iff, decide_eq_false_iff_not, not_not] at hcount
    exact positive_of_countOf hcount.2

/-- The details that the record gets to see are equal to the last. -/
theorem details_canon {r : CaptureRecord} {events : List (List (Str × Value))}
    (h : r.Heard events) {x : Value} (hx : x ∈ details events) :
    x.canon = r.cacheDetails.canon := by
  have htrans : Trans (fun a b : Value => b.eqv a = true) (fun a b : Value => b.eqv a = true)
      (fun a b : Value => b.eqv a = true) := ⟨eqv_trans⟩
  have hpairwise := h.steady.pairwise
  obtain ⟨front, last, hlast⟩ := List.eq_nil_or_concat' (details events) |>.resolve_left
    (List.ne_nil_of_mem hx)
  have hcache : r.cacheDetails = last := by
    rw [h.cache, hlast, List.getLast?_concat]
    rfl
  rw [hcache]
  rw [hlast] at hx hpairwise
  rcases List.mem_append.mp hx with hfront | hsame
  · have heqv := (List.pairwise_append.mp hpairwise).2.2 x hfront last
      (List.mem_singleton_self last)
    exact (Value.eqv_iff.mp heqv).1.symm
  · rw [List.mem_singleton.mp hsame]

/-- Details that were seen leave no room for an elided zero. -/
theorem detailsHit_of_observation {r : CaptureRecord} {events : List (List (Str × Value))}
    (h : r.Heard events) {x : Value} (hx : x ∈ details events) {source : CacheSource}
    (hobservation : r.cacheObservation [] true = some (0, source)) :
    detailsHit r.cacheDetails = false := by
  have hseen : r.cacheDetailsSeen = true := by
    rw [h.seen, Bool.not_eq_true', List.isEmpty_eq_false_iff]
    exact List.ne_nil_of_mem hx
  unfold CaptureRecord.cacheObservation at hobservation
  cases hcached : CaptureRecord.detailsCached r.cacheDetails with
  | none =>
    rw [hcached, hseen] at hobservation
    cases hobservation
  | some cached =>
    rw [hcached] at hobservation
    have hzero : cached = 0 := congrArg Prod.fst (Option.some.inj hobservation)
    exact detailsHit_of_detailsCached (hzero ▸ hcached)

theorem usages_getLast? {r : CaptureRecord} {events : List (List (Str × Value))}
    (h : r.Heard events) :
    (usages events).getLast? = r.usage.map fun usage => .dict usage.fields := by
  obtain ⟨observed, husages, husage, -⟩ := h.counted
  rw [husages, husage, List.getLast?_map]

theorem mem_dropLast_or_getLast? {α : Type} {xs : List α} {x : α} (h : x ∈ xs) :
    x ∈ xs.dropLast ∨ xs.getLast? = some x := by
  obtain ⟨front, last, rfl⟩ := (List.eq_nil_or_concat' xs).resolve_left (List.ne_nil_of_mem h)
  rw [List.dropLast_concat, List.getLast?_concat]
  rcases List.mem_append.mp h with hfront | hlast
  · exact .inl hfront
  · exact .inr (congrArg some (List.mem_singleton.mp hlast).symm)

/-- When a measured request is marked valid, no event of the stream reported a cache hit exactly
when none stands where the record does not look. -/
theorem cold_iff {env : Digests} {expected : List (Str × Value)} {index sequence : Nat}
    {contract : Option Value} {start : CaptureRecord} {calls : List Call} {output : Output}
    (hnew : CaptureRecord.new env expected index false sequence contract = .ok start)
    (hvalid : Valid (runCalls env start calls) output) :
    (∀ data ∈ objects calls, reportsHit data = false) ↔ HitsSeen (objects calls) := by
  obtain ⟨-, hwarmup, hsame, htold, hheard⟩ := agrees_of_valid hnew hvalid
  obtain ⟨observation, hfinal⟩ := hvalid
  obtain ⟨hcomplete, -, cached, source, -, hobservation, hcold, hcontradictory⟩ :=
    CaptureRecord.finalErrors_clean hfinal
  obtain rfl : cached = 0 := hcold (hsame.warmup.trans hwarmup)
  have husageOf {usage : Value} (hmem : usage ∈ usages (objects calls)) :
      ∃ data ∈ objects calls, Value.field data "usage" = usage := by
    obtain ⟨hmem, -⟩ := List.mem_filter.mp hmem
    exact List.mem_map.mp hmem
  constructor
  · intro h
    refine ⟨fun usage hmem => ?_, fun data hmem _ => ?_⟩
    · obtain ⟨data, hdata, rfl⟩ := husageOf (List.dropLast_subset _ hmem)
      exact (Bool.or_eq_false_iff.mp (h data hdata)).2
    · exact (Bool.or_eq_false_iff.mp (h data hmem)).1
  · rintro ⟨hsuperseded, hbroken⟩ data hdata
    rw [reportsHit, Bool.or_eq_false_iff]
    constructor
    · cases hbreaks : breaks data with
      | true => exact hbroken data hdata hbreaks
      | false =>
        cases hdetails : reportedDetails data with
        | none => rfl
        | some x =>
          have hx : x ∈ details (objects calls) := by
            refine List.mem_filterMap.mpr ⟨data, hdata, ?_⟩
            rw [observedDetails, hbreaks]
            exact hdetails
          rw [Option.any_some, detailsHit_canon (details_canon hheard hx)]
          exact detailsHit_of_observation hheard hx hobservation
    · obtain ⟨usage, husage, -⟩ := hcomplete.usage
      rw [husage] at hcontradictory
      cases hvalue : (Value.field data "usage").isNone with
      | true =>
        rw [Value.isNone_iff.mp hvalue]
        rfl
      | false =>
        have hmem : Value.field data "usage" ∈ usages (objects calls) := by
          refine List.mem_filter.mpr ⟨List.mem_map_of_mem hdata, ?_⟩
          rw [decide_eq_true_eq]
          intro hnone
          rw [Value.isNone_iff.mpr hnone] at hvalue
          cases hvalue
        rcases mem_dropLast_or_getLast? hmem with hfront | hlast
        · exact hsuperseded _ hfront
        · rw [usages_getLast? hheard, husage] at hlast
          rw [← Option.some.inj hlast]
          exact usageHit_of_last hcontradictory

/-- A usage that reports five cached tokens. -/
def sampleHit : Value :=
  sampleUsage [(str "prompt_tokens_details", .dict [(str "cached_tokens", .int 5)])]

theorem cold_sample :
    HitsSeen (objects (sampleCalls [sampleEvent (sampleUsage [])])) ∧
      ∀ data ∈ objects (sampleCalls [sampleEvent (sampleUsage [])]), reportsHit data = false :=
  have hseen : HitsSeen (objects (sampleCalls [sampleEvent (sampleUsage [])])) := by decide
  ⟨hseen, (@cold_iff sampleDigests sampleExpected 0 0 none sampleStart
    (sampleCalls [sampleEvent (sampleUsage [])]) sampleOutput rfl ⟨_, rfl⟩).mpr hseen⟩

/-- The hit of a superseded usage is forgotten. -/
theorem cold_superseded :
    ¬ ∀ (env : Digests) (expected : List (Str × Value)) (index sequence : Nat)
      (contract : Option Value) (start : CaptureRecord) (calls : List Call) (output : Output),
      CaptureRecord.new env expected index false sequence contract = .ok start →
      Valid (runCalls env start calls) output →
      ∀ data ∈ objects calls, reportsHit data = false := by
  intro h
  have hnone := h sampleDigests sampleExpected 0 0 none sampleStart
    (sampleCalls [sampleEvent sampleHit, sampleEvent (sampleUsage [])]) sampleOutput rfl ⟨_, rfl⟩
  exact absurd hnone (by decide)

end Capture
end FlashNext
