import FlashNext.Compare.Sound

/-!
# The coverage of the vision gates

`checkEvidenceBinding` leaves out the rows whose `warmup` is `True`, the vision gate and the gain
of a vision lever those whose `warmup` is truthy.  A row between the two tests counts for the
43 cases and is read by no gate.
-/

namespace FlashNext
namespace Compare

open Py (Str Value str)

/-! ## The rows that a gate reads -/

theorem isMeasured_of_isGated {fields : Fields} (h : isGated fields = true) :
    isMeasured fields = true := by
  rw [isGated, Bool.not_eq_true'] at h
  rw [isMeasured, Bool.not_eq_true', ← Bool.not_eq_true]
  intro htrue
  rw [Value.isTrue_iff.mp htrue] at h
  cases h

/-- The only mark of a warmup is `True`. -/
def MarksAgree (rows : List Value) : Prop :=
  ∀ row ∈ rows, (Value.field (fieldsOf row) "warmup").truthy = true →
    Value.field (fieldsOf row) "warmup" = .bool true

/-- The two tests keep the same rows where no other mark is truthy, and only there. -/
theorem measuredRows_eq_gatedRows {rows : List Value} :
    measuredRows rows = gatedRows rows ↔ MarksAgree rows := by
  constructor
  · intro h row hrow htruthy
    by_contra hmark
    have hmeasured : row ∈ measuredRows rows := by
      apply List.mem_filter.mpr
      rw [isMeasured, Bool.not_eq_true', ← Bool.not_eq_true, Value.isTrue_iff]
      exact ⟨hrow, hmark⟩
    rw [h] at hmeasured
    have hgated := (List.mem_filter.mp hmeasured).2
    rw [isGated, htruthy] at hgated
    cases hgated
  · intro h
    apply List.filter_congr
    intro row hrow
    by_cases hgated : isGated (fieldsOf row) = true
    · rw [hgated, isMeasured_of_isGated hgated]
    · rw [Bool.not_eq_true] at hgated
      have htruthy := hgated
      rw [isGated, Bool.not_eq_false'] at htruthy
      rw [hgated, isMeasured, h row hrow htruthy]
      rfl

theorem gatedRows_sublist (rows : List Value) : (gatedRows rows).Sublist (measuredRows rows) := by
  have hfilter : gatedRows rows = (measuredRows rows).filter fun row => isGated (fieldsOf row) := by
    rw [gatedRows, measuredRows, List.filter_filter]
    apply List.filter_congr
    intro row _
    by_cases hgated : isGated (fieldsOf row) = true
    · rw [hgated, isMeasured_of_isGated hgated]
      rfl
    · rw [Bool.not_eq_true] at hgated
      rw [hgated]
      rfl
  rw [hfilter]
  exact List.filter_sublist

/-! ## The gain of a vision lever -/

theorem gainMetrics_ok {metric : String} {rows : List Value} {out : List ℚ}
    (h : gainMetrics metric rows = .ok out) : out = (gatedRows rows).map (metricOf metric) := by
  simp only [gainMetrics, Effect.bind_ok] at h
  obtain ⟨fields, hfields, hmetrics⟩ := h
  have hdict (row : Value) (fs : Fields) (hrow : dictOf row = .ok fs) : fs = fieldsOf row := by
    rw [dictOf_ok.mp hrow]
    rfl
  obtain rfl := Effect.mapM_eq_map hdict hfields
  have hnumber (fs : Fields) (q : ℚ)
      (hrow : (do
        let value ← item fs metric
        requireFinitePositive value [.text metric]) = .ok q) :
      q = (number? (Value.field fs metric)).getD 0 := by
    simp only [Effect.bind_ok, item_ok, requireFinitePositive_ok] at hrow
    obtain ⟨value, hvalue, ⟨hq, -⟩, -⟩ := hrow
    rw [field_of_lookup hvalue, hq]
    rfl
  rw [Effect.mapM_eq_map hnumber hmetrics, List.filter_map, List.map_map]
  rfl

/-- The metric whose gain a run asks for, when its lever is a vision lever. -/
def gainMetric (manifest : Fields) : Option String :=
  if isVisionLever manifest then visionMetric manifest else none

theorem leverStage_pass {manifest : Fields} {base cand : List Value} {metric : String}
    (h : Goes (leverStage manifest base cand)) (hmetric : gainMetric manifest = some metric) :
    gainMetrics metric base = .ok ((gatedRows base).map (metricOf metric)) ∧
      gainMetrics metric cand = .ok ((gatedRows cand).map (metricOf metric)) := by
  obtain ⟨gates, gates', h⟩ := h
  unfold leverStage at h
  unfold gainMetric at hmetric
  by_cases hlever : isVisionLever manifest = true
  · rw [if_pos hlever] at h hmetric
    simp only [hmetric, Effect.bind_ok, orReject_ok, Option.some.injEq] at h
    obtain ⟨_, rfl, bs, hbs, _, -, cs, hcs, -⟩ := h
    rw [← gainMetrics_ok hbs, ← gainMetrics_ok hcs]
    exact ⟨hbs, hcs⟩
  · rw [if_neg hlever] at hmetric
    cases hmetric

/-! ## The coverage -/

/-- The gates read the measured rows of a side, all of them and no other. -/
structure Covered (variant : String) (metric : Option String) (rows : List Value) : Prop where
  gate : ttfts variant rows = .ok ((measuredRows rows).map (metricOf "ttft_s"))
  valid : ∀ row ∈ measuredRows rows, VisionEvidence row
  gain : ∀ m, metric = some m → gainMetrics m rows = .ok ((measuredRows rows).map (metricOf m))

def AllCovered (input : Input) : Prop :=
  Covered "baseline" (gainMetric (fieldsOf input.cand.manifest)) (laneRows input.base .vision) ∧
    Covered "candidate" (gainMetric (fieldsOf input.cand.manifest)) (laneRows input.cand .vision)

theorem Covered.marksAgree {variant : String} {metric : Option String} {rows : List Value}
    (h : Covered variant metric rows) : MarksAgree rows := by
  have hsame := (ttfts_ok h.gate).1
  have hlength : (gatedRows rows).length = (measuredRows rows).length := by
    have hlengths := congrArg List.length hsame
    rw [List.length_map, List.length_map] at hlengths
    exact hlengths.symm
  exact measuredRows_eq_gatedRows.mp ((gatedRows_sublist rows).eq_of_length hlength).symm

/-- Where a run passes, the gates cover both sides when no vision row has a truthy `warmup` other
than `True`, and only then. -/
theorem allCovered_iff (env : Env) (repeats : Nat) (input : Input) (r : Report)
    (h : compare env repeats input = .ok r) (hpass : r.verdict = .pass) :
    AllCovered input ↔
      MarksAgree (laneRows input.base .vision) ∧ MarksAgree (laneRows input.cand .vision) := by
  constructor
  · rintro ⟨hbase, hcand⟩
    exact ⟨hbase.marksAgree, hcand.marksAgree⟩
  · rintro ⟨hbase, hcand⟩
    obtain ⟨_, _, hpassed⟩ := compare_pass h hpass
    obtain ⟨-, -, hvisions⟩ := missingLanes_empty hpassed.complete
    obtain ⟨b, c, hb, hc, hvision⟩ :=
      (visionStage_pass hpassed.vision).resolve_left fun hnone => hvisions hnone.1
    have hlever := hpassed.lever
    rw [hb, hc, Option.getD_some, Option.getD_some] at hlever
    rw [laneRows, hb, Option.getD_some] at hbase
    rw [laneRows, hc, Option.getD_some] at hcand
    rw [AllCovered, laneRows, laneRows, hb, hc, Option.getD_some, Option.getD_some]
    have hbrows := measuredRows_eq_gatedRows.mpr hbase
    have hcrows := measuredRows_eq_gatedRows.mpr hcand
    refine ⟨⟨?_, ?_, fun m hm => ?_⟩, ⟨?_, ?_, fun m hm => ?_⟩⟩
    · rw [hbrows]
      exact hvision.baseTtfts
    · rw [hbrows]
      exact hvision.baseRows
    · rw [hbrows]
      exact (leverStage_pass hlever hm).1
    · rw [hcrows]
      exact hvision.candTtfts
    · rw [hcrows]
      exact hvision.candRows
    · rw [hcrows]
      exact (leverStage_pass hlever hm).2

theorem allCovered_iff_sample :
    passes (compare sampleEnv 5 (sampleInput (.bool false) true 2)) = true ∧
      (AllCovered (sampleInput (.bool false) true 2) ↔
        MarksAgree (laneRows (sampleInput (.bool false) true 2).base .vision) ∧
          MarksAgree (laneRows (sampleInput (.bool false) true 2).cand .vision)) := by
  obtain ⟨r, hrun, hpass⟩ := passes_iff.mp sample_passes.1
  exact ⟨sample_passes.1,
    allCovered_iff sampleEnv 5 (sampleInput (.bool false) true 2) r hrun hpass⟩

/-- A candidate row whose `warmup` is 1 counts as a case, is not valid and takes 1000 seconds to
its first token, and the run passes. -/
theorem escaped_row :
    ¬ ∀ (env : Env) (repeats : Nat) (input : Input) (r : Report),
      compare env repeats input = .ok r → r.verdict = .pass → AllCovered input := by
  intro hall
  obtain ⟨r, hrun, hpass⟩ := passes_iff.mp sample_passes.2
  have hmarks := (hall _ _ _ r hrun hpass).2.marksAgree
  have hrow : visionRow true 42 (.int 1) false 1000 ∈
      laneRows (sampleInput (.int 1) false 1000).cand .vision :=
    List.mem_append_right _ List.mem_cons_self
  have hmark := hmarks _ hrow (by decide)
  have hother : Value.field (fieldsOf (visionRow true 42 (.int 1) false 1000)) "warmup" = .int 1 := by
    decide
  rw [hother] at hmark
  cases hmark

end Compare
end FlashNext
