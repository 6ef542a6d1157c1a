import FlashNext.Compare.Closed

/-!
# The prose rows that the reducer handles

The rows and their counts up to the first refusal, and what the checks need of them.
-/

namespace FlashNext
namespace Compare

open Py (Str Value str)

/-! ## The prose rows -/

/-- The usage is an object of three exact integers that add up. -/
def usageMatches (fields : Fields) : Bool :=
  (Value.field fields "usage").asDict?.any fun usage =>
    (["prompt_tokens", "completion_tokens", "total_tokens"].all fun key =>
      (Value.field usage key).asInt?.isSome) &&
    !(decide (intOf (Value.field usage "prompt_tokens") < 0) ||
      intOf (Value.field usage "total_tokens") !=
        intOf (Value.field usage "prompt_tokens") + intOf (Value.field usage "completion_tokens"))

def completionOf (fields : Fields) : Value :=
  Value.field (fieldsOf (Value.field fields "usage")) "completion_tokens"

theorem closed_checkUsage {variant : String} {row : Nat} {fields : Fields} :
    Closed (checkUsage variant row fields) ↔
      (usageMatches fields = true → usable (completionOf fields) = true) := by
  rw [checkUsage, closed_bind]
  cases husage : (Value.field fields "usage").asDict? with
  | none => simp [orReject, Effect.orRaise, usageMatches, husage, refusal]
  | some usage =>
    obtain hdict := Value.asDict?_eq_some.mp husage
    simp only [orReject, Effect.orRaise, closed_ok, Except.ok.injEq, true_and, forall_eq',
      closed_seq, closed_rejectIf, passes_rejectIf, usageMatches, completionOf, hdict]
    have hprints : ([.text variant, .text " row ", .number row, .text " completion_tokens"] :
        List Piece).all Piece.prints = true := rfl
    rw [closed_requireFinitePositive hprints]
    have hfields : fieldsOf (.dict usage) = usage := rfl
    have hints : (Value.dict usage).asDict? = some usage := rfl
    rw [hfields, hints, Option.any_some, Bool.and_eq_true, Bool.not_eq_true', and_imp]
    have hall : (["prompt_tokens", "completion_tokens", "total_tokens"].all fun key =>
        (Value.field usage key).asInt?.isSome) = true ↔
        (["prompt_tokens", "completion_tokens", "total_tokens"].any fun key =>
          (Value.field usage key).asInt?.isNone) = false := by
      simp [Option.isSome_iff_ne_none]
    rw [hall]
    simp

theorem closed_checkWall {variant : String} {row : Nat} {fields : Fields} :
    Closed (checkWall variant row fields) ↔
      usable (Value.field fields "wall_s") = true ∧
        (positive (Value.field fields "wall_s") → usable (Value.field fields "ttft_s") = true) := by
  have hwall : ([.text variant, .text " row ", .number row, .text " wall_s"] :
      List Piece).all Piece.prints = true := rfl
  have httft : ([.text "prose ttft_s"] : List Piece).all Piece.prints = true := rfl
  rw [checkWall, closed_bind, closed_requireFinitePositive hwall]
  refine and_congr_right fun husable => ?_
  have hfloat : floatable (Value.field fields "wall_s") = true := by
    rw [usable, Bool.and_eq_true] at husable
    exact husable.1
  constructor
  · intro h hpositive
    obtain ⟨wall, hok⟩ := (passes_requireFinitePositive _ _).mpr ⟨hpositive, hfloat⟩
    exact (closed_requireFinitePositive httft).mp (closed_bind.mp (h wall hok)).1
  · intro h wall hok
    have hpositive := ((passes_requireFinitePositive _ _).mp ⟨wall, hok⟩).1
    refine closed_bind.mpr ⟨(closed_requireFinitePositive httft).mpr (h hpositive), fun ttft _ => ?_⟩
    exact closed_seq.mpr ⟨closed_rejectIf.mpr fun _ => rfl, fun _ => closed_pure _⟩

theorem closed_checkStated {env : Env} {variant : String} {row : Nat} {fields : Fields}
    {rate : ℚ} : Closed (checkStated env variant row fields rate) ↔
      ((Value.field fields "e2erate").isNone = false →
        convertible env (Value.field fields "e2erate") = true) := by
  rw [checkStated]
  cases hnone : (Value.field fields "e2erate").isNone with
  | true => simp
  | false => simp [closed_bind, closed_floatOf]

/-- The row names itself in the refusal of an invalid one. -/
def invalidPrints (fields : Fields) : Bool :=
  (Value.field fields "case").prints && (Value.field fields "repeat").prints &&
    ((Value.field fields "reason").orElse (Value.field fields "error")).prints

/-- The model and the finish reason of the row are the ones asked for. -/
def identified (fields : Fields) : Bool :=
  (Value.field fields "model").eqv (.str modelId) && isText (Value.field fields "finish_reason") "stop"

/-- The row has a successful raw response. -/
def succeeded (fields : Fields) : Bool :=
  (Value.field fields "ok").isTrue && (Value.field fields "error").isNone &&
    (Value.field fields "raw_events").truthy

/-- The values of a valid row that its checks reach are ones they can use. -/
structure MeasuredUsable (env : Env) (variant : String) (i : Nat) (fields : Fields) : Prop where
  completion : usageMatches fields = true → usable (completionOf fields) = true
  wall : Passes (checkUsage variant i fields) → usable (Value.field fields "wall_s") = true
  ttft : Passes (checkUsage variant i fields) → positive (Value.field fields "wall_s") →
    usable (Value.field fields "ttft_s") = true
  stated : Passes (checkUsage variant i fields) → Passes (checkWall variant i fields) →
    succeeded fields = true → (Value.field fields "e2erate").isNone = false →
    convertible env (Value.field fields "e2erate") = true

structure ProseRowUsable (env : Env) (variant : String) (i : Nat) (fields : Fields) : Prop where
  invalid : (Value.field fields "valid").isTrue = false → invalidPrints fields = true
  measured : (Value.field fields "valid").isTrue = true → identified fields = true →
    MeasuredUsable env variant i fields

theorem closed_checkProseRow {env : Env} {variant : String} {i : Nat} {fields : Fields} :
    Closed (checkProseRow env variant i fields) ↔
      ((missingKeys fields proseKeys).isEmpty = true → ProseRowUsable env variant i fields) := by
  have hidentified : (!(Value.field fields "model").eqv (.str modelId) ||
      !isText (Value.field fields "finish_reason") "stop") = !identified fields := by
    rw [identified, Bool.not_and]
  have hsucceeded : (!(Value.field fields "ok").isTrue || !(Value.field fields "error").isNone ||
      !(Value.field fields "raw_events").truthy) = !succeeded fields := by
    rw [succeeded, Bool.not_and, Bool.not_and]
  have hprints : ([.text variant, .text ": invalid measured row ",
      .value (Value.field fields "case"), .text "#", .value (Value.field fields "repeat"),
      .text ": ", .value ((Value.field fields "reason").orElse (Value.field fields "error"))] :
        List Piece).all Piece.prints = invalidPrints fields := by
    simp [invalidPrints, Bool.and_assoc]
  rw [checkProseRow, hidentified, hsucceeded, closed_seq, closed_rejectIf, passes_rejectIf,
    Bool.not_eq_false']
  refine (and_iff_right fun _ => rfl).trans (imp_congr_right fun _ => ?_)
  rw [closed_seq, closed_rejectIf, passes_rejectIf, hprints, Bool.not_eq_true', Bool.not_eq_false']
  constructor
  · rintro ⟨hinvalid, hrest⟩
    refine ⟨hinvalid, fun hvalid hsame => ?_⟩
    have hmeasured := (closed_seq.mp (hrest hvalid)).2 (passes_rejectIf.mpr (by rw [hsame]; rfl))
    obtain ⟨husage, hmeasured⟩ := closed_bind.mp hmeasured
    have hwall : Passes (checkUsage variant i fields) → Closed (checkWall variant i fields) := by
      rintro ⟨comp, hcomp⟩
      exact (closed_bind.mp (hmeasured comp hcomp)).1
    refine ⟨closed_checkUsage.mp husage, fun hcomp => (closed_checkWall.mp (hwall hcomp)).1,
      fun hcomp => (closed_checkWall.mp (hwall hcomp)).2, ?_⟩
    rintro ⟨comp, hcomp⟩ ⟨wall, hok⟩ hsuccess
    have hlast := (closed_seq.mp ((closed_bind.mp (hmeasured comp hcomp)).2 wall hok)).2
      (passes_rejectIf.mpr (by rw [hsuccess]; rfl))
    exact closed_checkStated.mp (closed_seq.mp hlast).1
  · rintro ⟨hinvalid, hmeasured⟩
    refine ⟨hinvalid, fun hvalid => closed_seq.mpr ⟨closed_rejectIf.mpr fun _ => rfl, fun hsame => ?_⟩⟩
    have hsame : identified fields = true := by simpa using hsame
    obtain ⟨husage, hwall, httft, hstated⟩ := hmeasured hvalid hsame
    refine closed_bind.mpr ⟨closed_checkUsage.mpr husage, fun comp hcomp => ?_⟩
    refine closed_bind.mpr ⟨closed_checkWall.mpr ⟨hwall ⟨comp, hcomp⟩, httft ⟨comp, hcomp⟩⟩,
      fun wall hok => ?_⟩
    refine closed_seq.mpr ⟨closed_rejectIf.mpr fun _ => rfl, fun hsuccess => ?_⟩
    have hsuccess : succeeded fields = true := by simpa using hsuccess
    refine closed_seq.mpr ⟨?_, fun _ => closed_pure _⟩
    exact closed_checkStated.mpr (hstated ⟨comp, hcomp⟩ ⟨wall, hok⟩ hsuccess)

/-- Every prose row that the loop reaches is an object whose values its checks can use. -/
def ProseUsable (env : Env) (variant : String) : Nat → List Value → Prop
  | _, [] => True
  | i, row :: rows =>
    row.asDict?.isSome = true ∧
      (skippedProse (fieldsOf row) = true → ProseUsable env variant (i + 1) rows) ∧
      (skippedProse (fieldsOf row) = false →
        ((missingKeys (fieldsOf row) proseKeys).isEmpty = true →
          ProseRowUsable env variant i (fieldsOf row)) ∧
        (Passes (checkProseRow env variant i (fieldsOf row)) →
          ProseUsable env variant (i + 1) rows))

theorem closed_measuredProseRows {env : Env} {variant : String} {i : Nat} {rows : List Value} :
    Closed (measuredProseRows env variant i rows) ↔ ProseUsable env variant i rows := by
  induction rows generalizing i with
  | nil => exact iff_of_true (closed_ok []) trivial
  | cons row rows ih =>
    rw [measuredProseRows, closed_bind, dictOf, closed_orRaise, ProseUsable]
    refine and_congr_right fun hdict => ?_
    obtain ⟨fields, hfields⟩ := Option.isSome_iff_exists.mp hdict
    have hrow : fieldsOf row = fields := by rw [fieldsOf, hfields, Option.getD_some]
    rw [hfields, hrow]
    simp only [Effect.orRaise, Except.ok.injEq, forall_eq']
    cases hskip : skippedProse fields with
    | true => simp [ih]
    | false =>
      simp only [Bool.false_eq_true, if_false, closed_bind, closed_checkProseRow, closed_pure,
        implies_true, and_true, ih, false_implies, true_and, forall_const]
      refine and_congr_right fun _ => ?_
      exact exists_imp.symm

/-! ## The counts -/

/-- The repeats that a refusal of a case names. -/
def RepeatsUsable (repeats : Nat) (rows : List ProseRow) : Prop :=
  let seen := rows.map fun row => Value.field row.fields "repeat"
  seen.all (fun value => value.asInt?.isSome) = true → (seen.map intOf).Nodup →
    seen.length = repeats →
    (seen.map intOf).insertionSort (· ≤ ·) ≠ (List.range repeats).map Int.ofNat →
    ((seen.map intOf).insertionSort (· ≤ ·)).all Py.fits = true

theorem closed_checkRepeats {variant case : String} {repeats : Nat} {rows : List ProseRow} :
    Closed (checkRepeats variant case repeats rows) ↔ RepeatsUsable repeats rows := by
  rw [checkRepeats, RepeatsUsable]
  simp only [closed_seq, closed_rejectIf, passes_rejectIf, List.all_cons, List.all_nil,
    Piece.prints_text, Piece.prints_number, Piece.prints_repeats, Bool.and_true, Bool.true_and,
    implies_true, true_and, Bool.not_eq_false', decide_eq_true_eq, bne_iff_ne, bne_eq_false_iff_eq]
  refine imp_congr_left ?_
  rw [List.any_eq_false, List.all_eq_true]
  refine forall_congr' fun value => imp_congr_right fun _ => ?_
  cases value.asInt? <;> simp

/-- The rows have the three cases and no others. -/
def casesMatch (rows : List ProseRow) : Bool :=
  (sortedCases.all fun case => !(byCase rows case).isEmpty) &&
    rows.all fun row => sortedCases.any fun case => isText (Value.field row.fields "case") case

/-- Every case can be a key, and the refusals of the repeats can be put into words. -/
def CountsUsable (variant : String) (repeats : Nat) (rows : List ProseRow) : Prop :=
  (rows.all fun row => hashable (Value.field row.fields "case")) = true ∧
    (casesMatch rows = true →
      UpTo (fun case => Passes (checkRepeats variant case repeats (byCase rows case)))
        (fun case => RepeatsUsable repeats (byCase rows case)) sortedCases)

theorem casesMatch_eq (rows : List ProseRow) :
    (!(sortedCases.filter fun case => (byCase rows case).isEmpty).isEmpty ||
      rows.any fun row => !sortedCases.any fun case =>
        isText (Value.field row.fields "case") case) = !casesMatch rows := by
  rw [casesMatch, Bool.not_and, List.not_all_eq_any_not, List.not_all_eq_any_not]
  congr 1
  rw [Bool.eq_iff_iff]
  simp [List.filter_eq_nil_iff]

theorem closed_checkCounts {variant : String} {repeats : Nat} {rows : List ProseRow} :
    Closed (checkCounts variant repeats rows) ↔ CountsUsable variant repeats rows := by
  rw [checkCounts, CountsUsable]
  dsimp only
  rw [casesMatch_eq, closed_seq, closed_reject, passes_reject]
  have hhash : (rows.any fun row => !hashable (Value.field row.fields "case")) = false ↔
      (rows.all fun row => hashable (Value.field row.fields "case")) = true := by
    rw [List.any_eq_false, List.all_eq_true]
    simp
  rw [hhash]
  refine and_congr_right fun hall => ?_
  rw [closed_seq, closed_rejectIf, passes_rejectIf, closed_forM]
  simp only [hall, true_implies, List.all_cons, List.all_nil, Piece.prints_text, Piece.prints_keys,
    Bool.and_true, implies_true, true_and, Bool.not_eq_false', closed_checkRepeats]

theorem byCase_ne_nil {variant case : String} {repeats : Nat} {rows : List ProseRow}
    (h : Passes (checkCounts variant repeats rows)) (hcase : case ∈ proseCases) :
    byCase rows case ≠ [] := by
  obtain ⟨u, h⟩ := h
  rw [checkCounts] at h
  dsimp only at h
  rw [casesMatch_eq] at h
  simp only [Effect.bind_ok, rejectIf_ok, Bool.not_eq_false'] at h
  obtain ⟨-, -, -, hmatch, -⟩ := h
  rw [casesMatch, Bool.and_eq_true, List.all_eq_true] at hmatch
  have hsorted : case ∈ sortedCases := by
    simp only [proseCases, sortedCases, List.mem_cons, List.not_mem_nil, or_false] at hcase ⊢
    tauto
  intro hnil
  have hnot := hmatch.1 case hsorted
  rw [hnil] at hnot
  cases hnot

/-! ## Medians -/

theorem passes_median {xs : List ℚ} (h : xs ≠ []) : median xs = .ok (medianOf xs) := by
  rw [median, if_neg (by rwa [List.isEmpty_iff])]

theorem passes_percentile {xs : List ℚ} {q : ℚ} (h : xs ≠ []) :
    percentile xs q = .ok (percentileOf xs q) := by
  rw [percentile, if_neg (by rwa [List.isEmpty_iff])]

theorem closed_proseLoop {base cand : List ProseRow} {cases : List String}
    (h : ∀ case ∈ cases, byCase base case ≠ [] ∧ byCase cand case ≠ []) :
    Closed (proseLoop base cand cases) := by
  induction cases with
  | nil => exact closed_ok _
  | cons case cases ih =>
    obtain ⟨hbase, hcand⟩ := h case List.mem_cons_self
    have hb : (byCase base case).map ProseRow.rate ≠ [] := by
      rwa [ne_eq, List.map_eq_nil_iff]
    have hc : (byCase cand case).map ProseRow.rate ≠ [] := by
      rwa [ne_eq, List.map_eq_nil_iff]
    rw [proseLoop, passes_median hb, passes_median hc]
    refine closed_bind.mpr ⟨closed_ok _, fun b _ => closed_bind.mpr ⟨closed_ok _, fun c _ => ?_⟩⟩
    split
    · exact closed_pure _
    · split
      · refine closed_bind.mpr ⟨ih fun case' hcase' => h case' (List.mem_cons_of_mem _ hcase'),
          fun _ _ => closed_pure _⟩
      · exact closed_pure _

theorem closed_proseStage {repeats : Nat} {base cand : List ProseRow} {gates : Gates} :
    Closed (proseStage repeats base cand gates) ↔ CountsUsable "baseline" repeats base ∧
      (Passes (checkCounts "baseline" repeats base) → CountsUsable "candidate" repeats cand) := by
  rw [proseStage, closed_bind, closed_caught, closed_seq, closed_checkCounts, closed_checkCounts]
  refine and_iff_left_of_imp fun _ counts hcounts => ?_
  cases counts with
  | error message => exact closed_pure _
  | ok u =>
    have hpasses := caught_ok.mp hcounts
    simp only [Effect.bind_ok] at hpasses
    obtain ⟨_, hbase, hcand⟩ := hpasses
    refine closed_bind.mpr ⟨closed_proseLoop fun case hcase => ?_, fun _ _ => closed_pure _⟩
    exact ⟨byCase_ne_nil ⟨_, hbase⟩ hcase, byCase_ne_nil ⟨_, hcand⟩ hcase⟩

end Compare
end FlashNext
