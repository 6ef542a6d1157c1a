import FlashNext.Compare.Coverage
import FlashNext.Compare.Faster

/-!
# Better candidates

The order of the prose and of the vision rows does not matter to a comparison that passes, and it
still passes when measured candidate rows took less wall time or answered sooner: `compare_eased`.
-/

namespace FlashNext
namespace Compare

open Py (Str Value str)
open Stats (Below)

/-! ## The vision rows -/

/-- The row answered sooner. -/
structure LowersTtft (fields fields' : Fields) : Prop where
  agree : AgreeBut ["ttft_s"] fields fields'
  ttft : ∃ ttft ttft', number? (Value.field fields "ttft_s") = some ttft ∧
    number? (Value.field fields' "ttft_s") = some ttft' ∧ 0 < ttft' ∧ ttft' ≤ ttft
  double : isDouble (Value.field fields "ttft_s") = true

inductive EasedVision : Value → Value → Prop where
  | same (row : Value) : EasedVision row row
  | lowered (fields fields' : Fields) : LowersTtft fields fields' →
    EasedVision (.dict fields) (.dict fields')

theorem EasedVision.dict {row row' : Value} (h : EasedVision row row')
    (hfields : ∃ fields, row = .dict fields) : ∃ fields, row' = .dict fields := by
  cases h with
  | same => exact hfields
  | lowered fields fields' _ => exact ⟨fields', rfl⟩

theorem EasedVision.gated {row row' : Value} (h : EasedVision row row') :
    isGated (fieldsOf row') = isGated (fieldsOf row) := by
  cases h with
  | same => rfl
  | lowered fields fields' hlowers =>
    show isGated fields' = isGated fields
    rw [isGated, isGated, hlowers.agree.field (by decide)]

section Rows

variable {variant : String} {rows mid rows' : List Value}

/-- Rows with the property that keep it when they are changed one by one and put into another
order. -/
theorem gated_eased {β : Type} {M : Value → β → Prop} {F : β → β → Prop} {ys : List β}
    (hstep : ∀ row row' y, EasedVision row row' → M row y → ∃ y', M row' y' ∧ F y y')
    (hys : List.Forall₂ M (gatedRows rows) ys) (hmid : List.Forall₂ EasedVision rows mid)
    (hperm : mid.Perm rows') : ∃ ymid ys', List.Forall₂ M (gatedRows rows') ys' ∧
      List.Forall₂ F ys ymid ∧ ymid.Perm ys' :=
  forall₂_kept (fun _ _ heased => heased.gated) hstep hys hmid hperm

/-- The row is gated with its time to the first token. -/
def Answers (row : Value) (ttft : ℚ) : Prop := visionTtft "" 0 (fieldsOf row) = .ok ttft

theorem visionTtft_any {variant variant' : String} {i i' : Nat} {fields : Fields} {ttft : ℚ}
    (h : visionTtft variant i fields = .ok ttft) : visionTtft variant' i' fields = .ok ttft := by
  simp only [visionTtft, Effect.bind_ok, rejectIf_ok, requireFinitePositive_ok] at h ⊢
  exact h

theorem Answers.lowered {fields fields' : Fields} {ttft : ℚ} (h : Answers (.dict fields) ttft)
    (hlowers : LowersTtft fields fields') :
    ∃ ttft', Answers (.dict fields') ttft' ∧ ttft' ≤ ttft := by
  obtain ⟨old, new, hold, hnew, hpos, hle⟩ := hlowers.ttft
  have hfield : ∀ key, key ∉ ["ttft_s"] → Value.field fields' key = Value.field fields key :=
    fun _ hkey => hlowers.agree.field hkey
  have h : visionTtft "" 0 fields = .ok ttft := h
  show ∃ ttft', visionTtft "" 0 fields' = .ok ttft' ∧ ttft' ≤ ttft
  simp only [visionTtft, Effect.bind_ok, rejectIf_ok, requireFinitePositive_ok] at h ⊢
  obtain ⟨-, herror, -, hvalid, -, -, ⟨hnumber, -⟩, hfloat⟩ := h
  obtain rfl : old = ttft := Option.some.inj (hold.symm.trans hnumber)
  have hsome : (Value.field fields' "ttft_s").isNone = false := by
    cases hvalue : Value.field fields' "ttft_s" with
    | none =>
      rw [hvalue] at hnew
      cases hnew
    | _ => rfl
  rw [hfield "error" (by decide), hfield "valid" (by decide), hfield "finish_reason" (by decide)]
  exact ⟨new, ⟨(), herror, (), hvalid, (), hsome, ⟨hnew, hpos⟩,
    floatable_of_le hold hfloat hlowers.double hnew hpos hle⟩, hle⟩

theorem ttftsFrom_iff {i : Nat} {out : List ℚ} : ttftsFrom variant i rows = .ok out ↔
    (∀ row ∈ rows, ∃ fields, row = .dict fields) ∧ List.Forall₂ Answers (gatedRows rows) out := by
  induction rows generalizing i out with
  | nil =>
    rw [ttftsFrom, Except.ok.injEq, gatedRows, List.filter_nil, List.forall₂_nil_left_iff, eq_comm]
    exact (and_iff_right fun row hrow => absurd hrow List.not_mem_nil).symm
  | cons row rows ih =>
    rw [ttftsFrom, Effect.bind_ok, List.forall_mem_cons, gatedRows, List.filter_cons]
    constructor
    · rintro ⟨fields, hfields, h⟩
      obtain rfl := dictOf_ok.mp hfields
      by_cases hgated : isGated fields = true
      · rw [if_pos hgated] at h
        rw [if_pos (show isGated (fieldsOf (.dict fields)) = true from hgated)]
        simp only [Effect.bind_ok, Effect.pure_ok] at h
        obtain ⟨ttft, httft, rest, hrest, rfl⟩ := h
        obtain ⟨hdicts, hall⟩ := ih.mp hrest
        exact ⟨⟨⟨fields, rfl⟩, hdicts⟩, .cons (visionTtft_any httft) hall⟩
      · rw [if_neg hgated] at h
        rw [if_neg (show ¬ isGated (fieldsOf (.dict fields)) = true from hgated)]
        obtain ⟨hdicts, hall⟩ := ih.mp h
        exact ⟨⟨⟨fields, rfl⟩, hdicts⟩, hall⟩
    · rintro ⟨⟨⟨fields, rfl⟩, hdicts⟩, hall⟩
      refine ⟨fields, rfl, ?_⟩
      by_cases hgated : isGated fields = true
      · rw [if_pos (show isGated (fieldsOf (.dict fields)) = true from hgated)] at hall
        rw [if_pos hgated]
        obtain ⟨ttft, rest, httft, hrest, rfl⟩ := List.forall₂_cons_left_iff.mp hall
        simp only [Effect.bind_ok, Effect.pure_ok]
        exact ⟨ttft, visionTtft_any httft, rest, ih.mpr ⟨hdicts, hrest⟩, rfl⟩
      · rw [if_neg (show ¬ isGated (fieldsOf (.dict fields)) = true from hgated)] at hall
        rw [if_neg hgated]
        exact ih.mpr ⟨hdicts, hall⟩

theorem ttfts_iff {out : List ℚ} : ttfts variant rows = .ok out ↔
    (∀ row ∈ rows, ∃ fields, row = .dict fields) ∧
      List.Forall₂ Answers (gatedRows rows) out ∧ 2 ≤ out.length := by
  simp only [ttfts, Effect.bind_ok, rejectIf_ok, Effect.pure_ok, ttftsFrom_iff,
    decide_eq_false_iff_not, not_lt]
  constructor
  · rintro ⟨out, ⟨hdicts, hall⟩, -, hlength, rfl⟩
    exact ⟨hdicts, hall, hlength⟩
  · rintro ⟨hdicts, hall, hlength⟩
    exact ⟨out, ⟨hdicts, hall⟩, (), hlength, rfl⟩

/-- The times to the first token of eased rows are no greater. -/
theorem ttfts_eased {out : List ℚ} (h : ttfts variant rows = .ok out)
    (hmid : List.Forall₂ EasedVision rows mid) (hperm : mid.Perm rows') :
    ∃ out', ttfts variant rows' = .ok out' ∧ Below out' out := by
  obtain ⟨hdicts, hall, hlength⟩ := ttfts_iff.mp h
  obtain ⟨omid, out', hout', hle, hout⟩ := gated_eased (F := fun x y => y ≤ x)
    (fun row row' ttft heased hanswers => by
      cases heased with
      | same => exact ⟨ttft, hanswers, le_refl ttft⟩
      | lowered fields fields' hlowers => exact hanswers.lowered hlowers) hall hmid hperm
  have hdicts' := dicts_eased (fun _ _ heased => heased.dict) hdicts hmid hperm
  refine ⟨out', ttfts_iff.mpr ⟨hdicts', hout', ?_⟩, ?_⟩
  · rw [← hout.length_eq, ← hle.length_eq]
    exact hlength
  · exact (Stats.below_of_forall₂ hle.flip).perm_left hout.symm

theorem ttfts_perm {out : List ℚ} (h : ttfts variant rows = .ok out) (hperm : rows.Perm rows') :
    ∃ out', ttfts variant rows' = .ok out' ∧ out.Perm out' := by
  obtain ⟨hdicts, hall, hlength⟩ := ttfts_iff.mp h
  obtain ⟨out', hout', hout⟩ := List.perm_comp_forall₂ (hperm.filter _).symm hall
  refine ⟨out', ttfts_iff.mpr ⟨fun row hrow => hdicts row (hperm.mem_iff.mpr hrow), hout', ?_⟩,
    hout.symm⟩
  rw [hout.length_eq]
  exact hlength

/-! ## The identities -/

/-- The identity that a row states. -/
def identity? (fields : Fields) : Option Identity :=
  (Value.field fields "case_id").asStr?.bind fun case =>
    (Value.field fields "repeat").asInt?.bind fun rep =>
      ((Value.field fields "input_sha256").asStr?.filter (·.length == 64)).map fun input =>
        ((case, rep), input)

theorem identityOf_ok {seen : List Identity} {fields : Fields} {identity : Identity} :
    identityOf seen fields = .ok identity ↔
      identity? fields = some identity ∧ identity.1 ∉ seen.map (·.1) := by
  simp only [identityOf, identity?, Effect.bind_ok, orReject_ok, rejectIf_ok, Effect.pure_ok,
    Option.bind_eq_some_iff, Option.map_eq_some_iff]
  constructor
  · rintro ⟨case, hcase, rep, hrep, -, hnew, input, hinput, rfl⟩
    refine ⟨⟨case, hcase, rep, hrep, input, hinput, rfl⟩, fun hseen => ?_⟩
    obtain ⟨other, hother, heq⟩ := List.mem_map.mp hseen
    exact List.any_eq_false.mp hnew other hother (beq_iff_eq.mpr heq)
  · rintro ⟨⟨case, hcase, rep, hrep, input, hinput, rfl⟩, hnew⟩
    refine ⟨case, hcase, rep, hrep, (), ?_, input, hinput, rfl⟩
    refine List.any_eq_false.mpr fun other hother heq => hnew ?_
    exact List.mem_map.mpr ⟨other, hother, beq_iff_eq.mp heq⟩

theorem identitiesFrom_ok {fields : List Fields} {seen out : List Identity}
    (hseen : (seen.map (·.1)).Nodup) : identitiesFrom seen fields = .ok out ↔
      ∃ rest, out = seen ++ rest ∧
        List.Forall₂ (fun fs identity => identity? fs = some identity) fields rest ∧
        (out.map (·.1)).Nodup := by
  induction fields generalizing seen with
  | nil =>
    rw [identitiesFrom, Except.ok.injEq]
    constructor
    · rintro rfl
      exact ⟨[], (List.append_nil _).symm, .nil, hseen⟩
    · rintro ⟨rest, rfl, hrest, -⟩
      cases hrest
      exact (List.append_nil _).symm
  | cons fs fields ih =>
    rw [identitiesFrom, Effect.bind_ok]
    constructor
    · rintro ⟨identity, hidentity, h⟩
      obtain ⟨hstates, hnew⟩ := identityOf_ok.mp hidentity
      have hseen' : ((seen ++ [identity]).map (·.1)).Nodup := by
        rw [List.map_append]
        exact hseen.append (List.nodup_singleton _) (List.disjoint_singleton.mpr hnew)
      obtain ⟨rest, rfl, hrest, hnodup⟩ := (ih hseen').mp h
      exact ⟨identity :: rest, List.append_assoc _ _ _, .cons hstates hrest, hnodup⟩
    · rintro ⟨rest, rfl, hrest, hnodup⟩
      obtain ⟨identity, tail, hstates, htail, rfl⟩ := List.forall₂_cons_left_iff.mp hrest
      have hsplit : seen ++ identity :: tail = seen ++ [identity] ++ tail := by
        rw [List.append_assoc]
        rfl
      have hseen' : ((seen ++ [identity]).map (·.1)).Nodup := by
        have hall := hnodup
        rw [hsplit, List.map_append] at hall
        exact hall.of_append_left
      refine ⟨identity, identityOf_ok.mpr ⟨hstates, fun hmem => ?_⟩,
        (ih hseen').mpr ⟨tail, hsplit, htail, hnodup⟩⟩
      rw [List.map_append] at hseen'
      exact (List.nodup_append.mp hseen').2.2 _ hmem _ (List.mem_singleton.mpr rfl) rfl

/-- The row has the identity. -/
def Identifies (row : Value) (identity : Identity) : Prop :=
  identity? (fieldsOf row) = some identity

theorem mapM_dictOf {fields : List Fields} :
    rows.mapM dictOf = .ok fields ↔ rows = fields.map Value.dict := by
  rw [Effect.mapM_ok, ← List.forall₂_eq_eq_eq, List.forall₂_map_right_iff]
  constructor
  · exact List.Forall₂.imp fun row fs hrow => dictOf_ok.mp hrow
  · exact List.Forall₂.imp fun row fs hrow => dictOf_ok.mpr hrow

theorem gatedRows_dicts (fields : List Fields) :
    gatedRows (fields.map Value.dict) = (fields.filter isGated).map Value.dict := by
  rw [gatedRows, List.filter_map]
  rfl

theorem exists_fields (h : ∀ row ∈ rows, ∃ fields, row = .dict fields) :
    ∃ fields : List Fields, rows = fields.map Value.dict := by
  refine ⟨rows.map fieldsOf, ?_⟩
  rw [List.map_map]
  refine ((List.map_congr_left fun row hrow => ?_).trans (List.map_id _)).symm
  obtain ⟨fs, rfl⟩ := h row hrow
  rfl

theorem identities_iff {out : List Identity} : identities rows = .ok out ↔
    (∀ row ∈ rows, ∃ fields, row = .dict fields) ∧
      List.Forall₂ Identifies (gatedRows rows) out ∧ (out.map (·.1)).Nodup := by
  have hnone : (([] : List Identity).map (·.1)).Nodup := List.nodup_nil
  simp only [identities, Effect.bind_ok, mapM_dictOf]
  constructor
  · rintro ⟨fields, rfl, h⟩
    obtain ⟨rest, rfl, hrest, hnodup⟩ := (identitiesFrom_ok hnone).mp h
    refine ⟨List.forall_mem_map.mpr fun fs _ => ⟨fs, rfl⟩, ?_, hnodup⟩
    rw [gatedRows_dicts, List.forall₂_map_left_iff]
    exact hrest
  · rintro ⟨hdicts, hall, hnodup⟩
    obtain ⟨fields, rfl⟩ := exists_fields hdicts
    rw [gatedRows_dicts, List.forall₂_map_left_iff] at hall
    exact ⟨fields, rfl, (identitiesFrom_ok hnone).mpr ⟨out, rfl, hall, hnodup⟩⟩

theorem easedVision_refl (rows : List Value) : List.Forall₂ EasedVision rows rows :=
  List.forall₂_same.mpr fun row _ => .same row

/-- Eased rows state the same identities. -/
theorem identities_eased {out : List Identity} (h : identities rows = .ok out)
    (hmid : List.Forall₂ EasedVision rows mid) (hperm : mid.Perm rows') :
    ∃ out', identities rows' = .ok out' ∧ out.Perm out' := by
  obtain ⟨hdicts, hall, hnodup⟩ := identities_iff.mp h
  obtain ⟨omid, out', hout', hsame, hout⟩ := gated_eased (F := Eq)
    (fun row row' identity heased hstates => by
      cases heased with
      | same => exact ⟨identity, hstates, rfl⟩
      | lowered fields fields' hlowers =>
        refine ⟨identity, ?_, rfl⟩
        show identity? fields' = some identity
        rw [identity?, hlowers.agree.field (by decide), hlowers.agree.field (by decide),
          hlowers.agree.field (by decide)]
        exact hstates) hall hmid hperm
  obtain rfl : out = omid := List.forall₂_eq_eq_eq ▸ hsame
  refine ⟨out', identities_iff.mpr ⟨dicts_eased (fun _ _ heased => heased.dict) hdicts hmid hperm,
    hout', ?_⟩, hout⟩
  exact (hout.map _).nodup_iff.mp hnodup

/-- The sides pair when they have the same identities. -/
theorem pairing_perm {base base' cand cand' : List Identity} (hbase : base.Perm base')
    (hcand : cand.Perm cand')
    (h : (base.length != cand.length || !base.all cand.contains) = false) :
    (base'.length != cand'.length || !base'.all cand'.contains) = false := by
  rw [Bool.or_eq_false_iff, bne_eq_false_iff_eq, Bool.not_eq_false', List.all_eq_true] at h ⊢
  obtain ⟨hlen, hall⟩ := h
  refine ⟨by rw [← hbase.length_eq, ← hcand.length_eq, hlen], fun identity hidentity => ?_⟩
  have hmem := hall identity (hbase.mem_iff.mpr hidentity)
  rw [List.contains_iff_mem] at hmem ⊢
  exact hcand.mem_iff.mp hmem

theorem percentile_ttfts_pos {out : List ℚ} (h : ttfts variant rows = .ok out) (q : ℚ) :
    out ≠ [] ∧ 0 < percentileOf out q := by
  obtain ⟨hout, hrows, hlength⟩ := ttfts_ok h
  have hne : out ≠ [] := by
    rintro rfl
    rw [List.length_nil] at hlength
    omega
  refine ⟨hne, percentileOf_pos hne (fun x hx => ?_) q⟩
  rw [hout] at hx
  obtain ⟨row, hrow, rfl⟩ := List.mem_map.mp hx
  exact (hrows row hrow).ttft.2

theorem visionTtftGate_eased {base base' cand cmid cand' : List Value} {gate : VisionGate}
    (hbase : base.Perm base') (hmid : List.Forall₂ EasedVision cand cmid) (hperm : cmid.Perm cand')
    (h : visionTtftGate (some base) (some cand) = .ok gate) (hpass : gate.pass = true) :
    ∃ gate', visionTtftGate (some base') (some cand') = .ok gate' ∧ gate'.pass = true := by
  simp only [visionTtftGate, Effect.bind_ok, rejectIf_ok] at h
  obtain ⟨bs, hbs, cs, hcs, bids, hbids, cids, hcids, -, hpairs, b95, hb95, c95, hc95, h⟩ := h
  obtain rfl := Except.ok.inj h
  obtain ⟨bs', hbs', hbsame⟩ := ttfts_perm hbs hbase
  obtain ⟨cs', hcs', hcbelow⟩ := ttfts_eased hcs hmid hperm
  obtain ⟨bids', hbids', hbpairs⟩ := identities_eased hbids (easedVision_refl base) hbase
  obtain ⟨cids', hcids', hcpairs⟩ := identities_eased hcids hmid hperm
  obtain ⟨-, hpos⟩ := percentile_ttfts_pos hbs (95 / 100)
  have hb : percentileOf bs' (95 / 100) = percentileOf bs (95 / 100) :=
    le_antisymm (percentileOf_mono (Stats.below_of_perm hbsame.symm) _)
      (percentileOf_mono (Stats.below_of_perm hbsame) _)
  have hc : percentileOf cs' (95 / 100) ≤ percentileOf cs (95 / 100) := percentileOf_mono hcbelow _
  obtain rfl := percentile_ok hb95
  obtain rfl := percentile_ok hc95
  have hregression := of_decide_eq_true hpass
  rw [div_le_iff₀ hpos] at hregression
  refine ⟨⟨percentileOf bs' (95 / 100), percentileOf cs' (95 / 100),
    (percentileOf cs' (95 / 100) - percentileOf bs' (95 / 100)) / percentileOf bs' (95 / 100),
    decide ((percentileOf cs' (95 / 100) - percentileOf bs' (95 / 100)) /
      percentileOf bs' (95 / 100) ≤ threshold)⟩, ?_, decide_eq_true ?_⟩
  · simp only [visionTtftGate, Effect.bind_ok, rejectIf_ok]
    exact ⟨bs', hbs', cs', hcs', bids', hbids', cids', hcids', (), pairing_perm hbpairs hcpairs hpairs,
      _, passes_percentile (percentile_ttfts_pos hbs' 0).1, _,
      passes_percentile (percentile_ttfts_pos hcs' 0).1, rfl⟩
  · rw [hb, div_le_iff₀ hpos]
    linarith

/-! ## The gain of a vision lever -/

/-- The row has the metric. -/
def HasMetric (metric : String) (row : Value) (q : ℚ) : Prop :=
  ∃ value, Value.lookup (fieldsOf row) metric = some value ∧
    requireFinitePositive value [.text metric] = .ok q

theorem gainMetrics_iff {metric : String} {out : List ℚ} : gainMetrics metric rows = .ok out ↔
    (∀ row ∈ rows, ∃ fields, row = .dict fields) ∧
      List.Forall₂ (HasMetric metric) (gatedRows rows) out := by
  simp only [gainMetrics, Effect.bind_ok, mapM_dictOf]
  simp only [Effect.mapM_ok, Effect.bind_ok, item_ok]
  constructor
  · rintro ⟨fields, rfl, hall⟩
    refine ⟨List.forall_mem_map.mpr fun fs _ => ⟨fs, rfl⟩, ?_⟩
    rw [gatedRows_dicts, List.forall₂_map_left_iff]
    exact hall
  · rintro ⟨hdicts, hall⟩
    obtain ⟨fields, rfl⟩ := exists_fields hdicts
    rw [gatedRows_dicts, List.forall₂_map_left_iff] at hall
    exact ⟨fields, rfl, hall⟩

theorem visionMetric_mem {manifest : Fields} {metric : String}
    (h : visionMetric manifest = some metric) : metric = "wall_s" ∨ metric = "ttft_s" := by
  unfold visionMetric at h
  split at h
  · exact .inl (Option.some.inj h).symm
  · split at h
    · exact .inr (Option.some.inj h).symm
    · cases h

/-- The metrics of eased rows are no greater. -/
theorem gainMetrics_eased {metric : String} (hmetric : metric = "wall_s" ∨ metric = "ttft_s")
    {out : List ℚ} (h : gainMetrics metric rows = .ok out)
    (hmid : List.Forall₂ EasedVision rows mid) (hperm : mid.Perm rows') :
    ∃ out', gainMetrics metric rows' = .ok out' ∧ Below out' out := by
  obtain ⟨hdicts, hall⟩ := gainMetrics_iff.mp h
  obtain ⟨omid, out', hout', hle, hout⟩ := gated_eased (F := fun x y => y ≤ x)
    (fun row row' q heased hvalue => by
      cases heased with
      | same => exact ⟨q, hvalue, le_refl q⟩
      | lowered fields fields' hlowers =>
        obtain ⟨value, hlookup, hq⟩ := hvalue
        rcases hmetric with rfl | rfl
        · refine ⟨q, ⟨value, ?_, hq⟩, le_refl q⟩
          exact (hlowers.agree "wall_s" (by decide)).trans hlookup
        · obtain ⟨old, new, hold, hnew, hpos, hle⟩ := hlowers.ttft
          obtain ⟨⟨hnumber, -⟩, hfloat⟩ := requireFinitePositive_ok.mp hq
          have hfield : Value.field fields "ttft_s" = value := field_of_lookup hlookup
          have hdouble := hlowers.double
          rw [hfield] at hold hdouble
          obtain rfl : old = q := Option.some.inj (hold.symm.trans hnumber)
          obtain ⟨value', hvalue'⟩ : ∃ value', Value.lookup fields' "ttft_s" = some value' :=
            Option.isSome_iff_exists.mp (by
              rw [← Option.not_isNone, lookup_of_number hnew]
              rfl)
          rw [field_of_lookup hvalue'] at hnew
          exact ⟨new, ⟨value', hvalue', requireFinitePositive_ok.mpr ⟨⟨hnew, hpos⟩,
            floatable_of_le hold hfloat hdouble hnew hpos hle⟩⟩, hle⟩) hall hmid hperm
  exact ⟨out', gainMetrics_iff.mpr ⟨dicts_eased (fun _ _ heased => heased.dict) hdicts hmid hperm,
    hout'⟩, (Stats.below_of_forall₂ hle.flip).perm_left hout.symm⟩

theorem gainMetrics_perm {metric : String} {out : List ℚ} (h : gainMetrics metric rows = .ok out)
    (hperm : rows.Perm rows') : ∃ out', gainMetrics metric rows' = .ok out' ∧ out.Perm out' := by
  obtain ⟨hdicts, hall⟩ := gainMetrics_iff.mp h
  obtain ⟨out', hout', hout⟩ := List.perm_comp_forall₂ (hperm.filter _).symm hall
  exact ⟨out', gainMetrics_iff.mpr ⟨fun row hrow => hdicts row (hperm.mem_iff.mpr hrow), hout'⟩,
    hout.symm⟩

theorem median_ne_nil {xs : List ℚ} {m : ℚ} (h : median xs = .ok m) : xs ≠ [] := by
  rintro rfl
  cases h

theorem median_metrics_pos {metric : String} {out : List ℚ} (h : gainMetrics metric rows = .ok out)
    (hne : out ≠ []) : 0 < medianOf out := by
  obtain ⟨-, hall⟩ := gainMetrics_iff.mp h
  refine medianOf_pos hne fun q hq => ?_
  obtain ⟨row, -, value, -, hvalue⟩ := Effect.forall₂_exists_left hall q hq
  exact (requireFinitePositive_ok.mp hvalue).1.2

theorem leverStage_eased {manifest : Fields} {base base' cand cmid cand' : List Value}
    (hbase : base.Perm base') (hmid : List.Forall₂ EasedVision cand cmid) (hperm : cmid.Perm cand')
    (h : Goes (leverStage manifest base cand)) : Goes (leverStage manifest base' cand') := by
  obtain ⟨gates, gates', h⟩ := h
  unfold leverStage at h
  split at h
  · next hlever =>
    simp only [Effect.bind_ok, Effect.pure_ok, Prod.mk.injEq, orReject_ok] at h
    obtain ⟨metric, hmetric, bs, hbs, b, hb, cs, hcs, c, hc, -, hgo⟩ := h
    obtain ⟨bs', hbs', hbsame⟩ := gainMetrics_perm hbs hbase
    obtain ⟨cs', hcs', hcbelow⟩ := gainMetrics_eased (visionMetric_mem hmetric) hcs hmid hperm
    have hbne := median_ne_nil hb
    have hcne := median_ne_nil hc
    have hbne' : bs' ≠ [] := fun hnil => hbne (hbsame.trans (hnil ▸ List.Perm.nil)).eq_nil
    have hcne' : cs' ≠ [] := by
      rintro rfl
      exact hcne (List.length_eq_zero_iff.mp hcbelow.length_eq.symm)
    have hpos := median_metrics_pos hbs hbne
    obtain rfl := median_ok hb
    obtain rfl := median_ok hc
    have hbmedian : medianOf bs' = medianOf bs :=
      le_antisymm (medianOf_mono (Stats.below_of_perm hbsame.symm))
        (medianOf_mono (Stats.below_of_perm hbsame))
    have hcmedian : medianOf cs' ≤ medianOf cs := medianOf_mono hcbelow
    have hgain := of_decide_eq_true hgo
    rw [le_div_iff₀ hpos] at hgain
    have hgain' : threshold ≤ (medianOf bs' - medianOf cs') / medianOf bs' := by
      rw [hbmedian, le_div_iff₀ hpos]
      linarith
    refine ⟨gates, { gates with visionLeverGain := some (metric,
      (medianOf bs' - medianOf cs') / medianOf bs',
      decide (threshold ≤ (medianOf bs' - medianOf cs') / medianOf bs')) }, ?_⟩
    rw [leverStage, if_pos hlever]
    simp only [Effect.bind_ok, Effect.pure_ok, Prod.mk.injEq, orReject_ok]
    exact ⟨metric, hmetric, bs', hbs', _, passes_median hbne', cs', hcs', _, passes_median hcne', rfl,
      decide_eq_true hgain'⟩
  · next hother => exact ⟨gates, gates, if_neg hother⟩

end Rows

/-! ## The bindings -/

section Bindings

variable {env : Env} {manifest : Value} {lane : Lane} {fields fmid fields' : List Fields}

/-- What a binding does not read. -/
def unbound : List String := ["wall_s", "e2erate", "ttft_s"]

theorem caseOf_agree {fs fs' : Fields} (h : AgreeBut unbound fs fs') : caseOf fs' = caseOf fs := by
  rw [caseOf, caseOf, h "case_id" (by decide), h "case" (by decide)]

theorem isMeasured_agree {fs fs' : Fields} (h : AgreeBut unbound fs fs') :
    isMeasured fs' = isMeasured fs := by
  rw [isMeasured, isMeasured, h.field (by decide)]

theorem checkBound_agree {frozen : Fields} {fingerprint : Str} {inputs fs fs' : Fields}
    (h : AgreeBut unbound fs fs') : checkBound env frozen fingerprint inputs lane fs' =
      checkBound env frozen fingerprint inputs lane fs := by
  have hround : checkRound env frozen fingerprint lane fs' =
      checkRound env frozen fingerprint lane fs := by
    rw [checkRound, checkRound, h.field (by decide : "repeat" ∉ unbound),
      h.field (by decide : "tag" ∉ unbound), h.field (by decide : "request_hashes" ∉ unbound)]
  rw [checkBound, checkBound, hround, caseOf_agree h,
    h.field (by decide : "epoch_verified" ∉ unbound), h.field (by decide : "_evidence" ∉ unbound),
    h "model" (by decide), h "input_sha256" (by decide)]

theorem sameCases_perm {inputs : Fields} {observed observed' : List Value}
    (hperm : observed.Perm observed') (h : sameCases inputs observed = true) :
    sameCases inputs observed' = true := by
  rw [sameCases, Bool.and_eq_true, List.all_eq_true, List.all_eq_true] at h ⊢
  refine ⟨fun f hf => ?_, fun case hcase => h.2 case (hperm.mem_iff.mpr hcase)⟩
  obtain ⟨case, hcase, heq⟩ := List.any_eq_true.mp (h.1 f hf)
  exact List.any_eq_true.mpr ⟨case, hperm.mem_iff.mp hcase, heq⟩

/-- A binding does not depend on the order of the rows, nor on what it does not read. -/
theorem checkEvidenceBinding_eased
    (h : checkEvidenceBinding env manifest (fields.map Value.dict) lane = .ok ())
    (hmid : List.Forall₂ (AgreeBut unbound) fields fmid) (hperm : fmid.Perm fields') :
    checkEvidenceBinding env manifest (fields'.map Value.dict) lane = .ok () := by
  have hmeasured : List.Forall₂ (AgreeBut unbound) (fields.filter isMeasured)
      (fmid.filter isMeasured) := List.rel_filter (fun fs fs' hagree => by
    show isMeasured fs = true ↔ isMeasured fs' = true
    rw [isMeasured_agree hagree]) hmid
  have hmeasured' : (fmid.filter isMeasured).Perm (fields'.filter isMeasured) := hperm.filter _
  have hcaseOf : (fmid.filter isMeasured).map caseOf = (fields.filter isMeasured).map caseOf := by
    rw [eq_comm, ← List.forall₂_eq_eq_eq, List.forall₂_map_left_iff, List.forall₂_map_right_iff]
    exact hmeasured.imp fun fs fs' hagree => (caseOf_agree hagree).symm
  -- the cases come in another order, and each row is bound as the row that it stands for
  have hcases : ((fields.filter isMeasured).map caseOf).Perm
      ((fields'.filter isMeasured).map caseOf) := hcaseOf ▸ hmeasured'.map caseOf
  simp only [checkEvidenceBinding, Effect.bind_ok, mapM_dictOf, orReject_ok, rejectIf_ok,
    Effect.reject_ok, Effect.forM_ok, Bool.or_eq_false_iff, Bool.not_eq_false'] at h ⊢
  obtain ⟨valid, hvalid, frozen, hfrozen, inputs, hinputs, rows, hrows, -, hhash, -, ⟨hsame, hcount⟩,
    hbound⟩ := h
  obtain rfl := List.map_injective_iff.mpr (fun _ _ hdict => Value.dict.inj hdict) hrows
  refine ⟨valid, hvalid, frozen, hfrozen, inputs, hinputs, fields', rfl, (), ?_, (),
    ⟨sameCases_perm hcases hsame, hcount⟩, fun fs hfs => ?_⟩
  · refine List.any_eq_false.mpr fun fs hfs => ?_
    have hmem := hcases.mem_iff.mpr (List.mem_map.mpr ⟨fs, hfs, rfl⟩)
    obtain ⟨fs₀, hfs₀, heq⟩ := List.mem_map.mp hmem
    rw [← heq]
    exact List.any_eq_false.mp hhash fs₀ hfs₀
  · obtain ⟨fs₀, hfs₀, hagree⟩ :=
      Effect.forall₂_exists_left hmeasured fs (hmeasured'.mem_iff.mpr hfs)
    rw [checkBound_agree hagree]
    exact hbound fs₀ hfs₀

/-- The binding of vision rows that answered sooner. -/
theorem visionBinding_eased {rows mid rows' : List Value}
    (hdicts : ∀ row ∈ rows, ∃ fields, row = .dict fields)
    (h : checkEvidenceBinding env manifest rows lane = .ok ())
    (hmid : List.Forall₂ EasedVision rows mid) (hperm : mid.Perm rows') :
    checkEvidenceBinding env manifest rows' lane = .ok () := by
  have hmids := dicts_eased (fun _ _ heased => heased.dict) hdicts hmid (List.Perm.refl mid)
  have hdicts' := dicts_eased (fun _ _ heased => heased.dict) hdicts hmid hperm
  obtain ⟨fields, rfl⟩ := exists_fields hdicts
  obtain ⟨fmid, rfl⟩ := exists_fields hmids
  obtain ⟨fields', rfl⟩ := exists_fields hdicts'
  have hinj : Function.Injective Value.dict := fun _ _ hdict => Value.dict.inj hdict
  rw [List.forall₂_map_left_iff, List.forall₂_map_right_iff] at hmid
  rw [List.map_perm_map_iff hinj] at hperm
  refine checkEvidenceBinding_eased h (hmid.imp fun fs fs' heased => ?_) hperm
  cases heased with
  | same => exact AgreeBut.refl unbound fs
  | lowered _ _ hlowers => exact hlowers.agree.mono (by decide)

/-- The sides have the same manifest and the same upstream rows. -/
structure SameLanes (side side' : Side) : Prop where
  manifest : side'.manifest = side.manifest
  upstream : side'.upstream = side.upstream
  medium : side'.medium = side.medium

theorem bindSide_eased {side side' : Side} {prose pmid prose' : List ProseRow} {mid : List Value}
    (hsame : SameLanes side side')
    (hdicts : ∀ row ∈ side.vision.getD [], ∃ fields, row = .dict fields)
    (hprose : List.Forall₂ AsFast prose pmid) (hprosePerm : pmid.Perm prose')
    (hvision : List.Forall₂ EasedVision (side.vision.getD []) mid)
    (hvisionPerm : mid.Perm (side'.vision.getD []))
    (h : bindSide env side prose = .ok ()) : bindSide env side' prose' = .ok () := by
  simp only [bindSide, Effect.bind_ok] at h ⊢
  obtain ⟨short, hshort, medium, hmedium, _, hbprose, _, hbshort, _, hbmedium, hbvision⟩ := h
  rw [hsame.manifest, hsame.upstream, hsame.medium]
  refine ⟨short, hshort, medium, hmedium, (), ?_, (), hbshort, (), hbmedium,
    visionBinding_eased hdicts hbvision hvision hvisionPerm⟩
  have hfields (out : List ProseRow) : out.map (fun row => Value.dict row.fields) =
      (out.map ProseRow.fields).map Value.dict := by
    rw [List.map_map]
    rfl
  have hagree : List.Forall₂ (AgreeBut unbound) (prose.map ProseRow.fields)
      (pmid.map ProseRow.fields) := by
    rw [List.forall₂_map_left_iff, List.forall₂_map_right_iff]
    exact hprose.imp fun p p' hp => hp.1.mono (by decide)
  rw [hfields] at hbprose ⊢
  exact checkEvidenceBinding_eased hbprose hagree (hprosePerm.map _)

end Bindings

/-! ## The run -/

/-- The rows are changed one by one, and then put into another order. -/
def Eased (E : Value → Value → Prop) (rows rows' : List Value) : Prop :=
  ∃ mid, List.Forall₂ E rows mid ∧ mid.Perm rows'

/-- The prose and the vision rows come in another order, and those of the candidate took less wall
time and answered sooner. -/
structure Eases (env : Env) (input input' : Input) : Prop where
  base : SameLanes input.base input'.base
  cand : SameLanes input.cand input'.cand
  baseRows : input.base.rows.Perm input'.base.rows
  candRows : Eased (EasedProse env) input.cand.rows input'.cand.rows
  baseVision : Option.Rel List.Perm input.base.vision input'.base.vision
  candVision : Option.Rel (Eased EasedVision) input.cand.vision input'.cand.vision

theorem onward_goes {stage : Gates → Check (Gates × Bool)} {next : Gates → Check Report}
    (hsteady : Steady stage) (hgoes : Goes stage)
    (hnext : ∀ gates, ∃ r, next gates = .ok r ∧ r.verdict = .pass) (gates : Gates) :
    ∃ r, onward (stage gates) next = .ok r ∧ r.verdict = .pass := by
  obtain ⟨gates₀, out, hout⟩ := hgoes
  obtain ⟨out', hout'⟩ := hsteady gates₀ gates out hout
  obtain ⟨r, hr, hpass⟩ := hnext out'
  exact ⟨r, Effect.bind_ok.mpr ⟨(out', true), hout', hr⟩, hpass⟩

/-- The gates of a run that no stage has added to. -/
def noGates : Gates := ⟨⟨.none, .none⟩, [], ([], none), none, none, none, none, none⟩

theorem visionStage_goes {base cand : List Value} :
    Goes (visionStage (some base) (some cand)) ↔
      ∃ gate, visionTtftGate (some base) (some cand) = .ok gate ∧ gate.pass = true := by
  constructor
  · rintro ⟨gates, gates', h⟩
    obtain ⟨gate, hgate, h⟩ := Effect.bind_ok.mp h
    have hpass := (Prod.mk.inj (Except.ok.inj h)).2
    cases gate with
    | error message => cases hpass
    | ok gate => exact ⟨gate, caught_ok.mp hgate, hpass⟩
  · rintro ⟨gate, hgate, hpass⟩
    refine ⟨noGates, { noGates with visionP95 := some (.ok gate) }, ?_⟩
    refine Effect.bind_ok.mpr ⟨.ok gate, caught_ok.mpr hgate, ?_⟩
    show Except.ok (_, gate.pass) = Except.ok (_, true)
    rw [hpass]

theorem bindingStage_goes {env : Env} {input : Input} {base cand : List ProseRow}
    (hbase : bindSide env input.base base = .ok ())
    (hcand : bindSide env input.cand cand = .ok ()) : Goes (bindingStage env input base cand) := by
  refine ⟨noGates, { noGates with evidenceBinding := some (.ok ()) }, ?_⟩
  refine Effect.bind_ok.mpr ⟨.ok (), caught_ok.mpr ?_, rfl⟩
  exact Effect.bind_ok.mpr ⟨(), hbase, hcand⟩

theorem compare_parity {env : Env} {repeats : Nat} {input : Input} {r : Report}
    (h : compare env repeats input = .ok r) : ∃ base cand parity,
      input.base.manifest = .dict base ∧ input.cand.manifest = .dict cand ∧
      checkParity env base cand = .ok parity := by
  simp only [compare, Effect.bind_ok, dictOf_ok] at h
  obtain ⟨base, hbase, cand, hcand, parity, hparity, -⟩ := h
  exact ⟨base, cand, parity, hbase, hcand, hparity⟩

/-- A run passes when its manifests have parity and its stages let it go on. -/
theorem compare_of_passed {env : Env} {repeats : Nat} {input : Input} {base cand : List ProseRow}
    {bm cm : Fields} {parity : Parity} (hbm : input.base.manifest = .dict bm)
    (hcm : input.cand.manifest = .dict cm) (hparity : checkParity env bm cm = .ok parity)
    (h : Passed env repeats input base cand) :
    ∃ r, compare env repeats input = .ok r ∧ r.verdict = .pass := by
  have hlever := h.lever
  have hok {α β : Type} (a : α) (f : α → Check β) : (Except.ok a >>= f) = f a := rfl
  have hon : Goes fun gates => .ok (gates, (missingLanes input).isEmpty) :=
    ⟨noGates, noGates, by rw [h.complete]⟩
  rw [hcm] at hlever
  simp only [compare, dictOf_ok.mpr hbm, dictOf_ok.mpr hcm, hparity, h.baseRows, h.candRows, hok]
  apply onward_goes steady_proseStage h.prose
  intro gates
  apply onward_goes steady_shortStage h.short
  intro gates
  apply onward_goes steady_mediumStage h.medium
  intro gates
  apply onward_goes steady_visionStage h.vision
  intro gates
  apply onward_goes steady_on hon
  intro gates
  apply onward_goes steady_leverStage hlever
  intro gates
  apply onward_goes (steady_bind _ _ _) h.binding
  exact fun gates => ⟨_, rfl, rfl⟩

theorem rel_some {α : Type} {R : α → α → Prop} {x y : Option α} {a : α} (h : Option.Rel R x y)
    (hx : x = some a) : ∃ b, y = some b ∧ R a b := by
  subst hx
  cases h with
  | some hab => exact ⟨_, rfl, hab⟩

/-- The stages let the run go on when the rows come in another order, and when candidate rows took
less wall time or answered sooner. -/
theorem Passed.eased {env : Env} {repeats : Nat} {input input' : Input} {base cand : List ProseRow}
    (h : Passed env repeats input base cand) (heases : Eases env input input') :
    ∃ base' cand', Passed env repeats input' base' cand' := by
  obtain ⟨-, -, hvisions⟩ := missingLanes_empty h.complete
  obtain ⟨bv, cv, hbv, hcv, hgated⟩ :=
    (visionStage_pass h.vision).resolve_left fun hnone => hvisions hnone.1
  obtain ⟨bv', hbv', hbperm⟩ := rel_some heases.baseVision hbv
  obtain ⟨cv', hcv', vmid, hvmid, hvperm⟩ := rel_some heases.candVision hcv
  obtain ⟨pmid, hpmid, hpperm⟩ := heases.candRows
  obtain ⟨base', hbase', hbsame⟩ := measuredProseRows_perm h.baseRows heases.baseRows
  obtain ⟨cmid, cand', hcand', hfast, hcperm⟩ := measuredProseRows_eased h.candRows hpmid hpperm
  have hvision := h.vision
  have hlever := h.lever
  have hcomplete := h.complete
  obtain ⟨hbbound, hcbound⟩ := bindingStage_pass h.binding
  rw [hbv, hcv] at hvision hlever
  obtain ⟨gate, hgate, hpass⟩ := visionStage_goes.mp hvision
  refine ⟨base', cand', ⟨hbase', hcand', ?_, ?_, ?_, ?_, ?_, ?_, ?_⟩⟩
  · exact proseStage_eased h.baseRows hbsame hfast hcperm h.prose
  · rw [heases.base.upstream, heases.cand.upstream]
    exact h.short
  · rw [heases.base.medium, heases.cand.medium]
    exact h.medium
  · rw [hbv', hcv']
    exact visionStage_goes.mpr (visionTtftGate_eased hbperm hvmid hvperm hgate hpass)
  · rw [missingLanes, hbv, hcv] at hcomplete
    rw [missingLanes, hbv', hcv', heases.base.upstream, heases.cand.upstream, heases.base.medium,
      heases.cand.medium]
    exact hcomplete
  · rw [hbv', hcv', heases.cand.manifest]
    exact leverStage_eased hbperm hvmid hvperm hlever
  · have hmid : List.Forall₂ EasedVision (input.cand.vision.getD []) vmid := by
      rw [hcv]
      exact hvmid
    refine bindingStage_goes ?_ ?_
    · apply bindSide_eased heases.base ?_ (List.forall₂_same.mpr fun p _ => AsFast.refl p) hbsame
        (easedVision_refl _) ?_ hbbound
      · rw [hbv]
        exact (ttfts_iff.mp hgated.baseTtfts).1
      · rw [hbv, hbv']
        exact hbperm
    · apply bindSide_eased heases.cand ?_ hfast hcperm hmid ?_ hcbound
      · rw [hcv]
        exact (ttfts_iff.mp hgated.candTtfts).1
      · rw [hcv']
        exact hvperm

/-- An input that passes still does when its rows come in another order, and when candidate rows
took less wall time or answered sooner. -/
theorem compare_eased (env : Env) (repeats : Nat) (input input' : Input) (r : Report)
    (h : compare env repeats input = .ok r) (hpass : r.verdict = .pass)
    (heases : Eases env input input') :
    ∃ r', compare env repeats input' = .ok r' ∧ r'.verdict = .pass := by
  obtain ⟨base, cand, hpassed⟩ := compare_pass h hpass
  obtain ⟨bm, cm, parity, hbm, hcm, hparity⟩ := compare_parity h
  obtain ⟨base', cand', hpassed'⟩ := hpassed.eased heases
  exact compare_of_passed (heases.base.manifest.trans hbm) (heases.cand.manifest.trans hcm) hparity
    hpassed'

/-! ## A candidate that is faster -/

theorem str_injective : Function.Injective str := by
  intro s t h
  have hchars : Function.Injective Char.toNat := fun c d hcd => Char.toNat_inj.mp hcd
  exact String.toList_inj.mp (List.map_injective_iff.mpr hchars h)

/-- The row with another value of the key. -/
def setField (row : Value) (key : String) (v : Value) : Fields :=
  (fieldsOf row).map fun f => if f.1 == str key then (f.1, v) else f

theorem agreeBut_setField (row : Value) (key : String) (v : Value) :
    AgreeBut [key] (fieldsOf row) (setField row key v) := by
  intro other hother
  have hne : str key ≠ str other := fun heq =>
    hother (List.mem_singleton.mpr (str_injective heq.symm))
  rw [setField, Value.lookup, Value.lookup]
  induction fieldsOf row with
  | nil => rfl
  | cons f fields ih =>
    rw [List.map_cons, List.find?_cons, List.find?_cons]
    by_cases hkey : f.1 = str key
    · have hset : (f.1 == str key) = true := beq_iff_eq.mpr hkey
      have hother : (f.1 == str other) = false := beq_eq_false_iff_ne.mpr (hkey ▸ hne)
      simp only [hset, hother, if_true]
      exact ih
    · have hset : (f.1 == str key) = false := beq_eq_false_iff_ne.mpr hkey
      simp only [hset, Bool.false_eq_true, if_false]
      cases hother : f.1 == str other with
      | true => rfl
      | false => exact ih

/-- The rows with another value of the first row's key, in reverse order. -/
def reversedWith (key : String) (v : Value) : List Value → List Value
  | [] => []
  | row :: rows => (.dict (setField row key v) :: rows).reverse

/-- The sample with all rows in reverse order.  The first prose row of the candidate took 4 seconds
and its first vision row answered after 1. -/
def fasterInput : Input :=
  let base := sampleSide false (.bool false) true 2
  let cand := sampleSide true (.bool false) true 2
  ⟨{ base with rows := base.rows.reverse, vision := base.vision.map List.reverse },
    { cand with
      rows := reversedWith "wall_s" (.int 4) cand.rows,
      vision := cand.vision.map (reversedWith "ttft_s" (.int 1)) }⟩

theorem eased_reversedWith {E : Value → Value → Prop} {key : String} {v : Value} {row : Value}
    {rows : List Value} (hrefl : ∀ row, E row row) (hrow : E row (.dict (setField row key v))) :
    Eased E (row :: rows) (reversedWith key v (row :: rows)) :=
  ⟨.dict (setField row key v) :: rows, .cons hrow (List.forall₂_same.mpr fun row _ => hrefl row),
    (List.reverse_perm _).symm⟩

theorem fasterInput_eases : Eases sampleEnv (sampleInput (.bool false) true 2) fasterInput := by
  have hrow : EasedProse sampleEnv (proseRow true "db_index_write_read" 0)
      (.dict (setField (proseRow true "db_index_write_read" 0) "wall_s" (.int 4))) := by
    apply EasedProse.lowered
    have hagree := agreeBut_setField (proseRow true "db_index_write_read" 0) "wall_s" (.int 4)
    exact ⟨hagree.mono (by simp), ⟨8, 4, 1, by decide⟩, by decide,
      .inl (by decide)⟩
  have hvrow : EasedVision (visionRow true 0 (.bool false) true 2)
      (.dict (setField (visionRow true 0 (.bool false) true 2) "ttft_s" (.int 1))) := by
    apply EasedVision.lowered
    exact ⟨agreeBut_setField _ _ _, ⟨2, 1, by decide⟩, by decide⟩
  have hrows : (sampleSide true (.bool false) true 2).rows = proseRow true "db_index_write_read" 0 ::
      (sampleSide true (.bool false) true 2).rows.tail := by decide
  have hvision : (sampleSide true (.bool false) true 2).vision = some
      (visionRow true 0 (.bool false) true 2 ::
        ((sampleSide true (.bool false) true 2).vision.getD []).tail) := by decide
  refine ⟨⟨rfl, rfl, rfl⟩, ⟨rfl, rfl, rfl⟩, (List.reverse_perm _).symm, ?_, ?_, ?_⟩
  · show Eased _ (sampleSide true (.bool false) true 2).rows
      (reversedWith "wall_s" (.int 4) (sampleSide true (.bool false) true 2).rows)
    rw [hrows]
    exact eased_reversedWith .same hrow
  · exact Option.Rel.some (List.reverse_perm _).symm
  · show Option.Rel _ (sampleSide true (.bool false) true 2).vision
      ((sampleSide true (.bool false) true 2).vision.map (reversedWith "ttft_s" (.int 1)))
    rw [hvision]
    exact Option.Rel.some (eased_reversedWith .same hvrow)

theorem compare_eased_sample : passes (compare sampleEnv 5 (sampleInput (.bool false) true 2)) = true ∧
    Eases sampleEnv (sampleInput (.bool false) true 2) fasterInput ∧
    ∃ r, compare sampleEnv 5 fasterInput = .ok r ∧ r.verdict = .pass := by
  obtain ⟨r, hrun, hpass⟩ := passes_iff.mp sample_passes.1
  exact ⟨sample_passes.1, fasterInput_eases, compare_eased sampleEnv 5
    (sampleInput (.bool false) true 2) fasterInput r hrun hpass fasterInput_eases⟩

end Compare
end FlashNext
