import FlashNext.Compare.LanesHandled
import FlashNext.Compare.ManifestHandled

/-!
# The inputs that the reducer handles

`Handled` is the condition under which `compare` ends in a report or a `Reject`, put together
from what each stage can use, and `compare_closed_iff` is the equivalence.
-/

namespace FlashNext
namespace Compare

open Py (Str Value str)

variable {interp : Interp}

/-! ## The bindings of both sides -/

/-- The lanes in the order of their bindings. -/
def lanes : List Lane := [.prose, .short, .medium, .vision]

/-- The bindings of one side, each where those before it pass. -/
def SideUsable (interp : Interp) (side : Side) : Prop :=
  UpTo (fun lane => Passes (checkEvidenceBinding interp.env side.manifest (laneRows side lane) lane))
    (fun lane => EvidenceUsable interp side.manifest (laneRows side lane) lane) lanes

/-- All bindings of one side pass. -/
def SideBinds (interp : Interp) (side : Side) : Prop :=
  ∀ lane ∈ lanes, Passes (checkEvidenceBinding interp.env side.manifest (laneRows side lane) lane)

/-- What the stages before the bindings have seen of one side. -/
structure SideRead (side : Side) (prose : List ProseRow) : Prop where
  prose : prose.map (fun row => Value.dict row.fields) = keptRows side.rows
  short : ∀ d ∈ side.upstream.getD [], hasRow d = true
  medium : ∀ d ∈ side.medium.getD [], hasRow d = true
  vision : ∀ row ∈ side.vision.getD [], row.asDict?.isSome = true

theorem detailRow_eq {d : Value} (h : hasRow d = true) : detailRow d = .ok (detailRowOf d) := by
  obtain ⟨row, hrow⟩ := Option.isSome_iff_exists.mp (hasRow_lookup h)
  rw [detailRow, detailRowOf, field_of_lookup hrow]
  cases d with
  | dict fields => exact Effect.bind_ok.mpr ⟨fields, rfl, item_ok.mpr hrow⟩
  | _ => cases hrow

theorem mapM_detailRow {detail : List Value} (h : ∀ d ∈ detail, hasRow d = true) :
    detail.mapM detailRow = .ok (detail.map detailRowOf) := by
  rw [Effect.mapM_ok, List.forall₂_map_right_iff, List.forall₂_same]
  exact fun d hd => detailRow_eq (h d hd)

theorem SideRead.objects {side : Side} {prose : List ProseRow} (h : SideRead side prose)
    (lane : Lane) : ∀ row ∈ laneRows side lane, row.asDict?.isSome = true := by
  cases lane with
  | prose =>
    show ∀ row ∈ keptRows side.rows, row.asDict?.isSome = true
    rw [← h.prose, List.forall_mem_map]
    exact fun _ _ => rfl
  | short =>
    show ∀ row ∈ (side.upstream.getD []).map detailRowOf, row.asDict?.isSome = true
    rw [List.forall_mem_map]
    exact h.short
  | medium =>
    show ∀ row ∈ (side.medium.getD []).map detailRowOf, row.asDict?.isSome = true
    rw [List.forall_mem_map]
    exact h.medium
  | vision => exact h.vision

theorem bindSide_eq {env : Env} {side : Side} {prose : List ProseRow} (h : SideRead side prose) :
    bindSide env side prose =
      lanes.forM fun lane => checkEvidenceBinding env side.manifest (laneRows side lane) lane := by
  rw [bindSide, mapM_detailRow h.short, mapM_detailRow h.medium, h.prose]
  show (do
    checkEvidenceBinding env side.manifest (laneRows side .prose) .prose
    checkEvidenceBinding env side.manifest (laneRows side .short) .short
    checkEvidenceBinding env side.manifest (laneRows side .medium) .medium
    checkEvidenceBinding env side.manifest (laneRows side .vision) .vision) = (do
    checkEvidenceBinding env side.manifest (laneRows side .prose) .prose
    checkEvidenceBinding env side.manifest (laneRows side .short) .short
    checkEvidenceBinding env side.manifest (laneRows side .medium) .medium
    checkEvidenceBinding env side.manifest (laneRows side .vision) .vision
    pure ())
  simp

theorem closed_bindSide {side : Side} {prose : List ProseRow} (h : SideRead side prose) :
    Closed (bindSide interp.env side prose) ↔ SideUsable interp side := by
  rw [bindSide_eq h, closed_forM]
  exact UpTo.congr (fun lane _ => closed_checkEvidenceBinding (h.objects lane))
    fun _ _ _ => Iff.rfl

theorem passes_bindSide {side : Side} {prose : List ProseRow} (h : SideRead side prose) :
    Passes (bindSide interp.env side prose) ↔ SideBinds interp side := by
  rw [bindSide_eq h]
  constructor
  · rintro ⟨u, hu⟩ lane hlane
    exact ⟨(), Effect.forM_ok.mp hu lane hlane⟩
  · intro hbinds
    refine ⟨(), Effect.forM_ok.mpr fun lane hlane => ?_⟩
    obtain ⟨u, hu⟩ := hbinds lane hlane
    exact hu

/-- The bindings of both sides, the candidate's where the baseline's pass. -/
def BindingsUsable (interp : Interp) (input : Input) : Prop :=
  SideUsable interp input.base ∧ (SideBinds interp input.base → SideUsable interp input.cand)

theorem closed_bindingStage {input : Input} {base cand : List ProseRow} {gates : Gates}
    (hbase : SideRead input.base base) (hcand : SideRead input.cand cand) :
    Closed (bindingStage interp.env input base cand gates) ↔ BindingsUsable interp input := by
  rw [bindingStage, closed_bind, closed_caught, closed_seq, closed_bindSide hbase,
    closed_bindSide hcand, passes_bindSide hbase]
  exact and_iff_left fun _ _ => closed_pure _

/-! ## The stages -/

/-- Whether the stage lets the run go on does not depend on the gates before it. -/
def Steady (stage : Gates → Check (Gates × Bool)) : Prop :=
  ∀ gates gates' out, stage gates = .ok (out, true) → ∃ out', stage gates' = .ok (out', true)

theorem closed_onward {stage : Gates → Check (Gates × Bool)} {next : Gates → Check Report}
    {usable usableNext : Prop} (hsteady : Steady stage)
    (hstage : ∀ gates, Closed (stage gates) ↔ usable)
    (hnext : Goes stage → ∀ gates, Closed (next gates) ↔ usableNext) (gates : Gates) :
    Closed (onward (stage gates) next) ↔ usable ∧ (Goes stage → usableNext) := by
  rw [onward, closed_bind, hstage]
  refine and_congr_right fun _ => ?_
  constructor
  · intro h hgoes
    obtain ⟨gates₀, out, hout⟩ := hgoes
    obtain ⟨out', hout'⟩ := hsteady gates₀ gates out hout
    exact (hnext ⟨gates₀, out, hout⟩ out').mp (h _ hout')
  · rintro h ⟨out, go⟩ hout
    cases go with
    | false => exact closed_pure _
    | true => exact (hnext ⟨gates, out, hout⟩ out).mpr (h ⟨gates, out, hout⟩)

/-- A stage that adds its result to the gates is steady. -/
theorem steady_bind {α : Type} (x : Check α) (add : Gates → α → Gates) (go : α → Bool) :
    Steady fun gates => do
      let a ← x
      return (add gates a, go a) := by
  intro gates gates' out h
  simp only [Effect.bind_ok, Effect.pure_ok, Prod.mk.injEq] at h
  obtain ⟨a, ha, -, hgo⟩ := h
  refine ⟨add gates' a, ?_⟩
  simp only [Effect.bind_ok, Effect.pure_ok, Prod.mk.injEq]
  exact ⟨a, ha, rfl, hgo⟩

theorem steady_on {go : Bool} : Steady fun gates => .ok (gates, go) := by
  intro gates gates' out h
  exact ⟨gates', by rw [(Prod.mk.inj (Except.ok.inj h)).2]⟩

theorem steady_proseStage {repeats : Nat} {base cand : List ProseRow} :
    Steady (proseStage repeats base cand) := by
  intro gates gates' out h
  simp only [proseStage, Effect.bind_ok] at h ⊢
  obtain ⟨counts, hcounts, h⟩ := h
  cases counts with
  | error message => cases (Prod.mk.inj (Except.ok.inj h)).2
  | ok u =>
    obtain ⟨out', hout'⟩ := steady_bind (proseLoop base cand proseCases)
      (fun gates prose => { gates with prose := prose }) (·.2.isNone) gates gates' out h
    exact ⟨out', _, hcounts, hout'⟩

theorem steady_shortStage {base cand : Option (List Value)} : Steady (shortStage base cand) := by
  cases base with
  | none =>
    cases cand with
    | none => exact steady_on
    | some c => exact fun _ _ _ h => nomatch h
  | some b =>
    cases cand with
    | none => exact fun _ _ _ h => nomatch h
    | some c =>
      exact steady_bind (caught (shortGain b c))
        (fun gates gain => { gates with upstreamShort := some gain }) (·.toOption.isSome)

theorem steady_mediumStage {base cand : Option (List Value)} : Steady (mediumStage base cand) := by
  cases base with
  | none =>
    cases cand with
    | none => exact steady_on
    | some c => exact fun _ _ _ h => nomatch h
  | some b =>
    cases cand with
    | none => exact fun _ _ _ h => nomatch h
    | some c =>
      intro gates gates' out h
      simp only [mediumStage, Effect.bind_ok, Effect.pure_ok, Prod.mk.injEq] at h ⊢
      obtain ⟨x, hx, y, hy, -, hgo⟩ := h
      exact ⟨_, x, hx, y, hy, rfl, hgo⟩

theorem steady_visionStage {base cand : Option (List Value)} : Steady (visionStage base cand) := by
  intro gates gates' out h
  rw [visionStage] at h ⊢
  split at h
  · next hnone =>
    rw [if_pos hnone]
    exact ⟨gates', rfl⟩
  · next hsome =>
    rw [if_neg hsome]
    exact steady_bind (caught (visionTtftGate base cand))
      (fun gates gate => { gates with visionP95 := some gate }) (·.toOption.any VisionGate.pass)
      gates gates' out h

theorem steady_leverStage {manifest : Fields} {base cand : List Value} :
    Steady (leverStage manifest base cand) := by
  intro gates gates' out h
  rw [leverStage] at h ⊢
  split at h
  · next hlever =>
    rw [if_pos hlever]
    simp only [Effect.bind_ok, Effect.pure_ok, Prod.mk.injEq] at h ⊢
    obtain ⟨metric, hmetric, bs, hbs, b, hb, cs, hcs, c, hc, -, hgo⟩ := h
    exact ⟨_, metric, hmetric, bs, hbs, b, hb, cs, hcs, c, hc, rfl, hgo⟩
  · next hlever =>
    rw [if_neg hlever]
    exact ⟨gates', rfl⟩

/-! ## What a stage has read -/

theorem UpstreamEvidence.hasRow {rounds : Nat} {detail : List Value}
    (h : UpstreamEvidence rounds detail) : ∀ d ∈ detail, hasRow d = true := by
  intro d hd
  have hhex := h.identities d hd
  rw [Compare.hasRow]
  cases hrow : detailRowOf d with
  | dict fields => rfl
  | _ =>
    rw [hrow] at hhex
    cases hhex

theorem hasRow_of_lane {base cand : Option (List Value)}
    (h : (base = none ∧ cand = none) ∨ LaneImproves base cand) :
    (∀ d ∈ base.getD [], hasRow d = true) ∧ ∀ d ∈ cand.getD [], hasRow d = true := by
  rcases h with ⟨rfl, rfl⟩ | ⟨b, c, rfl, rfl, hbase, hcand, -⟩
  · exact ⟨fun d hd => absurd hd List.not_mem_nil, fun d hd => absurd hd List.not_mem_nil⟩
  · exact ⟨hbase.hasRow, hcand.hasRow⟩

theorem gatedRows_of_vision {input : Input}
    (h : Goes (visionStage input.base.vision input.cand.vision))
    (hcomplete : (missingLanes input).isEmpty = true) :
    GatedRows (input.base.vision.getD []) ∧ GatedRows (input.cand.vision.getD []) := by
  rcases visionStage_pass h with ⟨hnone, -⟩ | ⟨b, c, hb, hc, hpassed⟩
  · exact absurd hnone (missingLanes_empty hcomplete).2.2
  · rw [hb, hc]
    exact ⟨(ttfts_gated hpassed.baseTtfts).2, (ttfts_gated hpassed.candTtfts).2⟩

/-! ## The run -/

/-- The values that the stages reach, each where those before it let the run go on. -/
structure StagesUsable (interp : Interp) (repeats : Nat) (input : Input)
    (base cand : List ProseRow) : Prop where
  counts : CountsUsable "baseline" repeats base ∧
    (Passes (checkCounts "baseline" repeats base) → CountsUsable "candidate" repeats cand)
  short : Goes (proseStage repeats base cand) →
    RoundsPairUsable "baseline" "candidate" .short input.base.upstream input.cand.upstream
  medium : Goes (proseStage repeats base cand) →
    Goes (shortStage input.base.upstream input.cand.upstream) →
    RoundsPairUsable "baseline medium" "candidate medium" .medium input.base.medium
      input.cand.medium
  vision : Goes (proseStage repeats base cand) →
    Goes (shortStage input.base.upstream input.cand.upstream) →
    Goes (mediumStage input.base.medium input.cand.medium) →
    VisionPairUsable input.base.vision input.cand.vision
  lever : Goes (proseStage repeats base cand) →
    Goes (shortStage input.base.upstream input.cand.upstream) →
    Goes (mediumStage input.base.medium input.cand.medium) →
    Goes (visionStage input.base.vision input.cand.vision) →
    (missingLanes input).isEmpty = true →
    LeverUsable (fieldsOf input.cand.manifest) (input.base.vision.getD [])
      (input.cand.vision.getD [])
  binding : Goes (proseStage repeats base cand) →
    Goes (shortStage input.base.upstream input.cand.upstream) →
    Goes (mediumStage input.base.medium input.cand.medium) →
    Goes (visionStage input.base.vision input.cand.vision) →
    (missingLanes input).isEmpty = true →
    Goes (leverStage (fieldsOf input.cand.manifest) (input.base.vision.getD [])
      (input.cand.vision.getD [])) →
    BindingsUsable interp input

theorem closed_stages {repeats : Nat} {input : Input} {base cand : List ProseRow} {gates : Gates}
    (hbase : base.map (fun row => Value.dict row.fields) = keptRows input.base.rows)
    (hcand : cand.map (fun row => Value.dict row.fields) = keptRows input.cand.rows) :
    Closed (onward (proseStage repeats base cand gates) fun gates =>
      onward (shortStage input.base.upstream input.cand.upstream gates) fun gates =>
      onward (mediumStage input.base.medium input.cand.medium gates) fun gates =>
      onward (visionStage input.base.vision input.cand.vision gates) fun gates =>
      onward (.ok (gates, (missingLanes input).isEmpty)) fun gates =>
      onward (leverStage (fieldsOf input.cand.manifest) (input.base.vision.getD [])
        (input.cand.vision.getD []) gates) fun gates =>
      onward (bindingStage interp.env input base cand gates) fun gates =>
      .ok ⟨.pass, some "prose E2E (end-to-end request, usage-based token rate)", gates⟩) ↔
      StagesUsable interp repeats input base cand := by
  have hbinding : Goes (proseStage repeats base cand) →
      Goes (shortStage input.base.upstream input.cand.upstream) →
      Goes (mediumStage input.base.medium input.cand.medium) →
      Goes (visionStage input.base.vision input.cand.vision) →
      (missingLanes input).isEmpty = true → ∀ gates,
        Closed (bindingStage interp.env input base cand gates) ↔ BindingsUsable interp input := by
    intro _ hshort hmedium hvision hcomplete gates
    obtain ⟨hshortBase, hshortCand⟩ := hasRow_of_lane (shortStage_pass hshort)
    obtain ⟨hmediumBase, hmediumCand⟩ := hasRow_of_lane (mediumStage_pass hmedium)
    obtain ⟨hvisionBase, hvisionCand⟩ := gatedRows_of_vision hvision hcomplete
    exact closed_bindingStage ⟨hbase, hshortBase, hmediumBase, hvisionBase.objects⟩
      ⟨hcand, hshortCand, hmediumCand, hvisionCand.objects⟩
  have hcomplete : Goes (fun gates => .ok (gates, (missingLanes input).isEmpty)) ↔
      (missingLanes input).isEmpty = true := by
    constructor
    · rintro ⟨_, _, h⟩
      exact (Prod.mk.inj (Except.ok.inj h)).2
    · intro h
      exact ⟨gates, gates, by rw [h]⟩
  refine (closed_onward steady_proseStage (fun _ => closed_proseStage) (fun hprose =>
    closed_onward steady_shortStage (fun _ => closed_shortStage) fun hshort =>
    closed_onward steady_mediumStage (fun _ => closed_mediumStage) fun hmedium =>
    closed_onward steady_visionStage (fun _ => closed_visionStage) fun hvision =>
    closed_onward steady_on (fun _ => iff_of_true (closed_ok _) trivial) fun hmissing =>
    closed_onward steady_leverStage (fun _ =>
      have hrows := gatedRows_of_vision hvision (hcomplete.mp hmissing)
      closed_leverStage hrows.1 hrows.2) fun _ =>
    closed_onward (steady_bind _ _ _)
      (hbinding hprose hshort hmedium hvision (hcomplete.mp hmissing))
      fun _ _ => iff_of_true (closed_ok _) trivial) gates).trans ?_
  simp only [hcomplete, true_and, implies_true, and_true]
  constructor
  · rintro ⟨hcounts, h⟩
    exact ⟨hcounts, fun h₁ => (h h₁).1, fun h₁ h₂ => ((h h₁).2 h₂).1,
      fun h₁ h₂ h₃ => (((h h₁).2 h₂).2 h₃).1, fun h₁ h₂ h₃ h₄ h₅ => ((((h h₁).2 h₂).2 h₃).2 h₄ h₅).1,
      fun h₁ h₂ h₃ h₄ h₅ => ((((h h₁).2 h₂).2 h₃).2 h₄ h₅).2⟩
  · intro h
    exact ⟨h.counts, fun h₁ => ⟨h.short h₁, fun h₂ => ⟨h.medium h₁ h₂, fun h₃ =>
      ⟨h.vision h₁ h₂ h₃, fun h₄ h₅ => ⟨h.lever h₁ h₂ h₃ h₄ h₅, h.binding h₁ h₂ h₃ h₄ h₅⟩⟩⟩⟩⟩

/-- The values that the run reaches, each where the checks before it pass, are ones that its checks
can use. -/
structure Handled (interp : Interp) (repeats : Nat) (input : Input) : Prop where
  manifests : input.base.manifest.asDict?.isSome = true ∧
    input.cand.manifest.asDict?.isSome = true
  parity : ParityUsable interp (fieldsOf input.base.manifest) (fieldsOf input.cand.manifest)
  base : Passes (checkParity interp.env (fieldsOf input.base.manifest)
    (fieldsOf input.cand.manifest)) → ProseUsable interp.env "baseline" 0 input.base.rows
  cand : Passes (checkParity interp.env (fieldsOf input.base.manifest)
    (fieldsOf input.cand.manifest)) →
    Passes (measuredProseRows interp.env "baseline" 0 input.base.rows) →
    ProseUsable interp.env "candidate" 0 input.cand.rows
  stages : Passes (checkParity interp.env (fieldsOf input.base.manifest)
    (fieldsOf input.cand.manifest)) → ∀ base cand,
    measuredProseRows interp.env "baseline" 0 input.base.rows = .ok base →
    measuredProseRows interp.env "candidate" 0 input.cand.rows = .ok cand →
    StagesUsable interp repeats input base cand

theorem compare_closed_iff (interp : Interp) (repeats : Nat) (input : Input) :
    Closed (compare interp.env repeats input) ↔ Handled interp repeats input := by
  have hdict : ∀ v : Value, Closed (dictOf v) ↔ v.asDict?.isSome = true := fun v => closed_orRaise
  have hfields : ∀ {v : Value} {fields : Fields}, dictOf v = .ok fields → fields = fieldsOf v := by
    intro v fields h
    rw [dictOf_ok.mp h]
    rfl
  rw [compare, closed_bind, hdict]
  constructor
  · rintro ⟨hbase, h⟩
    obtain ⟨hcand, h⟩ := closed_bind.mp (h _ (dictOf_eq hbase))
    obtain ⟨hparity, h⟩ := closed_bind.mp (h _ (dictOf_eq ((hdict _).mp hcand)))
    have hprose : ∀ parity, checkParity interp.env (fieldsOf input.base.manifest)
        (fieldsOf input.cand.manifest) = .ok parity → _ := fun parity hok =>
      closed_bind.mp (h parity hok)
    refine ⟨⟨hbase, (hdict _).mp hcand⟩, closed_checkParity.mp hparity, ?_, ?_, ?_⟩
    · rintro ⟨parity, hok⟩
      exact closed_measuredProseRows.mp (hprose parity hok).1
    · rintro ⟨parity, hok⟩ ⟨base, hrows⟩
      exact closed_measuredProseRows.mp (closed_bind.mp ((hprose parity hok).2 base hrows)).1
    · rintro ⟨parity, hok⟩ base cand hrows hrows'
      have hstages := (closed_bind.mp ((hprose parity hok).2 base hrows)).2 cand hrows'
      exact (closed_stages (measuredProseRows_ok hrows).1 (measuredProseRows_ok hrows').1).mp hstages
  · intro h
    refine ⟨h.manifests.1, fun fields hok => ?_⟩
    obtain rfl := hfields hok
    refine closed_bind.mpr ⟨(hdict _).mpr h.manifests.2, fun fields hok => ?_⟩
    obtain rfl := hfields hok
    refine closed_bind.mpr ⟨closed_checkParity.mpr h.parity, fun parity hparity => ?_⟩
    refine closed_bind.mpr ⟨closed_measuredProseRows.mpr (h.base ⟨parity, hparity⟩), fun base hb => ?_⟩
    refine closed_bind.mpr ⟨closed_measuredProseRows.mpr (h.cand ⟨parity, hparity⟩ ⟨base, hb⟩),
      fun cand hc => ?_⟩
    exact (closed_stages (measuredProseRows_ok hb).1 (measuredProseRows_ok hc).1).mpr
      (h.stages ⟨parity, hparity⟩ base cand hb hc)

/-! ## Evidence that raises -/

/-- The manifests are objects and the rows are lists of objects. -/
def supplied (input : Input) : Bool :=
  [input.base, input.cand].all fun side =>
    (side.manifest :: side.rows ++ side.upstream.getD [] ++ side.medium.getD [] ++
      side.vision.getD []).all fun v => v.asDict?.isSome

/-- The surroundings of the sample, with the reducer's own digests and profiles. -/
def sampleInterp : Interp where
  parseFloat := sampleEnv.parseFloat
  text := sampleText
  dumps := sampleDumps
  repr := sampleText
  hash
    | .dict [] => requestDigest
    | .dict fields => manifestDigest (Value.lookup fields "lever").isSome
    | _ => []

/-- A valid row whose case is an array. -/
def unhashableRow : Value :=
  dict (evidence false .prose ++ [("case", .list []), ("repeat", .int 0), ("valid", .bool true),
    ("ok", .bool true), ("finish_reason", .str (str "stop")),
    ("usage", dict [("prompt_tokens", .int 20), ("completion_tokens", .int 100),
      ("total_tokens", .int 120)]),
    ("ttft_s", .int 1), ("wall_s", .int 10), ("raw_events", .list [.dict []])])

/-- The sample with that row as well. -/
def unhashableInput : Input :=
  let input := sampleInput (.bool false) true 2
  { input with base := { input.base with rows := input.base.rows ++ [unhashableRow] } }

/-- The exception that ends a check, when it is no refusal. -/
def exceptionOf {α : Type} : Check α → Option String
  | .error (.raised e) => some e
  | _ => none

theorem not_closed_of_exception {α : Type} {x : Check α} {e : String}
    (h : exceptionOf x = some e) : ¬ Closed x := by
  cases x with
  | ok a => cases h
  | error fault =>
    cases fault with
    | reject message => cases h
    | raised e => exact not_closed_raised e

theorem compare_raises : ¬ ∀ (interp : Interp) (repeats : Nat) (input : Input),
    supplied input = true → Closed (compare interp.env repeats input) := by
  intro h
  have hraises : exceptionOf (compare sampleInterp.env 5 unhashableInput) = some "TypeError" := by
    decide +kernel
  exact not_closed_of_exception hraises (h sampleInterp 5 unhashableInput (by decide))

end Compare
end FlashNext
