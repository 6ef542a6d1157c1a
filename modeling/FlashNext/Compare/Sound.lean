import FlashNext.Compare.Verdict

/-!
# What a pass establishes

A run reaches `PASS` through all of its stages.  Each stage has one lemma that says what it
establishes when it lets the run go on, and the soundness of the verdict is put together from
them.
-/

namespace FlashNext
namespace Compare

open Py (Str Value str)

/-! ## The rows -/

/-- The prose rows that are no warmup. -/
def keptRows (rows : List Value) : List Value := rows.filter keptProse

def caseRows (rows : List Value) (case : String) : List Value :=
  (keptRows rows).filter fun row => isText (Value.field (fieldsOf row) "case") case

/-- The vision rows that are no warmup. -/
def gatedRows (rows : List Value) : List Value := rows.filter fun row => isGated (fieldsOf row)

/-- A number of the row. -/
def metricOf (metric : String) (row : Value) : ℚ :=
  (number? (Value.field (fieldsOf row) metric)).getD 0

/-- The rows of a lane, as its binding sees them. -/
def laneRows (side : Side) : Lane → List Value
  | .prose => keptRows side.rows
  | .short => (side.upstream.getD []).map detailRowOf
  | .medium => (side.medium.getD []).map detailRowOf
  | .vision => side.vision.getD []

/-! ## What holds of the evidence -/

/-- The candidate's median is at least 1.05 times the baseline's. -/
def Improves (base cand : List ℚ) : Prop := 21 / 20 * medianOf base ≤ medianOf cand

/-- The measured rows are the fixed repeats of the fixed cases, and each is complete. -/
structure ProseSide (repeats : Nat) (rows : List Value) : Prop where
  evidence : ∀ row ∈ keptRows rows, ProseEvidence row
  cases : ∀ row ∈ keptRows rows, ∃ case ∈ proseCases,
    Value.field (fieldsOf row) "case" = .str (str case)
  repeats : ∀ case ∈ proseCases,
    ((caseRows rows case).map fun row => Value.field (fieldsOf row) "repeat").Perm
      ((List.range repeats).map fun n : Nat => .int n)

/-- A vision row that the gate has accepted. -/
structure VisionEvidence (row : Value) : Prop where
  error : (Value.field (fieldsOf row) "error").isNone = true
  valid : Value.field (fieldsOf row) "valid" = .bool true
  finish : Value.field (fieldsOf row) "finish_reason" = .str (str "stop")
  ttft : number? (Value.field (fieldsOf row) "ttft_s") = some (metricOf "ttft_s" row) ∧
    0 < metricOf "ttft_s" row

/-- One side of a comparison that passed. -/
structure SideSound (env : Env) (repeats : Nat) (side : Side) : Prop where
  prose : ProseSide repeats side.rows
  short : ∃ detail, side.upstream = some detail ∧ UpstreamEvidence 5 detail
  medium : ∃ detail, side.medium = some detail ∧ UpstreamEvidence 5 detail
  vision : ∃ rows, side.vision = some rows ∧ ∀ row ∈ gatedRows rows, VisionEvidence row
  bound : ∀ lane, ∃ fingerprint inputs,
    LaneBound env side.manifest lane (laneRows side lane) fingerprint inputs

/-- Both sides are sound and the candidate's numbers pass the gates. -/
structure Sound (env : Env) (repeats : Nat) (input : Input) : Prop where
  base : SideSound env repeats input.base
  cand : SideSound env repeats input.cand
  prose : ∀ case ∈ proseCases, Improves ((caseRows input.base.rows case).map proseRate)
    ((caseRows input.cand.rows case).map proseRate)
  short : Improves ((laneRows input.base .short).map upstreamRateOf)
    ((laneRows input.cand .short).map upstreamRateOf)
  medium : Improves ((laneRows input.base .medium).map upstreamRateOf)
    ((laneRows input.cand .medium).map upstreamRateOf)
  vision : percentileOf ((gatedRows (laneRows input.cand .vision)).map (metricOf "ttft_s"))
      (95 / 100) ≤
    21 / 20 * percentileOf ((gatedRows (laneRows input.base .vision)).map (metricOf "ttft_s"))
      (95 / 100)

/-! ## The stages of a run that passes -/

/-- The stage lets the run go on. -/
def Goes (stage : Gates → Check (Gates × Bool)) : Prop :=
  ∃ gates gates', stage gates = .ok (gates', true)

theorem onward_pass (stage : Gates → Check (Gates × Bool)) (gates : Gates)
    {next : Gates → Check Report} {r : Report} (h : onward (stage gates) next = .ok r)
    (hpass : r.verdict = .pass) : Goes stage ∧ ∃ gates', next gates' = .ok r := by
  rw [onward, Effect.bind_ok] at h
  obtain ⟨⟨gates', go⟩, hstage, h⟩ := h
  cases go with
  | true => exact ⟨⟨gates, gates', hstage⟩, gates', h⟩
  | false =>
    obtain rfl := Except.ok.inj h
    cases hpass

/-- A run that passes, with the prose rows that its sides kept. -/
structure Passed (env : Env) (repeats : Nat) (input : Input) (base cand : List ProseRow) :
    Prop where
  baseRows : measuredProseRows env "baseline" 0 input.base.rows = .ok base
  candRows : measuredProseRows env "candidate" 0 input.cand.rows = .ok cand
  prose : Goes (proseStage repeats base cand)
  short : Goes (shortStage input.base.upstream input.cand.upstream)
  medium : Goes (mediumStage input.base.medium input.cand.medium)
  vision : Goes (visionStage input.base.vision input.cand.vision)
  complete : (missingLanes input).isEmpty = true
  lever : Goes (leverStage (fieldsOf input.cand.manifest) (input.base.vision.getD [])
    (input.cand.vision.getD []))
  binding : Goes (bindingStage env input base cand)

theorem compare_pass {env : Env} {repeats : Nat} {input : Input} {r : Report}
    (h : compare env repeats input = .ok r) (hpass : r.verdict = .pass) :
    ∃ base cand, Passed env repeats input base cand := by
  simp only [compare, Effect.bind_ok, dictOf_ok] at h
  obtain ⟨_, -, candManifest, hmanifest, parity, -, base, hbase, cand, hcand, h⟩ := h
  have hfields : fieldsOf input.cand.manifest = candManifest := by
    rw [hmanifest]
    rfl
  obtain ⟨hprose, gates₁, h⟩ := onward_pass (proseStage repeats base cand) _ h hpass
  obtain ⟨hshort, gates₂, h⟩ :=
    onward_pass (shortStage input.base.upstream input.cand.upstream) _ h hpass
  obtain ⟨hmedium, gates₃, h⟩ :=
    onward_pass (mediumStage input.base.medium input.cand.medium) _ h hpass
  obtain ⟨hvision, gates₄, h⟩ :=
    onward_pass (visionStage input.base.vision input.cand.vision) _ h hpass
  obtain ⟨⟨_, _, hcomplete⟩, gates₅, h⟩ :=
    onward_pass (fun gates => .ok (gates, (missingLanes input).isEmpty)) _ h hpass
  obtain ⟨hlever, gates₆, h⟩ := onward_pass (leverStage candManifest
    (input.base.vision.getD []) (input.cand.vision.getD [])) _ h hpass
  obtain ⟨hbinding, -⟩ := onward_pass (bindingStage env input base cand) _ h hpass
  rw [← hfields] at hlever
  exact ⟨base, cand, hbase, hcand, hprose, hshort, hmedium, hvision,
    (Prod.mk.inj (Except.ok.inj hcomplete)).2, hlever, hbinding⟩

/-! ## What a stage establishes -/

theorem gainOf_pass {b c : ℚ} (hb : 0 < b) (h : (gainOf b c).pass = true) : 21 / 20 * b ≤ c := by
  have hgain : 5 / 100 ≤ (c - b) / b := of_decide_eq_true h
  rw [le_div_iff₀ hb] at hgain
  linarith

theorem proseLoop_pass {base cand : List ProseRow} {cases : List String}
    {gates : List (String × Gain)} (h : proseLoop base cand cases = .ok (gates, none)) :
    ∀ case ∈ cases, Improves ((byCase base case).map ProseRow.rate)
      ((byCase cand case).map ProseRow.rate) := by
  induction cases generalizing gates with
  | nil => exact fun case hcase => absurd hcase List.not_mem_nil
  | cons case cases ih =>
    simp only [proseLoop, Effect.bind_ok] at h
    obtain ⟨b, hb, c, hc, h⟩ := h
    by_cases hzero : b ≤ 0
    · rw [if_pos hzero] at h
      cases h
    · rw [if_neg hzero] at h
      cases hgain : (gainOf b c).pass with
      | false =>
        rw [hgain] at h
        cases h
      | true =>
        rw [hgain, if_pos rfl, Effect.bind_ok] at h
        obtain ⟨⟨rest, rejected⟩, hrest, h⟩ := h
        obtain ⟨-, rfl⟩ := Prod.mk.inj (Except.ok.inj h)
        intro other hother
        rcases List.mem_cons.mp hother with rfl | hother
        · have himproves := gainOf_pass (not_le.mp hzero) hgain
          rw [median_ok hb, median_ok hc] at himproves
          exact himproves
        · exact ih hrest other hother

theorem proseStage_pass {repeats : Nat} {base cand : List ProseRow}
    (h : Goes (proseStage repeats base cand)) :
    checkCounts "baseline" repeats base = .ok () ∧
      checkCounts "candidate" repeats cand = .ok () ∧
      ∀ case ∈ proseCases, Improves ((byCase base case).map ProseRow.rate)
        ((byCase cand case).map ProseRow.rate) := by
  obtain ⟨gates, gates', h⟩ := h
  rw [proseStage, Effect.bind_ok] at h
  obtain ⟨counts, hcounts, h⟩ := h
  cases counts with
  | error message => cases h
  | ok u =>
    rw [caught_ok, Effect.bind_ok] at hcounts
    obtain ⟨_, hbase, hcand⟩ := hcounts
    rw [Effect.bind_ok] at h
    obtain ⟨⟨prose, rejected⟩, hprose, h⟩ := h
    have hnone := (Prod.mk.inj (Except.ok.inj h)).2
    rw [Option.isNone_iff_eq_none] at hnone
    have hloop : proseLoop base cand proseCases = .ok (prose, none) := by
      rw [hprose, ← hnone]
    exact ⟨hbase, hcand, proseLoop_pass hloop⟩

/-- Both sides have the rounds, and the candidate's median rate passes the gate. -/
def LaneImproves (base cand : Option (List Value)) : Prop :=
  ∃ b c, base = some b ∧ cand = some c ∧ UpstreamEvidence 5 b ∧ UpstreamEvidence 5 c ∧
    Improves (b.map fun d => upstreamRateOf (detailRowOf d))
      (c.map fun d => upstreamRateOf (detailRowOf d))

theorem laneImproves_of_rates {variant variant' : String} {lane : Lane} {base cand : List Value}
    {b c : ℚ} (hb : upstreamMedianRate variant lane 5 base = .ok b)
    (hc : upstreamMedianRate variant' lane 5 cand = .ok c) (hgain : (gainOf b c).pass = true) :
    LaneImproves (some base) (some cand) := by
  obtain ⟨hbase, hbmedian, hpos⟩ := upstreamMedianRate_ok hb
  obtain ⟨hcand, hcmedian, -⟩ := upstreamMedianRate_ok hc
  have himproves := gainOf_pass hpos hgain
  rw [hbmedian, hcmedian] at himproves
  exact ⟨base, cand, rfl, rfl, hbase, hcand, himproves⟩

theorem shortStage_pass {base cand : Option (List Value)} (h : Goes (shortStage base cand)) :
    (base = none ∧ cand = none) ∨ LaneImproves base cand := by
  obtain ⟨gates, gates', h⟩ := h
  unfold shortStage at h
  split at h
  · exact Or.inl ⟨rfl, rfl⟩
  · rw [Effect.bind_ok] at h
    obtain ⟨gain, hgain, h⟩ := h
    cases gain with
    | error message => cases h
    | ok gain =>
      rw [caught_ok] at hgain
      simp only [shortGain, Effect.bind_ok, rejectIf_ok, Bool.not_eq_false'] at hgain
      obtain ⟨b, hb, c, hc, -, hpass, -⟩ := hgain
      exact Or.inr (laneImproves_of_rates hb hc hpass)
  · cases h

theorem mediumStage_pass {base cand : Option (List Value)} (h : Goes (mediumStage base cand)) :
    (base = none ∧ cand = none) ∨ LaneImproves base cand := by
  obtain ⟨gates, gates', h⟩ := h
  unfold mediumStage at h
  split at h
  · exact Or.inl ⟨rfl, rfl⟩
  · simp only [Effect.bind_ok] at h
    obtain ⟨b, hb, c, hc, h⟩ := h
    have hpass := (Prod.mk.inj (Except.ok.inj h)).2
    exact Or.inr (laneImproves_of_rates hb hc hpass)
  · cases h

/-! ## The vision gate -/

theorem visionTtft_ok {variant : String} {i : Nat} {fields : Fields} {ttft : ℚ}
    (h : visionTtft variant i fields = .ok ttft) :
    VisionEvidence (.dict fields) ∧ ttft = metricOf "ttft_s" (.dict fields) := by
  simp only [visionTtft, Effect.bind_ok, rejectIf_ok, requireFinitePositive_ok] at h
  obtain ⟨-, herror, -, hvalid, -, -, ⟨hnumber, hpos⟩, -⟩ := h
  rw [Bool.not_eq_false'] at herror
  rw [Bool.or_eq_false_iff, Bool.not_eq_false', Bool.not_eq_false', Value.isTrue_iff, isText_iff]
    at hvalid
  have hmetric : metricOf "ttft_s" (.dict fields) = ttft := by
    show (number? (Value.field fields "ttft_s")).getD 0 = ttft
    rw [hnumber]
    rfl
  refine ⟨⟨herror, hvalid.1, hvalid.2, ?_, ?_⟩, hmetric.symm⟩
  · rw [hmetric]
    exact hnumber
  · rw [hmetric]
    exact hpos

/-- The gate reads the rows that are no warmup, each once and in their order. -/
theorem ttftsFrom_ok {variant : String} {i : Nat} {rows : List Value} {out : List ℚ}
    (h : ttftsFrom variant i rows = .ok out) :
    out = (gatedRows rows).map (metricOf "ttft_s") ∧ ∀ row ∈ gatedRows rows, VisionEvidence row := by
  induction rows generalizing i out with
  | nil =>
    obtain rfl := Except.ok.inj h
    exact ⟨rfl, fun row hrow => absurd hrow List.not_mem_nil⟩
  | cons row rows ih =>
    rw [ttftsFrom, Effect.bind_ok] at h
    obtain ⟨fields, hfields, h⟩ := h
    obtain rfl := dictOf_ok.mp hfields
    have hrows : gatedRows (.dict fields :: rows) =
        if isGated fields then .dict fields :: gatedRows rows else gatedRows rows :=
      List.filter_cons
    by_cases hgated : isGated fields = true
    · rw [if_pos hgated] at h hrows
      simp only [Effect.bind_ok, Effect.pure_ok] at h
      obtain ⟨ttft, httft, rest, hrest, rfl⟩ := h
      obtain ⟨hrow, rfl⟩ := visionTtft_ok httft
      obtain ⟨hout, hall⟩ := ih hrest
      rw [hrows, List.map_cons, ← hout]
      refine ⟨rfl, fun r hr => ?_⟩
      rcases List.mem_cons.mp hr with rfl | hr
      · exact hrow
      · exact hall r hr
    · rw [if_neg hgated] at h hrows
      rw [hrows]
      exact ih h

theorem ttfts_ok {variant : String} {rows : List Value} {out : List ℚ}
    (h : ttfts variant rows = .ok out) :
    out = (gatedRows rows).map (metricOf "ttft_s") ∧
      (∀ row ∈ gatedRows rows, VisionEvidence row) ∧ 2 ≤ out.length := by
  simp only [ttfts, Effect.bind_ok, rejectIf_ok, Effect.pure_ok, decide_eq_false_iff_not,
    not_lt] at h
  obtain ⟨ts, hts, -, hlength, rfl⟩ := h
  obtain ⟨hout, hall⟩ := ttftsFrom_ok hts
  exact ⟨hout, hall, hlength⟩

/-- Both sides have vision rows, and the candidate's 95th percentile passes the gate. -/
structure VisionPassed (base cand : List Value) : Prop where
  baseTtfts : ttfts "baseline" base = .ok ((gatedRows base).map (metricOf "ttft_s"))
  candTtfts : ttfts "candidate" cand = .ok ((gatedRows cand).map (metricOf "ttft_s"))
  baseRows : ∀ row ∈ gatedRows base, VisionEvidence row
  candRows : ∀ row ∈ gatedRows cand, VisionEvidence row
  regression : percentileOf ((gatedRows cand).map (metricOf "ttft_s")) (95 / 100) ≤
    21 / 20 * percentileOf ((gatedRows base).map (metricOf "ttft_s")) (95 / 100)

theorem visionTtftGate_pass {base cand : Option (List Value)} {gate : VisionGate}
    (h : visionTtftGate base cand = .ok gate) (hpass : gate.pass = true) :
    ∃ b c, base = some b ∧ cand = some c ∧ VisionPassed b c := by
  unfold visionTtftGate at h
  split at h
  · rename_i b c
    simp only [Effect.bind_ok, rejectIf_ok] at h
    obtain ⟨bs, hbs, cs, hcs, _, -, _, -, -, -, b95, hb95, c95, hc95, h⟩ := h
    obtain rfl := Except.ok.inj h
    obtain ⟨rfl, hbrows, hblength⟩ := ttfts_ok hbs
    obtain ⟨rfl, hcrows, -⟩ := ttfts_ok hcs
    obtain rfl := percentile_ok hb95
    obtain rfl := percentile_ok hc95
    have hpos : 0 < percentileOf ((gatedRows b).map (metricOf "ttft_s")) (95 / 100) := by
      apply percentileOf_pos
      · intro hnil
        rw [hnil, List.length_nil] at hblength
        omega
      · intro x hx
        obtain ⟨row, hrow, rfl⟩ := List.mem_map.mp hx
        exact (hbrows row hrow).ttft.2
    have hregression := of_decide_eq_true hpass
    rw [threshold, div_le_iff₀ hpos] at hregression
    refine ⟨b, c, rfl, rfl, hbs, hcs, hbrows, hcrows, ?_⟩
    linarith
  · cases h

theorem visionStage_pass {base cand : Option (List Value)} (h : Goes (visionStage base cand)) :
    (base = none ∧ cand = none) ∨
      ∃ b c, base = some b ∧ cand = some c ∧ VisionPassed b c := by
  obtain ⟨gates, gates', h⟩ := h
  unfold visionStage at h
  by_cases hnone : (base.isNone && cand.isNone) = true
  · rw [Bool.and_eq_true, Option.isNone_iff_eq_none, Option.isNone_iff_eq_none] at hnone
    exact Or.inl hnone
  · rw [if_neg hnone, Effect.bind_ok] at h
    obtain ⟨gate, hgate, h⟩ := h
    have hpass := (Prod.mk.inj (Except.ok.inj h)).2
    cases gate with
    | error message => cases hpass
    | ok gate =>
      rw [caught_ok] at hgate
      exact Or.inr (visionTtftGate_pass hgate hpass)

/-! ## The bindings -/

theorem bindSide_ok {env : Env} {side : Side} {prose : List ProseRow} {u : Unit}
    (hprose : prose.map (fun row => Value.dict row.fields) = keptRows side.rows)
    (h : bindSide env side prose = .ok u) (lane : Lane) :
    ∃ fingerprint inputs,
      LaneBound env side.manifest lane (laneRows side lane) fingerprint inputs := by
  simp only [bindSide, Effect.bind_ok] at h
  obtain ⟨short, hshort, medium, hmedium, _, hbprose, _, hbshort, _, hbmedium, hbvision⟩ := h
  obtain rfl := Effect.mapM_eq_map (fun _ _ => detailRow_ok) hshort
  obtain rfl := Effect.mapM_eq_map (fun _ _ => detailRow_ok) hmedium
  rw [hprose] at hbprose
  cases lane with
  | prose => exact checkEvidenceBinding_ok hbprose
  | short => exact checkEvidenceBinding_ok hbshort
  | medium => exact checkEvidenceBinding_ok hbmedium
  | vision => exact checkEvidenceBinding_ok hbvision

theorem bindingStage_pass {env : Env} {input : Input} {base cand : List ProseRow}
    (h : Goes (bindingStage env input base cand)) :
    bindSide env input.base base = .ok () ∧ bindSide env input.cand cand = .ok () := by
  obtain ⟨gates, gates', h⟩ := h
  rw [bindingStage, Effect.bind_ok] at h
  obtain ⟨bound, hbound, h⟩ := h
  have hpass := (Prod.mk.inj (Except.ok.inj h)).2
  cases bound with
  | error message => cases hpass
  | ok u =>
    rw [caught_ok, Effect.bind_ok] at hbound
    obtain ⟨_, hbase, hcand⟩ := hbound
    exact ⟨hbase, hcand⟩

theorem missingLanes_empty {input : Input} (h : (missingLanes input).isEmpty = true) :
    input.base.upstream ≠ none ∧ input.base.medium ≠ none ∧ input.base.vision ≠ none := by
  rw [List.isEmpty_iff, missingLanes, List.map_eq_nil_iff, List.filter_eq_nil_iff] at h
  simp only [List.mem_cons, List.not_mem_nil, or_false, forall_eq_or_imp, forall_eq,
    Bool.not_eq_true, Bool.or_eq_false_iff, Option.isNone_eq_false_iff,
    Option.isSome_iff_ne_none] at h
  exact ⟨h.1.1, h.2.1.1, h.2.2.1⟩

/-! ## A run that passes -/

/-- A hash that is the same for every input of the sample. -/
def sampleHash : Str := List.replicate 64 48


/-- The hexadecimal digits of a hash. -/
def hexDigits (hash : Nat) : Str :=
  (List.range 64).map fun i =>
    let digit := hash / 16 ^ (63 - i) % 16
    if digit < 10 then 48 + digit else 87 + digit

/-- The digest of a request that is an empty object. -/
def requestDigest : Str :=
  hexDigits 0x44136fa355b3678a1146ad16f7e8649e94fb4fc21fe77e8310c060f61caaff8a

/-- The digests of the sample's two manifests. -/
def manifestDigest (candidate : Bool) : Str :=
  hexDigits (if candidate then 0xc7cc9c224553173a52dba34b6c6d12d9334960754de4c0b4abcfbea1bae852b0
    else 0xbdd3e90e2592bddaadaf15db1d1faa8e9d0a558ad0cbbb0a7b90316896b3f1b0)

def sampleText : Value → Str
  | .str s => s
  | .int n => [48 + n.toNat]
  | _ => []

def sampleDumps : Value → Str
  | .str s => str "\"" ++ s ++ str "\""
  | .int n => str (toString n)
  | _ => str "\x7b\x7d"

/-- The surroundings as they are on what the sample asks of them. -/
def sampleEnv : Env where
  parseFloat := fun _ => none
  text := sampleText
  dumps := sampleDumps
  digest := fun v =>
    .ok (match v with
      | .dict [] => requestDigest
      | .dict fields => manifestDigest (Value.lookup fields "lever").isSome
      | _ => [])
  profileFromDict := fun _ => .error (.raised "ValueError")

def dict (fields : List (String × Value)) : Value := .dict (fields.map fun f => (str f.1, f.2))

def visionCase (i : Nat) : Str := [118, 48 + i / 10, 48 + i % 10]

def sampleInputs : Value :=
  dict [("prose", dict (proseCases.map fun case => (case, .str sampleHash))),
    ("short", dict [("batch", .str sampleHash)]), ("medium", dict [("batch", .str sampleHash)]),
    ("vision", .dict ((List.range 43).map fun i => (visionCase i, .str sampleHash)))]

def sampleManifest (candidate : Bool) : Value :=
  dict ([("schema", .str (str "qwen38fn.promotion.v1")), ("model_id", .str modelId),
    ("model_sha", .str (List.replicate 40 48)), ("image_id", .str (str "sha256:" ++ sampleHash)),
    ("source_tree", .str (List.replicate 40 48)), ("tokenizer", .str sampleHash),
    ("input_token_sha", .str sampleHash), ("sampling", .dict []), ("context", .int 32768),
    ("total_pool", .int 32768), ("concurrency", .int 1), ("inputs", sampleInputs),
    ("requests", dict [("short", .list (List.replicate 8 (.dict []))),
      ("medium", .list (List.replicate 8 (.dict [])))]),
    ("manifest_sha256", .str (manifestDigest candidate))] ++
    if candidate then [("lever", .str (str "nextn"))] else [])

/-- What binds a row to the manifest of its side. -/
def evidence (candidate : Bool) (lane : Lane) : List (String × Value) :=
  [("epoch_verified", .bool true), ("model", .str modelId),
    ("_evidence", dict [("manifest_sha256", .str (manifestDigest candidate)),
      ("lane", .str (str lane.name)), ("model_id", .str modelId),
      ("input_sha256", .str sampleHash)])]

def proseRow (candidate : Bool) (case : String) (rep : Nat) : Value :=
  dict (evidence candidate .prose ++ [("case", .str (str case)), ("repeat", .int rep),
    ("valid", .bool true), ("ok", .bool true), ("finish_reason", .str (str "stop")),
    ("usage", dict [("prompt_tokens", .int 20), ("completion_tokens", .int 100),
      ("total_tokens", .int 120)]),
    ("ttft_s", .int 1), ("wall_s", .int (if candidate then 8 else 10)),
    ("raw_events", .list [.dict []])])

/-- The seconds that a round of the sample takes. -/
def sampleDuration (candidate : Bool) : Int := if candidate then 8 else 10

def upstreamRow (candidate : Bool) (lane : Lane) (rep : Nat) : Value :=
  let (inp, out) := laneTokens lane
  dict [("row", dict (evidence candidate lane ++ [("repeat", .int rep),
    ("native_result_sha256", .str ((48 + rep) :: List.replicate 63 48)),
    ("tag", .str (manifestDigest candidate ++ str "/" ++ str lane.name ++ str "/r" ++ [48 + rep])),
    ("request_hashes", .list (List.replicate 8 (.str requestDigest))),
    ("completed", .int 8), ("usage_source", .str (str "observed_oai_sse")),
    ("finish_source", .str (str "observed_oai_sse")),
    ("finish_reasons", .list (List.replicate 8 (.str (str "length")))),
    ("observed_usage", .list (List.replicate 8 (dict [("prompt_tokens", .int inp),
      ("completion_tokens", .int out), ("total_tokens", .int (inp + out))]))),
    ("cached_tokens", .list (List.replicate 8 (.int 0))),
    ("random_input_len", .int inp), ("random_output_len", .int out), ("max_concurrency", .int 1),
    ("total_input_tokens", .int (8 * inp)), ("total_output_tokens", .int (8 * out)),
    ("backend", .str (str "sglang-oai")), ("input_lens", .list (List.replicate 8 (.int inp))),
    ("output_lens", .list (List.replicate 8 (.int out))),
    ("errors", .list (List.replicate 8 (.str []))),
    ("generated_texts", .list (List.replicate 8 (.str (str "text")))),
    ("ttfts", .list (List.replicate 8 (.int 1))),
    ("duration", .int (sampleDuration candidate)),
    ("output_throughput", .float (8 * out / sampleDuration candidate))]))]

/-- A vision row, with what it says of itself. -/
def visionRow (candidate : Bool) (i : Nat) (warmup : Value) (valid : Bool) (ttft : Int) : Value :=
  dict (evidence candidate .vision ++ [("case_id", .str (visionCase i)), ("repeat", .int 0),
    ("input_sha256", .str sampleHash), ("warmup", warmup), ("valid", .bool valid),
    ("finish_reason", .str (str "stop")), ("ttft_s", .int ttft)])

/-- A side whose last vision row is given. -/
def sampleSide (candidate : Bool) (warmup : Value) (valid : Bool) (ttft : Int) : Side where
  rows := proseCases.flatMap fun case => (List.range 5).map (proseRow candidate case)
  manifest := sampleManifest candidate
  upstream := some ((List.range 5).map (upstreamRow candidate .short))
  medium := some ((List.range 5).map (upstreamRow candidate .medium))
  vision := some ((List.range 42).map (fun i => visionRow candidate i (.bool false) true 2) ++
    [visionRow candidate 42 warmup valid ttft])

/-- Two sides whose last vision rows have the same mark. -/
def sampleInput (warmup : Value) (valid : Bool) (ttft : Int) : Input :=
  ⟨sampleSide false warmup true 2, sampleSide true warmup valid ttft⟩

def passes : Check Report → Bool
  | .ok r => decide (r.verdict = .pass)
  | .error _ => false

theorem passes_iff {x : Check Report} : passes x = true ↔ ∃ r, x = .ok r ∧ r.verdict = .pass := by
  cases x with
  | ok r => simp [passes]
  | error e => simp [passes]

/-- The sample passes, and so it does when its last vision rows have a mark that is no `True`. -/
theorem sample_passes : passes (compare sampleEnv 5 (sampleInput (.bool false) true 2)) = true ∧
    passes (compare sampleEnv 5 (sampleInput (.int 1) false 1000)) = true := by
  decide +kernel

/-! ## Soundness -/

/-- The prose rows of a side that kept its rows and has the counts. -/
theorem proseSide_of_counts {env : Env} {variant : String} {repeats : Nat} {rows : List Value}
    {out : List ProseRow} (hrows : measuredProseRows env variant 0 rows = .ok out)
    (hcounts : checkCounts variant repeats out = .ok ()) :
    ProseSide repeats rows ∧
      ∀ case, (byCase out case).map ProseRow.rate = (caseRows rows case).map proseRate := by
  obtain ⟨hkept, hevidence⟩ := measuredProseRows_ok hrows
  obtain ⟨hcases, hrepeats⟩ := checkCounts_ok hcounts
  have hmem (row : Value) (hrow : row ∈ keptRows rows) :
      ∃ r ∈ out, Value.dict r.fields = row := by
    rw [keptRows, ← hkept] at hrow
    exact List.mem_map.mp hrow
  have hcase (case : String) : caseRows rows case =
      (byCase out case).map fun row => Value.dict row.fields := by
    rw [caseRows, keptRows, ← hkept, List.filter_map]
    rfl
  refine ⟨⟨fun row hrow => ?_, fun row hrow => ?_, fun case hmem => ?_⟩, fun case => ?_⟩
  · obtain ⟨r, hr, rfl⟩ := hmem row hrow
    exact (hevidence r hr).1
  · obtain ⟨r, hr, rfl⟩ := hmem row hrow
    exact hcases r hr
  · rw [hcase, List.map_map]
    exact hrepeats case hmem
  · rw [hcase, List.map_map]
    apply List.map_congr_left
    intro r hr
    exact (hevidence r (List.mem_filter.mp hr).1).2

theorem compare_sound (env : Env) (input : Input) (r : Report)
    (h : compare env 5 input = .ok r) (hpass : r.verdict = .pass) : Sound env 5 input := by
  obtain ⟨base, cand, hpassed⟩ := compare_pass h hpass
  obtain ⟨hbcounts, hccounts, hgain⟩ := proseStage_pass hpassed.prose
  obtain ⟨hbside, hbrates⟩ := proseSide_of_counts hpassed.baseRows hbcounts
  obtain ⟨hcside, hcrates⟩ := proseSide_of_counts hpassed.candRows hccounts
  obtain ⟨hupstream, hmediums, hvisions⟩ := missingLanes_empty hpassed.complete
  obtain ⟨hbbound, hcbound⟩ := bindingStage_pass hpassed.binding
  obtain ⟨bs, cs, hbs, hcs, hbshort, hcshort, hshort⟩ :=
    (shortStage_pass hpassed.short).resolve_left fun hnone => hupstream hnone.1
  obtain ⟨bm, cm, hbm, hcm, hbmedium, hcmedium, hmedium⟩ :=
    (mediumStage_pass hpassed.medium).resolve_left fun hnone => hmediums hnone.1
  obtain ⟨bv, cv, hbv, hcv, hvision⟩ :=
    (visionStage_pass hpassed.vision).resolve_left fun hnone => hvisions hnone.1
  have hbkept := (measuredProseRows_ok hpassed.baseRows).1
  have hckept := (measuredProseRows_ok hpassed.candRows).1
  refine ⟨⟨hbside, ⟨bs, hbs, hbshort⟩, ⟨bm, hbm, hbmedium⟩, ⟨bv, hbv, hvision.baseRows⟩,
    bindSide_ok hbkept hbbound⟩, ⟨hcside, ⟨cs, hcs, hcshort⟩, ⟨cm, hcm, hcmedium⟩,
    ⟨cv, hcv, hvision.candRows⟩, bindSide_ok hckept hcbound⟩, ?_, ?_, ?_, ?_⟩
  · intro case hcase
    rw [← hbrates, ← hcrates]
    exact hgain case hcase
  · rw [laneRows, laneRows, hbs, hcs, Option.getD_some, Option.getD_some, List.map_map,
      List.map_map]
    exact hshort
  · rw [laneRows, laneRows, hbm, hcm, Option.getD_some, Option.getD_some, List.map_map,
      List.map_map]
    exact hmedium
  · rw [laneRows, laneRows, hbv, hcv, Option.getD_some, Option.getD_some]
    exact hvision.regression

theorem compare_sound_sample :
    passes (compare sampleEnv 5 (sampleInput (.bool false) true 2)) = true ∧
      Sound sampleEnv 5 (sampleInput (.bool false) true 2) := by
  obtain ⟨r, hrun, hpass⟩ := passes_iff.mp sample_passes.1
  exact ⟨sample_passes.1, compare_sound sampleEnv (sampleInput (.bool false) true 2) r hrun hpass⟩

end Compare
end FlashNext
