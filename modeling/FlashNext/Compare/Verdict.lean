import FlashNext.Compare.Manifest

/-!
# The verdict

`compare` runs the stages one after another.  A stage that fails its gate ends the run with what
the gates show so far; only a run that passes them all reaches the verdict `PASS`.  Each stage
that reads the vision rows leaves out warmups by a test of its own.
-/

namespace FlashNext
namespace Compare

open Py (Str Value str)

/-- The least gain of a lane, and the largest regression of the vision lane. -/
def threshold : ℚ := 5 / 100

/-! ## The vision gate -/

/-- `if r.get("warmup"): continue`. -/
def isGated (fields : Fields) : Bool := !(Value.field fields "warmup").truthy

def visionTtft (variant : String) (i : Nat) (fields : Fields) : Check ℚ := do
  rejectIf (!(Value.field fields "error").isNone)
    [.text variant, .text " vision row ", .number i, .text " has error ",
      .value (Value.field fields "error")]
  rejectIf (!(Value.field fields "valid").isTrue ||
      !isText (Value.field fields "finish_reason") "stop")
    [.text variant, .text " vision row ", .number i,
      .text " lacks successful semantic/finish evidence"]
  rejectIf (Value.field fields "ttft_s").isNone
    [.text variant, .text " vision row ", .number i, .text " missing ttft_s"]
  requireFinitePositive (Value.field fields "ttft_s")
    [.text variant, .text " vision row ", .number i, .text " ttft_s"]

def ttftsFrom (variant : String) : Nat → List Value → Check (List ℚ)
  | _, [] => .ok []
  | i, row :: rows => do
    let fields ← dictOf row
    if isGated fields then do
      let ttft ← visionTtft variant i fields
      let out ← ttftsFrom variant (i + 1) rows
      return ttft :: out
    else ttftsFrom variant (i + 1) rows

def ttfts (variant : String) (rows : List Value) : Check (List ℚ) := do
  let out ← ttftsFrom variant 0 rows
  rejectIf (decide (out.length < 2))
    [.text variant, .text ": too few vision rows (", .number out.length, .text ") for p95"]
  return out

/-- A case, its repeat and the hash of its input. -/
abbrev Identity := (Str × Int) × Str

/-- The identity of one row, which none before it has. -/
def identityOf (seen : List Identity) (fields : Fields) : Check Identity := do
  let case ← orReject (Value.field fields "case_id").asStr?
    [.text "vision rows have missing/duplicate case/repeat identities"]
  let rep ← orReject (Value.field fields "repeat").asInt?
    [.text "vision rows have missing/duplicate case/repeat identities"]
  rejectIf (seen.any fun identity => identity.1 == (case, rep))
    [.text "vision rows have missing/duplicate case/repeat identities"]
  let input ← orReject ((Value.field fields "input_sha256").asStr?.filter (·.length == 64))
    [.text "vision input byte hash is missing"]
  return ((case, rep), input)

def identitiesFrom : List Identity → List Fields → Check (List Identity)
  | seen, [] => .ok seen
  | seen, fields :: rows => do
    let identity ← identityOf seen fields
    identitiesFrom (seen ++ [identity]) rows

def identities (rows : List Value) : Check (List Identity) := do
  let fields ← rows.mapM dictOf
  identitiesFrom [] (fields.filter isGated)

structure VisionGate where
  baselineP95 : ℚ
  candidateP95 : ℚ
  regression : ℚ
  pass : Bool

/-- `vision_ttft_gate`. -/
def visionTtftGate (base cand : Option (List Value)) : Check VisionGate :=
  match base, cand with
  | some base, some cand => do
    let b ← ttfts "baseline" base
    let c ← ttfts "candidate" cand
    let baseIdentities ← identities base
    let candIdentities ← identities cand
    rejectIf (baseIdentities.length != candIdentities.length ||
        !baseIdentities.all candIdentities.contains)
      [.text "vision case/input pairing mismatch"]
    let b95 ← percentile b (95 / 100)
    let c95 ← percentile c (95 / 100)
    let regression := (c95 - b95) / b95
    return ⟨b95, c95, regression, decide (regression ≤ threshold)⟩
  | _, _ => .error (.reject [.text "vision rows must be provided for BOTH variants"])

/-! ## The report -/

/-- What one variant gives. -/
structure Side where
  rows : List Value
  manifest : Value
  upstream : Option (List Value)
  medium : Option (List Value)
  vision : Option (List Value)

structure Input where
  base : Side
  cand : Side

structure Gain where
  baselineMedian : ℚ
  candidateMedian : ℚ
  improvement : ℚ
  pass : Bool

inductive Verdict where
  | notOptimized
  | pass
  deriving DecidableEq

structure Gates where
  parity : Parity
  missing : List String
  prose : List (String × Gain) × Option (List Piece) := ([], none)
  upstreamShort : Option (Except (List Piece) Gain) := none
  upstreamMedium : Option Gain := none
  visionP95 : Option (Except (List Piece) VisionGate) := none
  visionLeverGain : Option (String × ℚ × Bool) := none
  evidenceBinding : Option (Except (List Piece) Unit) := none

structure Report where
  verdict : Verdict
  label : Option String
  gates : Gates

/-- A stage that does not pass ends the run. -/
def onward (stage : Check (Gates × Bool)) (next : Gates → Check Report) : Check Report := do
  let (gates, go) ← stage
  if go then next gates else return ⟨.notOptimized, none, gates⟩

/-! ## The stages -/

def gainOf (b c : ℚ) : Gain := ⟨b, c, (c - b) / b, decide (threshold ≤ (c - b) / b)⟩

/-- The gates of the cases up to the first one that fails. -/
def proseLoop (base cand : List ProseRow) :
    List String → Check (List (String × Gain) × Option (List Piece))
  | [] => .ok ([], none)
  | case :: cases => do
    let b ← median ((byCase base case).map ProseRow.rate)
    let c ← median ((byCase cand case).map ProseRow.rate)
    if b ≤ 0 then return ([], some [.text case, .text ": zero/NaN median rate"])
    else if (gainOf b c).pass then do
      let (gates, rejected) ← proseLoop base cand cases
      return ((case, gainOf b c) :: gates, rejected)
    else return ([(case, gainOf b c)], some [.text case, .text ": median improvement ",
      .number (gainOf b c).improvement, .text " < 0.05"])

def proseStage (repeats : Nat) (base cand : List ProseRow) (gates : Gates) :
    Check (Gates × Bool) := do
  let counts ← caught (do
    checkCounts "baseline" repeats base
    checkCounts "candidate" repeats cand)
  match counts with
  | .error message => return ({ gates with prose := ([], some message) }, false)
  | .ok () => do
    let prose ← proseLoop base cand proseCases
    return ({ gates with prose := prose }, prose.2.isNone)

def shortGain (base cand : List Value) : Check Gain := do
  let b ← upstreamMedianRate "baseline" .short 5 base
  let c ← upstreamMedianRate "candidate" .short 5 cand
  rejectIf (!(gainOf b c).pass)
    [.text "short: median improvement ", .number (gainOf b c).improvement, .text " < 0.05"]
  return gainOf b c

def shortStage (base cand : Option (List Value)) (gates : Gates) : Check (Gates × Bool) :=
  match base, cand with
  | none, none => .ok (gates, true)
  | some base, some cand => do
    let gain ← caught (shortGain base cand)
    return ({ gates with upstreamShort := some gain }, gain.toOption.isSome)
  | _, _ =>
    .error (.reject [.text "upstream short/medium must be provided for BOTH variants"])

def mediumStage (base cand : Option (List Value)) (gates : Gates) : Check (Gates × Bool) :=
  match base, cand with
  | none, none => .ok (gates, true)
  | some base, some cand => do
    let b ← upstreamMedianRate "baseline medium" .medium 5 base
    let c ← upstreamMedianRate "candidate medium" .medium 5 cand
    return ({ gates with upstreamMedium := some (gainOf b c) }, (gainOf b c).pass)
  | _, _ => .error (.reject [.text "medium rows must be provided for BOTH variants"])

def visionStage (base cand : Option (List Value)) (gates : Gates) : Check (Gates × Bool) :=
  if base.isNone && cand.isNone then .ok (gates, true)
  else do
    let gate ← caught (visionTtftGate base cand)
    return ({ gates with visionP95 := some gate }, gate.toOption.any VisionGate.pass)

/-- The metric of the rows that are no warmup, as the vision lever's gain reads them. -/
def gainMetrics (metric : String) (rows : List Value) : Check (List ℚ) := do
  let fields ← rows.mapM dictOf
  (fields.filter isGated).mapM fun fields => do
    let value ← item fields metric
    requireFinitePositive value [.text metric]

/-- The metric of a vision lever. -/
def visionMetric (manifest : Fields) : Option String :=
  if isText (Value.field manifest "vision_metric") "wall_s" then some "wall_s"
  else if isText (Value.field manifest "vision_metric") "ttft_s" then some "ttft_s"
  else none

def isVisionLever (manifest : Fields) : Bool := isText (Value.field manifest "lever_kind") "vision"

def leverStage (manifest : Fields) (base cand : List Value) (gates : Gates) :
    Check (Gates × Bool) :=
  if isVisionLever manifest then do
    let metric ← orReject (visionMetric manifest)
      [.text "vision lever requires an observable wall_s or ttft_s metric"]
    let baseMetrics ← gainMetrics metric base
    let b ← median baseMetrics
    let candMetrics ← gainMetrics metric cand
    let c ← median candMetrics
    let gain := (b - c) / b
    let pass := decide (threshold ≤ gain)
    return ({ gates with visionLeverGain := some (metric, gain, pass) }, pass)
  else .ok (gates, true)

/-- The lanes of one side. -/
def bindSide (env : Env) (side : Side) (prose : List ProseRow) : Check Unit := do
  let short ← (side.upstream.getD []).mapM detailRow
  let medium ← (side.medium.getD []).mapM detailRow
  checkEvidenceBinding env side.manifest (prose.map fun row => .dict row.fields) .prose
  checkEvidenceBinding env side.manifest short .short
  checkEvidenceBinding env side.manifest medium .medium
  checkEvidenceBinding env side.manifest (side.vision.getD []) .vision

def bindingStage (env : Env) (input : Input) (base cand : List ProseRow) (gates : Gates) :
    Check (Gates × Bool) := do
  let bound ← caught (do
    bindSide env input.base base
    bindSide env input.cand cand)
  return ({ gates with evidenceBinding := some bound }, bound.toOption.isSome)

/-- The lanes that one of the sides does not have. -/
def missingLanes (input : Input) : List String :=
  ([("short", input.base.upstream, input.cand.upstream),
    ("medium", input.base.medium, input.cand.medium),
    ("vision", input.base.vision, input.cand.vision)].filter fun lane =>
      lane.2.1.isNone || lane.2.2.isNone).map (·.1)

def compare (env : Env) (repeats : Nat) (input : Input) : Check Report := do
  let baseManifest ← dictOf input.base.manifest
  let candManifest ← dictOf input.cand.manifest
  let parity ← checkParity env baseManifest candManifest
  let base ← measuredProseRows env "baseline" 0 input.base.rows
  let cand ← measuredProseRows env "candidate" 0 input.cand.rows
  onward (proseStage repeats base cand ⟨parity, missingLanes input, ([], none), none, none, none,
      none, none⟩) fun gates =>
    onward (shortStage input.base.upstream input.cand.upstream gates) fun gates =>
    onward (mediumStage input.base.medium input.cand.medium gates) fun gates =>
    onward (visionStage input.base.vision input.cand.vision gates) fun gates =>
    onward (.ok (gates, (missingLanes input).isEmpty)) fun gates =>
    onward (leverStage candManifest (input.base.vision.getD []) (input.cand.vision.getD [])
      gates) fun gates =>
    onward (bindingStage env input base cand gates) fun gates =>
    .ok ⟨.pass, some "prose E2E (end-to-end request, usage-based token rate)", gates⟩

end Compare
end FlashNext
