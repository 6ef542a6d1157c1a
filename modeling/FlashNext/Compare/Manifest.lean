import FlashNext.Compare.Upstream
import FlashNext.Py.Text

/-!
# Manifests and the evidence bound to them

`checkParity` compares the two manifests, `validateManifest` one manifest with its own
fingerprint, and `checkEvidenceBinding` the measured rows of one lane with the manifest that
their producer froze.
-/

namespace FlashNext
namespace Compare

open Py (Str Value str strip)

/-- `fields.get(key)` with a key that is not a literal. -/
def lookupStr (fields : Fields) (key : Str) : Option Value :=
  (fields.find? fun f => f.1 == key).map (·.2)

/-! ## Parity -/

/-- `REQUIRED_MANIFEST_KEYS`. -/
def requiredManifestKeys : List String :=
  ["model_sha", "image_id", "source_tree", "tokenizer", "input_token_sha", "sampling", "context",
    "total_pool", "concurrency"]

def sortedManifestKeys : List String :=
  ["concurrency", "context", "image_id", "input_token_sha", "model_sha", "sampling", "source_tree",
    "tokenizer", "total_pool"]

/-- `lower`, of ASCII letters: no other character's lower case is a letter that the words of
`normLever` have. -/
def lower (s : Str) : Str := s.map fun c => if 65 ≤ c ∧ c ≤ 90 then c + 32 else c

/-- A lever, unless it says that there is none. -/
def normLever (env : Env) (v : Value) : Option Str :=
  if v.isNone then none
  else
    let s := strip (env.text v)
    if s.isEmpty || ["none", "no", "off", "baseline"].any fun word => lower s == str word then none
    else some s

def mixedEpochGuard (env : Env) (baseline candidate : Value) : Option (List Piece) :=
  match normLever env baseline, normLever env candidate with
  | some b, some c =>
    if b = c then none
    else some [.text "baseline lever ", .repr baseline, .text " != candidate lever ",
      .repr candidate, .text (": this is a comparison between different levers " ++
        "(mixed epochs), not a lever A/B")]
  | _, _ => none

def profileOf (env : Env) (context : Value) : Check Fields := do
  let fields ← orReject context.asDict? [.text "runtime profile snapshot missing on one side"]
  let profile ← orReject (Value.lookup fields "profile")
    [.text "runtime profile snapshot missing on one side"]
  env.profileFromDict profile

/-- `profile.pop("raw")`. -/
def dropRaw (profile : Fields) : Check Fields := do
  let _ ← item profile "raw"
  return profile.filter fun f => f.1 != str "raw"

/-- The fields that the declared lever may change. -/
def allowedFields (lever : Str) (base cand : Fields) : Check (List Str) :=
  if lever = str "nextn" then do
    let baseMode ← item base "mode"
    rejectIf (!isText baseMode "ar")
      [.text "declared NEXTN comparison does not change AR to NEXTN"]
    let candMode ← item cand "mode"
    rejectIf (!isText candMode "nextn")
      [.text "declared NEXTN comparison does not change AR to NEXTN"]
    return [str "mode", str "speculative_steps"]
  else do
    let field :=
      if lever = str "vision.backend" then str "vision_backend"
      else if lever = str "vision.cuda_graph" then str "vision_cuda_graph"
      else lever
    let baseField ← orReject (lookupStr base field)
      [.text "declared profile lever is absent or unchanged"]
    let candField ← Effect.orRaise (lookupStr cand field) (.raised "KeyError")
    rejectIf (baseField.eqv candField) [.text "declared profile lever is absent or unchanged"]
    return [field]

/-- The fields of the baseline profile that the candidate's differ in. -/
def changedFields (base cand : Fields) : Check (List Str) := do
  let changed ← base.mapM fun (key, value) => do
    let other ← Effect.orRaise (lookupStr cand key) (Fault.raised "KeyError")
    return (key, !value.eqv other)
  return (changed.filter (·.2)).map (·.1)

def sortedKeys (keys : List Str) : List Str := keys.insertionSort (· ≤ ·)

def checkProfiles (env : Env) (lever : Str) (baseContext candContext : Value) : Check Unit :=
  if baseContext.isNone && candContext.isNone then .ok ()
  else do
    let baseFull ← profileOf env baseContext
    let candFull ← profileOf env candContext
    let base ← dropRaw baseFull
    let cand ← dropRaw candFull
    let allowed ← allowedFields lever base cand
    let changed ← changedFields base cand
    rejectIf (!changed.all allowed.contains)
      [.text "undeclared runtime profile changes: ",
        .value (.list
          ((sortedKeys (changed.filter fun key => !allowed.contains key)).map .str))]

/-- The lever of each side. -/
structure Parity where
  baseline : Value
  candidate : Value

def checkParity (env : Env) (base cand : Fields) : Check Parity := do
  let missing := missingKeys base requiredManifestKeys ++ missingKeys cand requiredManifestKeys
  rejectIf (!missing.isEmpty)
    [.text "manifests missing required detail: ", .keys (sortedManifestKeys.filter missing.contains)]
  Effect.reject (requiredManifestKeys.any fun key =>
      !(Value.field base key).prints || !(Value.field cand key).prints) (.raised "ValueError")
  let mismatch := requiredManifestKeys.filter fun key =>
    env.dumps (Value.field base key) != env.dumps (Value.field cand key)
  rejectIf (!mismatch.isEmpty)
    [.text "manifest parity mismatch in ", .keys mismatch,
      .text " (only an explicitly declared lever may differ)"]
  let lever ← orReject ((Value.field cand "lever").asStr?.filter fun s => !s.isEmpty)
    [.text ("candidate manifest must declare an explicit 'lever' string " ++
      "(the single speculative/profile lever being tested)")]
  Effect.reject (!(Value.field base "lever").prints) (.raised "ValueError")
  let mixed := mixedEpochGuard env (Value.field base "lever") (Value.field cand "lever")
  rejectIf mixed.isSome (mixed.getD [])
  checkProfiles env lever (Value.field base "runtime_context") (Value.field cand "runtime_context")
  ["inputs", "benchmark_module_sha256", "capture_adapter_sha256"].forM fun key =>
    rejectIf (!(Value.field base key).eqv (Value.field cand key))
      [.text "frozen comparison provenance differs: ", .text key]
  return ⟨(Value.field base "lever").orElse (.str (str "none")), .str lever⟩

/-! ## One manifest -/

/-- `manifest_fingerprint`: the digest of the manifest without its own fingerprint. -/
def manifestFingerprint (env : Env) (manifest : Fields) : Check Str :=
  env.digest (.dict (manifest.filter fun f => f.1 != str "manifest_sha256"))

/-- `sha256:` and 64 hexadecimal digits. -/
def isImageId (v : Value) : Bool :=
  v.asStr?.any fun s => s.take 7 == str "sha256:" && isHex 64 (.str (s.drop 7))

def identityChecks : List (String × (Value → Bool)) :=
  [("model_sha", isHex 40), ("source_tree", isHex 40), ("image_id", isImageId),
    ("tokenizer", isHex 64), ("input_token_sha", isHex 64)]

def checkEnvelope (manifest : Fields) : Check Unit := do
  rejectIf (!isInt (Value.field manifest "concurrency") 1) [.text "this promotion protocol requires C1"]
  let context ← orReject (Value.field manifest "context").asInt?
    [.text "invalid context/pool envelope"]
  let totalPool ← orReject (Value.field manifest "total_pool").asInt?
    [.text "invalid context/pool envelope"]
  rejectIf (!decide (32768 ≤ context ∧ context ≤ 262144) || decide (totalPool < context))
    [.text "invalid context/pool envelope"]

/-- `validate_manifest`: the manifest's fields and its fingerprint. -/
def validateManifest (env : Env) (manifest : Value) : Check (Fields × Str) := do
  let fields ← orReject manifest.asDict? [.text "promotion manifest must be an object"]
  rejectIf (!isText (Value.field fields "schema") "qwen38fn.promotion.v1" ||
      !(Value.field fields "model_id").eqv (.str modelId))
    [.text "promotion manifest schema/model identity missing"]
  let fingerprint ← manifestFingerprint env fields
  rejectIf (!(Value.field fields "manifest_sha256").eqv (.str fingerprint))
    [.text "promotion manifest fingerprint mismatch"]
  identityChecks.forM fun (key, ok) =>
    rejectIf (!ok (Value.field fields key)) [.text "malformed promotion identity: ", .text key]
  checkEnvelope fields
  rejectIf (Value.field fields "inputs").asDict?.isNone
    [.text "promotion manifest inputs must be an object"]
  return (fields, fingerprint)

/-! ## The rows of a lane -/

/-- The rows that have to be bound. -/
def isMeasured (fields : Fields) : Bool := !(Value.field fields "warmup").isTrue

/-- `row.get("case_id", row.get("case", "batch"))`. -/
def caseOf (fields : Fields) : Value :=
  (Value.lookup fields "case_id").getD
    ((Value.lookup fields "case").getD (.str (str "batch")))

/-- The sets of both are equal. -/
def sameCases (inputs : Fields) (observed : List Value) : Bool :=
  inputs.all (fun f => observed.any (·.eqv (.str f.1))) &&
    observed.all fun case => inputs.any fun f => case.eqv (.str f.1)

/-- The request sequence of an upstream round is the frozen one. -/
def checkRound (env : Env) (manifest : Fields) (fingerprint : Str) (lane : Lane)
    (fields : Fields) : Check Unit := do
  Effect.reject (!(Value.field fields "repeat").prints) (.raised "ValueError")
  rejectIf (!(Value.field fields "tag").eqv (.str (fingerprint ++ str "/" ++ str lane.name ++
      str "/r" ++ env.text (Value.field fields "repeat"))))
    [.text "native round tag differs from bound manifest/lane/repeat"]
  let requests ← dictOf ((Value.lookup manifest "requests").getD (.dict []))
  let payloads ← orReject ((Value.field requests lane.name).asList?.filter (·.length == 8))
    [.text "upstream promotion requires the frozen request values"]
  let hashes ← payloads.mapM env.digest
  rejectIf (!(Value.field fields "request_hashes").eqv (.list (hashes.map .str)))
    [.text "actual upstream request sequence differs from the frozen corpus"]

def checkBound (env : Env) (manifest : Fields) (fingerprint : Str) (inputs : Fields) (lane : Lane)
    (fields : Fields) : Check Unit := do
  rejectIf (!(Value.field fields "epoch_verified").isTrue)
    [.text "row has no verified runtime epoch"]
  let binding ← orReject ((Value.field fields "_evidence").asDict?.filter fun binding =>
      (Value.field binding "manifest_sha256").eqv (.str fingerprint) &&
        isText (Value.field binding "lane") lane.name)
    [.text "row is not bound to its producer manifest/lane"]
  rejectIf (!(Value.field binding "model_id").eqv (Value.field manifest "model_id") ||
      !((Value.lookup fields "model").getD (Value.field manifest "model_id")).eqv
        (Value.field manifest "model_id"))
    [.text "row model differs from manifest"]
  let expected ← orReject (((caseOf fields).asStr?.bind (lookupStr inputs)).bind Value.asStr?)
    [.text "row input differs from frozen manifest"]
  rejectIf (expected.length != 64 ||
      !(Value.field binding "input_sha256").eqv (.str expected))
    [.text "row input differs from frozen manifest"]
  rejectIf (!((Value.lookup fields "input_sha256").getD (.str expected)).eqv (.str expected))
    [.text "row input hash disagrees with its bound evidence"]
  if lane = .short ∨ lane = .medium then checkRound env manifest fingerprint lane fields
  else .ok ()

def checkEvidenceBinding (env : Env) (manifest : Value) (rows : List Value) (lane : Lane) :
    Check Unit := do
  let (manifest, fingerprint) ← validateManifest env manifest
  let frozen ← dictOf (Value.field manifest "inputs")
  let inputs ← orReject ((Value.field frozen lane.name).asDict?.filter fun inputs =>
      !inputs.isEmpty)
    [.text "promotion manifest is missing frozen lane inputs"]
  let fields ← rows.mapM dictOf
  let measured := fields.filter isMeasured
  Effect.reject (measured.any fun fields => !hashable (caseOf fields)) (.raised "TypeError")
  rejectIf (!sameCases inputs (measured.map caseOf) ||
      (lane == .vision && inputs.length != 43))
    [.text "frozen input set is incomplete or differs from measured rows"]
  measured.forM (checkBound env manifest fingerprint inputs lane)

/-! ## What the checks establish -/

/-- The rows of a lane that its binding counts. -/
def measuredRows (rows : List Value) : List Value :=
  rows.filter fun row => isMeasured (fieldsOf row)

/-- The row was produced for the manifest, the lane and the frozen input of its case. -/
structure Bound (fingerprint : Str) (inputs : Fields) (lane : Lane) (row : Value) : Prop where
  epoch : Value.field (fieldsOf row) "epoch_verified" = .bool true
  model : (Value.lookup (fieldsOf row) "model").getD (.str modelId) = .str modelId
  evidence : ∃ binding case hash, Value.field (fieldsOf row) "_evidence" = .dict binding ∧
    Value.field binding "manifest_sha256" = .str fingerprint ∧
    Value.field binding "lane" = .str (str lane.name) ∧
    Value.field binding "model_id" = .str modelId ∧
    caseOf (fieldsOf row) = .str case ∧ lookupStr inputs case = some (.str hash) ∧
    hash.length = 64 ∧ Value.field binding "input_sha256" = .str hash

/-- All measured rows of the lane are bound, and their cases are those of the frozen inputs. -/
structure LaneBound (env : Env) (manifest : Value) (lane : Lane) (rows : List Value)
    (fingerprint : Str) (inputs : Fields) : Prop where
  identity : manifestFingerprint env (fieldsOf manifest) = .ok fingerprint ∧
    Value.field (fieldsOf manifest) "manifest_sha256" = .str fingerprint
  model : Value.field (fieldsOf manifest) "model_id" = .str modelId
  frozen : Value.field (fieldsOf (Value.field (fieldsOf manifest) "inputs")) lane.name = .dict inputs
  nonempty : inputs ≠ []
  complete : lane = .vision → inputs.length = 43
  cases : ∀ case : Value, (∃ row ∈ measuredRows rows, caseOf (fieldsOf row) = case) ↔
    ∃ f ∈ inputs, case = .str f.1
  bound : ∀ row ∈ measuredRows rows, Bound fingerprint inputs lane row

theorem validateManifest_ok {env : Env} {manifest : Value} {fields : Fields} {fingerprint : Str}
    (h : validateManifest env manifest = .ok (fields, fingerprint)) :
    manifest = .dict fields ∧ manifestFingerprint env fields = .ok fingerprint ∧
      Value.field fields "manifest_sha256" = .str fingerprint ∧
      Value.field fields "model_id" = .str modelId := by
  simp only [validateManifest, Effect.bind_ok, orReject_ok, rejectIf_ok, Effect.pure_ok,
    Prod.mk.injEq, Value.asDict?_eq_some] at h
  obtain ⟨fs, hmanifest, -, hschema, digest, hdigest, -, hsame, -, -, -, -, -, -, rfl, rfl⟩ := h
  rw [Bool.not_eq_false', eqv_str_iff] at hsame
  rw [Bool.or_eq_false_iff, Bool.not_eq_false', Bool.not_eq_false', eqv_str_iff] at hschema
  exact ⟨hmanifest, hdigest, hsame, hschema.2⟩

theorem checkBound_ok {env : Env} {manifest : Fields} {fingerprint : Str} {inputs : Fields}
    {lane : Lane} {row : Value} {u : Unit}
    (hmodel : Value.field manifest "model_id" = .str modelId)
    (h : checkBound env manifest fingerprint inputs lane (fieldsOf row) = .ok u) :
    Bound fingerprint inputs lane row := by
  simp only [checkBound, Effect.bind_ok, orReject_ok, rejectIf_ok, Option.filter_eq_some_iff,
    Value.asDict?_eq_some, Option.bind_eq_some_iff, Value.asStr?_eq_some, hmodel] at h
  obtain ⟨-, hepoch, binding, ⟨hbinding, hproducer⟩, -, hmodels, hash, ⟨v, ⟨case, hcase, hlookup⟩, hv⟩,
    -, hexpected, -⟩ := h
  obtain rfl := hv
  rw [Bool.and_eq_true, eqv_str_iff, isText_iff] at hproducer
  rw [Bool.or_eq_false_iff, Bool.not_eq_false', Bool.not_eq_false', eqv_str_iff, eqv_str_iff]
    at hmodels
  rw [Bool.or_eq_false_iff, bne_eq_false_iff_eq, Bool.not_eq_false', eqv_str_iff] at hexpected
  rw [Bool.not_eq_false', Value.isTrue_iff] at hepoch
  exact ⟨hepoch, hmodels.2, binding, case, hash, hbinding, hproducer.1, hproducer.2, hmodels.1, hcase,
    hlookup, hexpected.1, hexpected.2⟩

theorem sameCases_iff {inputs : Fields} {observed : List Value}
    (h : sameCases inputs observed = true) (case : Value) :
    case ∈ observed ↔ ∃ f ∈ inputs, case = .str f.1 := by
  rw [sameCases, Bool.and_eq_true, List.all_eq_true, List.all_eq_true] at h
  constructor
  · intro hcase
    obtain ⟨f, hf, heq⟩ := List.any_eq_true.mp (h.2 case hcase)
    exact ⟨f, hf, eqv_str_iff.mp heq⟩
  · rintro ⟨f, hf, rfl⟩
    obtain ⟨v, hv, heq⟩ := List.any_eq_true.mp (h.1 f hf)
    rw [← eqv_str_iff.mp heq]
    exact hv

theorem checkEvidenceBinding_ok {env : Env} {manifest : Value} {rows : List Value} {lane : Lane}
    {u : Unit} (h : checkEvidenceBinding env manifest rows lane = .ok u) :
    ∃ fingerprint inputs, LaneBound env manifest lane rows fingerprint inputs := by
  simp only [checkEvidenceBinding, Effect.bind_ok, orReject_ok, rejectIf_ok, dictOf_ok,
    Option.filter_eq_some_iff, Value.asDict?_eq_some] at h
  obtain ⟨⟨fields, fingerprint⟩, hvalid, frozen, hfrozen, inputs, ⟨hinputs, hne⟩, rowFields, hrows,
    -, -, -, hcases, hbound⟩ := h
  obtain ⟨rfl, hdigest, hsame, hmodel⟩ := validateManifest_ok hvalid
  have hdict (row : Value) (fs : Fields) (hrow : dictOf row = .ok fs) : fs = fieldsOf row := by
    rw [dictOf_ok.mp hrow]
    rfl
  obtain rfl := Effect.mapM_eq_map hdict hrows
  rw [Bool.or_eq_false_iff, Bool.not_eq_false', Bool.and_eq_false_iff] at hcases
  have hmeasured : (rows.map fieldsOf).filter isMeasured = (measuredRows rows).map fieldsOf := by
    rw [List.filter_map]
    rfl
  rw [hmeasured] at hcases hbound
  refine ⟨fingerprint, inputs, ⟨⟨hdigest, hsame⟩, hmodel, ?_, ?_, ?_, ?_, ?_⟩⟩
  · show Value.field (fieldsOf (Value.field fields "inputs")) lane.name = .dict inputs
    rw [hfrozen]
    exact hinputs
  · rintro rfl
    exact absurd hne Bool.false_ne_true
  · rintro rfl
    rcases hcases.2 with hlane | hlength
    · exact absurd hlane (by decide)
    · exact bne_eq_false_iff_eq.mp hlength
  · intro case
    rw [← sameCases_iff hcases.1 case, List.map_map, List.mem_map]
    rfl
  · intro row hrow
    exact checkBound_ok hmodel (Effect.forM_ok.mp hbound (fieldsOf row) (List.mem_map.mpr ⟨row, hrow, rfl⟩))

end Compare
end FlashNext
