import FlashNext.Effect.Check
import FlashNext.Py.Dump

/-!
# Runtime profiles

A profile is a strict JSON document.  `validatePayload` checks one and `profileFromDict` makes a
`Profile` of it, which has every field whether the document names it or not.
-/

namespace FlashNext
namespace Runtime

open Effect
open Py (Str Value str)
open Text (isSurrogate)

abbrev Fields := List (Str × Value)

def profileSchema : Int := 1
def modes : List String := ["ar", "nextn"]
def contextLengthAllowed : List Int := [32768, 262144]
def maxRunningRequestsAllowed : List Int := [1, 2, 4, 8]
def maxRunningRequestsDefault : Int := 1
def chunkedPrefillAllowed : List Int := [1024, 2048, 4096]
def chunkedPrefillDefault : Int := 1024
def maxMambaCacheSizeDefault : Int := 8
def maxMambaCacheSizeMin : Int := 4
def maxMambaCacheSizeMax : Int := 64

/-- The double that `0.80` is. -/
def memFractionStaticDefault : ℚ := 3602879701896397 / 4503599627370496

/-- The double that `0.70` is. -/
def memFractionStaticMin : ℚ := 3152519739159347 / 4503599627370496

/-- The double that `0.88` is. -/
def memFractionStaticMax : ℚ := 7926335344172073 / 9007199254740992

def kvCacheDtypes : List String := ["bf16", "fp8_e4m3", "nvfp4"]
def kvCacheDtypeDefault : String := "bf16"
def speculativeStepsMin : Int := 1
def speculativeStepsMax : Int := 3
def visionBackends : List String := ["triton_attn", "flashinfer_cudnn", "fa4"]
def pleRssGibAllowed : List Int := [4, 8, 12]
def pleRssGibDefault : Int := 8
def mmProcessorWorkerNumAllowed : List Int := [1, 2]
def mmProcessorWorkerNumDefault : Int := 1
def moeBackends : List String := ["flashinfer_cutlass", "marlin"]
def draftQuantizations : List String := ["modelopt_mixed", "unquant"]
def decodeGraphBackends : List String := ["full", "disabled"]

/-- A `ProfileError`, or another exception by its class. -/
inductive Exc where
  | profile (message : Str)
  | other (kind : String)

abbrev Check := Except Exc

/-! ## Fields -/

section Fields

variable (repr : Value → Str)

def fail {α : Type} (message : Str) : Check α := .error (.profile message)

def reprKey (key : String) : Str := repr (.str (str key))

def reprNames (names : List String) : Str := repr (.list (names.map fun name => .str (str name)))

/-- `field %r must …, got %r`. -/
def fieldText (key : String) (rule : Str) (value : Value) : Str :=
  str "field " ++ reprKey repr key ++ rule ++ str ", got " ++ repr value

/-- `_require_int`. -/
def requireInt (raw : Fields) (key : String) : Check Int := do
  let value ← orRaise (Value.lookup raw key)
    (.profile (str "missing required integer field " ++ reprKey repr key))
  orRaise value.asInt? (.profile (fieldText repr key (str " must be an integer") value))

/-- What `_optional_int` asks of an integer. -/
structure IntRule where
  allowed : List Int := []
  minimum : Option Int := none
  maximum : Option Int := none

/-- The checks of `_optional_int` on a field that is there. -/
def checkInt (rule : IntRule) (key : String) (value : Value) : Check Int := do
  let n ← orRaise value.asInt? (.profile (fieldText repr key (str " must be an integer") value))
  reject (!rule.allowed.isEmpty && n ∉ rule.allowed)
    (.profile (fieldText repr key (str " must be one of " ++ repr (.list (rule.allowed.map .int)))
      value))
  reject (rule.minimum.any (n < ·))
    (.profile (fieldText repr key (str " must be >= " ++ Py.dumpInt (rule.minimum.getD 0)) value))
  reject (rule.maximum.any (· < n))
    (.profile (fieldText repr key (str " must be <= " ++ Py.dumpInt (rule.maximum.getD 0)) value))
  return n

/-- `_optional_int`; a field without a default is required. -/
def optionalInt (rule : IntRule) (default : Option Int) (raw : Fields) (key : String) :
    Check Int :=
  match Value.lookup raw key with
  | some value => checkInt repr rule key value
  | none =>
    orRaise default (.profile (str "missing required integer field " ++ reprKey repr key))

/-- `_optional_float`; the documents have no infinities any more. -/
def optionalFloat (minimum maximum default : ℚ) (raw : Fields) (key : String) : Check ℚ :=
  match Value.lookup raw key with
  | none => .ok default
  | some value => do
    let q ← match value with
      | .int n => if Py.floats n then .ok (n : ℚ) else .error (.other "OverflowError")
      | .float q => .ok q
      | .nonfinite _ => fail (str "field " ++ reprKey repr key ++ str " must be finite")
      | _ => fail (fieldText repr key (str " must be a number") value)
    reject (!(minimum ≤ q && q ≤ maximum))
      (.profile (fieldText repr key (str " must be within [" ++ repr (.float minimum) ++
        str ", " ++ repr (.float maximum) ++ str "]") (.float q)))
    return q

/-- The check of `_require_enum` on a field that is there. -/
def checkEnum (allowed : List String) (key : String) (value : Value) : Check Str := do
  let name ← orRaise (value.asStr?.filter fun s => s ∈ allowed.map str)
    (.profile (fieldText repr key (str " must be one of " ++ reprNames repr allowed) value))
  return name

/-- `_require_enum`. -/
def requireEnum (allowed : List String) (raw : Fields) (key : String) : Check Str := do
  let value ← orRaise (Value.lookup raw key)
    (.profile (str "missing required field " ++ reprKey repr key))
  checkEnum repr allowed key value

/-- `_optional_enum`. -/
def optionalEnum (allowed : List String) (default : String) (raw : Fields) (key : String) :
    Check Str :=
  match Value.lookup raw key with
  | some value => checkEnum repr allowed key value
  | none => .ok (str default)

/-- `set(fields) == keys`. -/
def hasExactly (fields : Fields) (keys : List String) : Bool :=
  fields.all (fun f => f.1 ∈ keys.map str) && keys.all fun key => (Value.lookup fields key).isSome

/-! ## The document -/

/-- `re.fullmatch(r"[A-Za-z0-9_.-]{1,128}", name)` and no dots alone. -/
def isSafeBasename (s : Str) : Bool :=
  s ≠ str "." && s ≠ str ".." && 1 ≤ s.length && s.length ≤ 128 &&
    s.all fun c => (65 ≤ c && c ≤ 90) || (97 ≤ c && c ≤ 122) || (48 ≤ c && c ≤ 57) || c == 95 ||
      c == 46 || c == 45

def isSha256 (s : Str) : Bool :=
  s.length == 64 && s.all fun c => (48 ≤ c && c ≤ 57) || (97 ≤ c && c ≤ 102)

/-- `_validate_kv_calibration`. -/
def validateKvCalibration (raw : Fields) (dtype : Str) : Check Unit :=
  match Value.lookup raw "kv_calibration" with
  | none => reject (dtype = str "nvfp4")
      (.profile (str "nvfp4 KV requires explicit frozen kv_calibration"))
  | some v => do
    let value ← orRaise v.asDict? (.profile (str "kv_calibration must be an object"))
    let mode ← requireEnum repr ["collect", "frozen"] value "mode"
    if mode = str "collect" then
      reject (!hasExactly value ["mode"] || dtype ≠ str "bf16")
        (.profile (str "collect kv_calibration requires BF16 KV and only the mode field"))
    else do
      reject (!hasExactly value ["mode", "file", "sha256"] || dtype ≠ str "nvfp4")
        (.profile (str "frozen kv_calibration requires nvfp4 KV and mode/file/sha256"))
      reject (!(Value.field value "file").asStr?.any isSafeBasename)
        (.profile (str "kv_calibration.file must be a safe basename"))
      reject (!(Value.field value "sha256").asStr?.any isSha256)
        (.profile (str "kv_calibration.sha256 must be a literal lowercase SHA256"))

/-- The checks of `speculative`. -/
def validateSpeculative (mode kvDtype : Str) (speculative : Value) : Check Unit :=
  if mode = str "nextn" then do
    let fields ← orRaise speculative.asDict?
      (.profile (str "mode 'nextn' requires a 'speculative' object"))
    reject ((Value.lookup fields "steps").isNone ||
        !fields.all fun f => f.1 ∈ ["steps", "kv_cache_dtype", "draft_quantization"].map str)
      (.profile (str "field 'speculative' requires steps and only documented optional fields"))
    let draft ← optionalEnum repr ["bf16", "nvfp4"] "bf16" fields "kv_cache_dtype"
    reject (draft = str "nvfp4" && kvDtype ≠ str "nvfp4")
      (.profile (str "NVFP4 draft KV requires the frozen NVFP4 scale profile"))
    let _ ← optionalEnum repr draftQuantizations "modelopt_mixed" fields "draft_quantization"
    let _ ← optionalInt repr { minimum := some speculativeStepsMin, maximum := some speculativeStepsMax }
      none fields "steps"
  else
    reject (!speculative.isNone) (.profile (str "field 'speculative' is only valid with mode 'nextn'"))

/-- The checks of `vision`. -/
def validateVision (v : Value) : Check Unit := do
  let vision ← orRaise v.asDict? (.profile (str "missing required object field 'vision'"))
  reject (!hasExactly vision ["backend", "cuda_graph"])
    (.profile (str "field 'vision' must contain exactly " ++ reprNames repr ["backend", "cuda_graph"] ++
      str ", got " ++ repr (.list ((vision.map (·.1)).mergeSort.map .str))))
  let _ ← requireEnum repr visionBackends vision "backend"
  match Value.field vision "cuda_graph" with
  | .bool _ => .ok ()
  | v => fail (str "field 'vision.cuda_graph' must be a boolean, got " ++ repr v)

def knownFields : List String :=
  ["schema", "mode", "context_length", "max_total_tokens", "max_running_requests",
    "chunked_prefill_size", "max_mamba_cache_size", "mem_fraction_static", "kv_cache_dtype",
    "speculative", "vision", "ple_rss_gib", "mm_processor_worker_num", "kv_calibration",
    "moe_backend", "decode_graph_backend"]

/-- A validated document, with the values that its checks read. -/
structure Validated where
  raw : Fields
  schema : Int
  mode : Str
  contextLength : Int
  maxTotalTokens : Int
  maxRunningRequests : Int
  chunkedPrefillSize : Int
  maxMambaCacheSize : Int
  memFractionStatic : ℚ
  kvCacheDtype : Str
  moeBackend : Str
  pleRssGib : Int
  mmProcessorWorkerNum : Int
  decodeGraphBackend : Str

/-- `validate_payload`, from the parsed document on. -/
def validateDocument (v : Value) : Check Validated := do
  let raw ← orRaise v.asDict? (.profile (str "profile must be a JSON object"))
  let schema ← requireInt repr raw "schema"
  reject (schema ≠ profileSchema)
    (.profile (str "unsupported profile schema " ++ repr (.int schema) ++ str " (expected 1)"))
  let mode ← requireEnum repr modes raw "mode"
  let contextLength ← requireInt repr raw "context_length"
  reject (contextLength ∉ contextLengthAllowed)
    (.profile (str "field 'context_length' must be one of " ++
      repr (.list (contextLengthAllowed.map .int)) ++ str ", got " ++ repr (.int contextLength)))
  let maxTotalTokens ← requireInt repr raw "max_total_tokens"
  reject (maxTotalTokens ≠ contextLength)
    (.profile (str "field 'max_total_tokens' must equal 'context_length' (" ++
      Py.dumpInt contextLength ++ str "), got " ++ repr (.int maxTotalTokens)))
  let maxRunningRequests ← optionalInt repr { allowed := maxRunningRequestsAllowed }
    (some maxRunningRequestsDefault) raw "max_running_requests"
  let chunkedPrefillSize ← optionalInt repr { allowed := chunkedPrefillAllowed }
    (some chunkedPrefillDefault) raw "chunked_prefill_size"
  let maxMambaCacheSize ← optionalInt repr
    { minimum := some maxMambaCacheSizeMin, maximum := some maxMambaCacheSizeMax }
    (some maxMambaCacheSizeDefault) raw "max_mamba_cache_size"
  let memFractionStatic ← optionalFloat repr memFractionStaticMin memFractionStaticMax
    memFractionStaticDefault raw "mem_fraction_static"
  let kvCacheDtype ← optionalEnum repr kvCacheDtypes kvCacheDtypeDefault raw "kv_cache_dtype"
  validateKvCalibration repr raw kvCacheDtype
  let moeBackend ← optionalEnum repr moeBackends "flashinfer_cutlass" raw "moe_backend"
  validateSpeculative repr mode kvCacheDtype (Value.field raw "speculative")
  validateVision repr (Value.field raw "vision")
  let pleRssGib ← optionalInt repr { allowed := pleRssGibAllowed } (some pleRssGibDefault) raw
    "ple_rss_gib"
  let mmProcessorWorkerNum ← optionalInt repr { allowed := mmProcessorWorkerNumAllowed }
    (some mmProcessorWorkerNumDefault) raw "mm_processor_worker_num"
  let unknown := ((raw.map (·.1)).filter (· ∉ knownFields.map str)).mergeSort
  reject (!unknown.isEmpty)
    (.profile (str "unknown profile field(s): " ++
      (str ", ").intercalate (unknown.map fun key => repr (.str key))))
  let decodeGraphBackend ← optionalEnum repr decodeGraphBackends "full" raw "decode_graph_backend"
  return ⟨raw, schema, mode, contextLength, maxTotalTokens, maxRunningRequests, chunkedPrefillSize,
    maxMambaCacheSize, memFractionStatic, kvCacheDtype, moeBackend, pleRssGib,
    mmProcessorWorkerNum, decodeGraphBackend⟩

/-! ## Through the text -/

/-- Two escapes that are a pair of surrogates are read as the one character they encode. -/
def joinPairs : Str → Str
  | a :: b :: s =>
    if 0xD800 ≤ a ∧ a < 0xDC00 ∧ 0xDC00 ≤ b ∧ b < 0xE000 then
      (0x10000 + (a - 0xD800) * 1024 + (b - 0xDC00)) :: joinPairs s
    else a :: joinPairs (b :: s)
  | s => s

mutual
/-- `json.loads(json.dumps(value))` of a value that the strict reader takes. -/
def reload : Value → Value
  | .str s => .str (joinPairs s)
  | .list xs => .list (reloadItems xs)
  | .dict fs => .dict (reloadFields fs)
  | v => v

def reloadItems : List Value → List Value
  | [] => []
  | x :: xs => reload x :: reloadItems xs

def reloadFields : Fields → Fields
  | [] => []
  | (key, x) :: fs => (joinPairs key, reload x) :: reloadFields fs
end

/-- `validate_payload(json.dumps(raw))`; a text with an infinity or with a key that is twice in
an object is refused while it is read. -/
def validatePayload (v : Value) : Check Validated := do
  reject (!v.prints) (.other "ValueError")
  reject (!v.dumps) (.profile (str "nonfinite JSON number is not allowed"))
  reject (!(reload v).distinct) (.profile (str "duplicate JSON field"))
  validateDocument repr (reload v)

/-! ## The profile -/

structure Profile extends Validated where
  speculativeSteps : Int
  visionBackend : Value
  visionCudaGraph : Bool
  kvCalibrationMode : Value
  kvScaleFile : Value
  kvScaleSha256 : Value
  draftKvCacheDtype : Value
  draftQuantization : Value

def objectOf (v : Value) : Fields := v.asDict?.getD []

/-- `profile_from_dict`. -/
def profileFromDict (v : Value) : Check Profile := do
  let validated ← validatePayload repr v
  let speculative := objectOf (Value.field validated.raw "speculative")
  let vision := objectOf (Value.field validated.raw "vision")
  let calibration := objectOf (Value.field validated.raw "kv_calibration")
  return {
    toValidated := validated
    speculativeSteps := (Value.field speculative "steps").asInt?.getD 0
    visionBackend := Value.field vision "backend"
    visionCudaGraph := (Value.field vision "cuda_graph").truthy
    kvCalibrationMode := Value.field calibration "mode"
    kvScaleFile := Value.field calibration "file"
    kvScaleSha256 := Value.field calibration "sha256"
    draftKvCacheDtype := Value.field speculative "kv_cache_dtype"
    draftQuantization :=
      (Value.lookup speculative "draft_quantization").getD (.str (str "modelopt_mixed")) }

end Fields

/-- `dataclasses.asdict`. -/
def Profile.asDict (p : Profile) : Fields :=
  [(str "schema", .int p.schema), (str "mode", .str p.mode),
    (str "context_length", .int p.contextLength),
    (str "max_total_tokens", .int p.maxTotalTokens),
    (str "max_running_requests", .int p.maxRunningRequests),
    (str "chunked_prefill_size", .int p.chunkedPrefillSize),
    (str "max_mamba_cache_size", .int p.maxMambaCacheSize),
    (str "mem_fraction_static", .float p.memFractionStatic),
    (str "kv_cache_dtype", .str p.kvCacheDtype),
    (str "speculative_steps", .int p.speculativeSteps),
    (str "vision_backend", p.visionBackend),
    (str "vision_cuda_graph", .bool p.visionCudaGraph),
    (str "ple_rss_gib", .int p.pleRssGib),
    (str "mm_processor_worker_num", .int p.mmProcessorWorkerNum),
    (str "raw", .dict p.raw),
    (str "kv_calibration_mode", p.kvCalibrationMode),
    (str "kv_scale_file", p.kvScaleFile),
    (str "kv_scale_sha256", p.kvScaleSha256),
    (str "draft_kv_cache_dtype", p.draftKvCacheDtype),
    (str "moe_backend", .str p.moeBackend),
    (str "draft_quantization", p.draftQuantization),
    (str "decode_graph_backend", .str p.decodeGraphBackend)]

end Runtime
end FlashNext
