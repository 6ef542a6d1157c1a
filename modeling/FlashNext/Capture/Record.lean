import FlashNext.Py.Value
import FlashNext.Text.Ascii

/-!
# The capture of one upstream request

`CaptureRecord` is told the request that is sent, the bytes that arrive, the events parsed from
them and that the stream was done.  What it objects to is kept and never taken back, so
`finalize` marks the output valid only when nothing was ever objected to.

A call may raise; what it changed before stays.  Writing to the wire file is taken to store what
it is given.
-/

namespace FlashNext
namespace Capture

open Text Py

def modelId : Str := str "nvidia/Qwen3.8-Flash-Next-NVFP4"
def maxWireBytes : Nat := 4 * 1024 * 1024

/-! ## The cache reporting contract -/

namespace CacheReporting

def schema : Str := str "qwen38fn.cache-details-positive-only.v1"

def ioStruct : String := "srt/managers/io_struct.py"

/-- `EXPECTED_SOURCE_HASHES`. -/
def expectedSourceHashes : List (String × String) :=
  [("srt/managers/scheduler_components/output_streamer.py",
      "67bd9278d0680c6a8b4ead37faa1970e2a5c200b676f62b73125a8461e3ea676"),
    ("srt/managers/detokenizer_manager.py",
      "90042a763006dba5a77d2a0e43abe17937ee287abaff13b9bf4b26f28f139bf4"),
    ("srt/managers/tokenizer_manager.py",
      "103c4f37de437850099c3a1727cbaa5ab3c387c5a1b411a2f34e7e94a9a88df0"),
    ("srt/managers/multi_tokenizer_mixin.py",
      "e3051fa6b5d84c78a0b27eaff80bd5a465eb27ed22b6628568428de4001cea51"),
    (ioStruct, "cb482b4c70faecea58b862cb6a8d87e26e2f605b944f5918657cfe2d54f82548"),
    ("srt/entrypoints/openai/serving_completions.py",
      "d015081efb5acf560b755a28e4964113e724c51a73f9151e86e65849125405e9"),
    ("srt/entrypoints/openai/protocol.py",
      "c9f05204379a6dd611d662c0350f97654800d76fcdeda5ba6f8dcc5f58b424f9")]

/-- `APPROVED_SOURCE_HASH_SETS`: the second pin changes one file. -/
def approvedSourceHashSets : List Value :=
  let repinned := expectedSourceHashes.map fun f =>
    if f.1 = ioStruct then
      (f.1, "6f2c4030a85d95a78046a0ddda295cafd5165b6bc4cd30861e57e3f4924f7e79")
    else f
  [expectedSourceHashes, repinned].map fun files =>
    .dict (files.map fun f => (str f.1, .str (str f.2)))

/-- `validate`. -/
def validate (contract : Value) : Except Str Bool :=
  match contract.asDict? with
  | none => .error (str "unverified native cache-reporting semantics")
  | some fs =>
    if fs.length = 2 ∧ Value.lookup fs "schema" = some (.str schema) ∧
        (∃ hashes ∈ approvedSourceHashSets,
          (Value.field fs "source_hashes").eqv hashes = true) then .ok true
    else .error (str "unverified native cache-reporting semantics")

/-- Without a contract nothing is verified; with one that is not approved nothing goes on. -/
def verified : Option Value → Except Str Bool
  | none => .ok false
  | some contract => validate contract

end CacheReporting

/-! ## What is frozen and what is observed -/

/-- The exact nonnegative integer that a value is. -/
def countOf : Value → Option Nat
  | .int n => if 0 ≤ n then some n.toNat else none
  | _ => none

/-- The prompt of an expected request. -/
def identify (expected : List (Str × Value)) : Except Str (List Nat) :=
  if Value.field expected "model" ≠ .str modelId then
    .error (str "invalid expected request identity")
  else
    match (Value.field expected "prompt").asList? with
    | none | some [] => .error (str "invalid expected request identity")
    | some (token :: tokens) =>
      match (token :: tokens).mapM countOf with
      | none => .error (str "input token IDs must be exact nonnegative integers")
      | some prompt => .ok prompt

/-- A request that was frozen. -/
structure Frozen where
  fields : List (Str × Value)
  prompt : List Nat
  identified : identify fields = .ok prompt

structure Counts where
  promptTokens : Nat
  completionTokens : Nat
  totalTokens : Nat
  deriving DecidableEq

/-- The counts of a usage object, when all are exact nonnegative integers. -/
def countsOf (usage : List (Str × Value)) : Option Counts := do
  let promptTokens ← countOf (Value.field usage "prompt_tokens")
  let completionTokens ← countOf (Value.field usage "completion_tokens")
  let totalTokens ← countOf (Value.field usage "total_tokens")
  return ⟨promptTokens, completionTokens, totalTokens⟩

/-- A usage object that was accepted. -/
structure ObservedUsage where
  fields : List (Str × Value)
  counts : Counts
  counted : countsOf fields = some counts

/-- What a record objects to. -/
inductive CaptureError where
  | wireLimitExceeded
  | nonobjectEvent
  | invalidUsage
  | decreasingUsage
  | invalidSglext
  | changingCacheDetails
  | requestNotObserved
  | wireNotObserved
  | wrongOrMissingModel
  | missingDone
  | invalidFinishReason
  | missingUsage
  | usageLengthMismatch
  | usageTotalMismatch
  | contradictoryCacheUsage
  | cacheObservationMissing
  | coldRequestCacheHit
  | upstreamRequestFailed
  deriving DecidableEq

def CaptureError.text : CaptureError → String
  | .wireLimitExceeded => "wire_limit_exceeded"
  | .nonobjectEvent => "nonobject_event"
  | .invalidUsage => "invalid_usage"
  | .decreasingUsage => "decreasing_usage"
  | .invalidSglext => "invalid_sglext"
  | .changingCacheDetails => "changing_cache_details"
  | .requestNotObserved => "request_not_observed"
  | .wireNotObserved => "wire_not_observed"
  | .wrongOrMissingModel => "wrong_or_missing_model"
  | .missingDone => "missing_done"
  | .invalidFinishReason => "invalid_finish_reason"
  | .missingUsage => "missing_usage"
  | .usageLengthMismatch => "usage_length_mismatch"
  | .usageTotalMismatch => "usage_total_mismatch"
  | .contradictoryCacheUsage => "contradictory_cache_usage"
  | .cacheObservationMissing => "cache_observation_missing"
  | .coldRequestCacheHit => "cold_request_cache_hit"
  | .upstreamRequestFailed => "upstream_request_failed"

structure CaptureRecord where
  zeroElisionVerified : Bool
  expected : Frozen
  index : Nat
  warmup : Bool
  sequence : Nat
  requestValue : Option Value
  usage : Option ObservedUsage
  finishReason : Value
  models : List Str
  cacheDetails : Value
  cacheDetailsSeen : Bool
  sawDone : Bool
  errors : List CaptureError
  bytesReceived : Nat
  storedBytes : Nat
  /-- What was written to the wire file, and what its hash was fed. -/
  wire : Bytes

/-- `json.dumps` (canonical, without NaN) as bytes, and the hexadecimal SHA-256 digest. -/
structure Digests where
  dumps : Value → Except Str Bytes
  sha256 : Bytes → Str

/-- `input_hash`. -/
def inputHash (env : Digests) (payload : Value) : Except Str Str :=
  (env.dumps payload).map env.sha256

namespace CaptureRecord

/-- A record of a frozen request, before any call. -/
def start (zeroElisionVerified : Bool) (expected : Frozen) (index : Nat) (warmup : Bool)
    (sequence : Nat) : CaptureRecord where
  zeroElisionVerified := zeroElisionVerified
  expected := expected
  index := index
  warmup := warmup
  sequence := sequence
  requestValue := none
  usage := none
  finishReason := .none
  models := []
  cacheDetails := .none
  cacheDetailsSeen := false
  sawDone := false
  errors := []
  bytesReceived := 0
  storedBytes := 0
  wire := []

/-- `__init__`. -/
def new (env : Digests) (expected : List (Str × Value)) (index : Nat) (warmup : Bool)
    (sequence : Nat) (cacheContract : Option Value) : Except Str CaptureRecord := do
  let zeroElisionVerified ← CacheReporting.verified cacheContract
  match h : identify expected with
  | .error e => throw e
  | .ok prompt =>
    let _ ← env.dumps (.dict expected)
    return start zeroElisionVerified ⟨expected, prompt, h⟩ index warmup sequence

/-- The record with an objection. -/
def object (r : CaptureRecord) (e : CaptureError) : CaptureRecord :=
  { r with errors := r.errors ++ [e] }

/-- `request`. -/
def request (env : Digests) (payload : Value) (r : CaptureRecord) :
    CaptureRecord × Option Str :=
  if r.requestValue.isSome then
    (r, some (str "actual upstream request differs from frozen payload"))
  else
    match inputHash env payload, inputHash env (.dict r.expected.fields) with
    | .error e, _ => (r, some e)
    | .ok _, .error e => (r, some e)
    | .ok actual, .ok frozen =>
      if actual ≠ frozen then
        (r, some (str "actual upstream request differs from frozen payload"))
      else ({ r with requestValue := some payload }, none)

/-- `chunk`; nothing stands for what is no bytes. -/
def chunk (raw : Option Bytes) (r : CaptureRecord) : CaptureRecord × Option Str :=
  match raw with
  | none => (r, some (str "SSE capture requires bytes"))
  | some raw =>
    let retained := raw.take (maxWireBytes - r.storedBytes)
    let r := { r with
      bytesReceived := r.bytesReceived + raw.length
      storedBytes := r.storedBytes + retained.length
      wire := r.wire ++ retained }
    if maxWireBytes < r.bytesReceived then
      (r.object .wireLimitExceeded, some (str "bounded SSE capture exceeded"))
    else (r, none)

def noteModel (data : List (Str × Value)) (r : CaptureRecord) : CaptureRecord :=
  match (Value.field data "model").asStr? with
  | none => r
  | some model => { r with models := r.models.insert model }

def noteUsage (data : List (Str × Value)) (r : CaptureRecord) : CaptureRecord :=
  let usage := Value.field data "usage"
  if usage.isNone then r
  else
    match usage.asDict? with
    | none => r.object .invalidUsage
    | some fields =>
      match h : countsOf fields with
      | none => r.object .invalidUsage
      | some counts =>
        let decreasing := r.usage.any fun last =>
          counts.completionTokens < last.counts.completionTokens
        let r := if decreasing then r.object .decreasingUsage else r
        { r with usage := some ⟨fields, counts, h⟩ }

/-- The finish reason of the first choice, unless `choices[0]` raises. -/
def finishOf (data : List (Str × Value)) : Except Str (Option Value) :=
  let choices := (Value.field data "choices").orElse (.list [])
  if choices.truthy then
    choices.firstItem.map fun choice =>
      match choice.asDict? with
      | none => none
      | some fields =>
        let reason := Value.field fields "finish_reason"
        if reason.isNone then none else some reason
  else .ok none

def noteCache (data : List (Str × Value)) (r : CaptureRecord) : CaptureRecord :=
  let extension := Value.field data "sglext"
  if extension.isNone then r
  else
    match extension.asDict? with
    | none => r.object .invalidSglext
    | some fields =>
      match Value.lookup fields "cached_tokens_details" with
      | none => r
      | some details =>
        let changing := r.cacheDetailsSeen && !details.eqv r.cacheDetails
        let r := if changing then r.object .changingCacheDetails else r
        { r with cacheDetailsSeen := true, cacheDetails := details }

/-- `event`. -/
def event (data : Value) (r : CaptureRecord) : CaptureRecord × Option Str :=
  match data.asDict? with
  | none => (r.object .nonobjectEvent, none)
  | some data =>
    let r := noteUsage data (noteModel data r)
    match finishOf data with
    | .error e => (r, some e)
    | .ok reason => (noteCache data { r with finishReason := reason.getD r.finishReason }, none)

/-- `done`. -/
def done (r : CaptureRecord) : CaptureRecord := { r with sawDone := true }

end CaptureRecord

/-- A call on a record. -/
inductive Call where
  | request (payload : Value)
  | chunk (raw : Option Bytes)
  | event (data : Value)
  | done

def Call.run (env : Digests) (r : CaptureRecord) : Call → CaptureRecord × Option Str
  | .request payload => r.request env payload
  | .chunk raw => r.chunk raw
  | .event data => r.event data
  | .done => (r.done, none)

/-- The calls one after the other, whatever they raise. -/
def runCalls (env : Digests) (r : CaptureRecord) (calls : List Call) : CaptureRecord :=
  calls.foldl (fun r call => (call.run env r).1) r

/-! ## Finalizing -/

/-- The upstream output, as far as the record reads and writes it. -/
structure Output where
  success : Bool
  outputLen : Nat
  promptLen : Nat
  cachedTokens : Option Nat
  error : Str
  deriving DecidableEq

inductive CacheSource where
  | explicitSglext
  | pinnedSglangZeroElision
  deriving DecidableEq

/-- The document that is written beside the wire file. -/
structure Document where
  requestIndex : Nat
  warmup : Bool
  request : Option Value
  requestSha256 : Option Str
  inputIdsSha256 : Str
  observedUsage : Option (List (Str × Value))
  finishReason : Value
  cacheDetails : Value
  cachedTokens : Option Nat
  cacheObservationSource : Option CacheSource
  cacheReportingContract : Option Str
  modelIds : List Str
  sawDone : Bool
  wireFile : Str
  wireSha256 : Str
  wireBytes : Nat
  wireTruncated : Bool
  valid : Bool
  error : Str

namespace CaptureRecord

/-- The objection, if there is one. -/
def flag (bad : Bool) (e : CaptureError) : List CaptureError := if bad then [e] else []

/-- The last usage has other lengths than the request; without `max_tokens` in the request,
comparing with it raises. -/
def lengthMismatch (r : CaptureRecord) (usage : ObservedUsage) : Except Str Bool :=
  if usage.counts.promptTokens ≠ r.expected.prompt.length then .ok true
  else
    match Value.lookup r.expected.fields "max_tokens" with
    | none => .error (str "'max_tokens'")
    | some maxTokens => .ok !((Value.int usage.counts.completionTokens).eqv maxTokens)

/-- The objections to the counts of the last usage. -/
def usageErrors (r : CaptureRecord) : Except Str (List CaptureError) :=
  match r.usage with
  | none => .ok [.missingUsage]
  | some usage => do
    let mismatch ← r.lengthMismatch usage
    return flag mismatch .usageLengthMismatch ++
      flag (usage.counts.totalTokens ≠
        usage.counts.promptTokens + usage.counts.completionTokens) .usageTotalMismatch

/-- The objections before the cache is looked at. -/
def streamErrors (r : CaptureRecord) : Except Str (List CaptureError) := do
  let usage ← r.usageErrors
  return r.errors ++ flag r.requestValue.isNone .requestNotObserved ++
    flag (r.storedBytes = 0) .wireNotObserved ++
    flag (r.models = [] ∨ ∃ model ∈ r.models, model ≠ modelId) .wrongOrMissingModel ++
    flag (!r.sawDone) .missingDone ++
    flag (r.finishReason ≠ .str (str "length")) .invalidFinishReason ++ usage

/-- The storage counter, which may be left out. -/
def storageOf (storage : Value) : Option Nat :=
  if storage.isNone then some 0 else countOf storage

/-- The cached tokens of explicit details. -/
def detailsCached (details : Value) : Option Nat := do
  let fields ← details.asDict?
  let device ← countOf (Value.field fields "device")
  let host ← countOf (Value.field fields "host")
  let storage ← storageOf (Value.field fields "storage")
  return device + host + storage

/-- The cached tokens and where they were observed. -/
def cacheObservation (r : CaptureRecord) (errors : List CaptureError) (success : Bool) :
    Option (Nat × CacheSource) :=
  match detailsCached r.cacheDetails with
  | some cached => some (cached, .explicitSglext)
  | none =>
    if !r.cacheDetailsSeen && r.zeroElisionVerified &&
        (Value.field r.expected.fields "return_cached_tokens_details").isTrue &&
        errors.isEmpty && success then
      some (0, .pinnedSglangZeroElision)
    else none

/-- `cached_tokens` in the details of a usage. -/
def aggregateOf (usage : List (Str × Value)) : Value :=
  match (Value.field usage "prompt_tokens_details").asDict? with
  | none => .none
  | some details => Value.field details "cached_tokens"

/-- The usage and the observation of the cache disagree. -/
def contradictory (usage : Option ObservedUsage) (cached : Option Nat) : Bool :=
  usage.any fun usage =>
    !(aggregateOf usage.fields).isNone &&
      ((countOf (aggregateOf usage.fields)).isNone ||
        countOf (aggregateOf usage.fields) ≠ cached)

/-- All objections, and the observation of the cache. -/
def finalErrors (r : CaptureRecord) (success : Bool) :
    Except Str (List CaptureError × Option (Nat × CacheSource)) := do
  let errors ← r.streamErrors
  let observation := r.cacheObservation errors success
  let cached := observation.map (·.1)
  let errors := errors ++ flag (contradictory r.usage cached) .contradictoryCacheUsage ++
    (match cached with
      | none => [.cacheObservationMissing]
      | some cached => flag (cached ≠ 0 && !r.warmup) .coldRequestCacheHit) ++
    flag (!success) .upstreamRequestFailed
  return (errors, observation)

/-- What `finalize` writes to the output. -/
def mark (r : CaptureRecord) (errors : List CaptureError)
    (observation : Option (Nat × CacheSource)) (output : Output) : Output :=
  let cachedTokens := observation.map (·.1)
  match errors, r.usage with
  | [], some usage =>
    { output with
      success := true
      outputLen := usage.counts.completionTokens
      promptLen := usage.counts.promptTokens
      cachedTokens := cachedTokens }
  | [], none => { output with success := true }
  | errors, _ =>
    { success := false
      outputLen := 0
      promptLen := 0
      cachedTokens := cachedTokens
      error := str "capture: " ++
        (str ",").intercalate (errors.eraseDups.map fun e => str e.text) ++
        str "; " ++ output.error }

def wireFile (r : CaptureRecord) : Str :=
  let kind := if r.warmup then "warmup" else "measured"
  str s!"{kind}-{r.index}-{r.sequence}.sse"

def document (env : Digests) (r : CaptureRecord) (errors : List CaptureError)
    (observation : Option (Nat × CacheSource)) (output : Output) : Except Str Document := do
  let requestSha256 ←
    match r.requestValue with
    | none => pure none
    | some request => if request.truthy then some <$> inputHash env request else pure none
  let inputIdsSha256 ← inputHash env (.list (r.expected.prompt.map fun n => .int n))
  return {
    requestIndex := r.index
    warmup := r.warmup
    request := r.requestValue
    requestSha256 := requestSha256
    inputIdsSha256 := inputIdsSha256
    observedUsage := r.usage.map (·.fields)
    finishReason := r.finishReason
    cacheDetails := r.cacheDetails
    cachedTokens := observation.map (·.1)
    cacheObservationSource := observation.map (·.2)
    cacheReportingContract := if r.zeroElisionVerified then some CacheReporting.schema else none
    modelIds := r.models.mergeSort fun a b => decide (a ≤ b)
    sawDone := r.sawDone
    wireFile := r.wireFile
    wireSha256 := env.sha256 r.wire
    wireBytes := r.storedBytes
    wireTruncated := decide (maxWireBytes < r.bytesReceived)
    valid := errors.isEmpty
    error := output.error }

/-- `finalize`: the output as it is left, and the document or what was raised.  `save` is what
writing the document raises. -/
def finalize (env : Digests) (save : Document → Option Str) (r : CaptureRecord)
    (output : Output) : Output × Except Str Document :=
  match r.finalErrors output.success with
  | .error e => (output, .error e)
  | .ok (errors, observation) =>
    let output := r.mark errors observation output
    (output, do
      let document ← r.document env errors observation output
      match save document with
      | some e => throw e
      | none => return document)

end CaptureRecord

end Capture
end FlashNext
