import FlashNext.Effect.Check
import FlashNext.Ngram.Layer
import FlashNext.Tensor.Index

/-!
# The batch of a forward pass

`layoutOf` is the token layout that `_prepare_ple_batch` gives a forward pass: the rows of its
requests, the place of each token in them and the state slot of each row.
-/

namespace FlashNext
namespace Ngram

open Tensor (cumsum searchsortedRight)

/-- What a forward pass raises; `tensor` stands for an operation whose shapes or indices do not
fit. -/
inductive Fault where
  | notImplemented (message : String)
  | runtimeError (message : String)
  | assertion
  | tensor
  deriving DecidableEq, Repr

def require (condition : Bool) (fault : Fault) : Except Fault Unit :=
  Effect.reject (!condition) fault

theorem require_ok {condition : Bool} {fault : Fault} {u : Unit} :
    require condition fault = .ok u ↔ condition = true := by
  rw [require, Effect.reject_ok, Bool.not_eq_false']

inductive ForwardMode where
  | idle
  | decode
  | targetVerify
  /-- Any mode that extends requests, with its `repr`. -/
  | extend (text : String)
  deriving DecidableEq

structure SpecInfo where
  /-- `getattr(spec_info, "topk", 1)`. -/
  topk : Int
  draftTokenNum : Int

/-- What is read of a forward batch. -/
structure ForwardBatch where
  forwardMode : ForwardMode
  originalForwardMode : Option ForwardMode
  tboParentTokenRange : Bool
  /-- `spec_algorithm.is_ngram()`, where there is an algorithm. -/
  ngramSpeculation : Bool
  specInfo : Option SpecInfo
  globalNumTokenNonPaddedCpu : Option Int
  extendSeqLensCpu : Option (List Nat)
  extendSeqLens : Option (List Nat)
  extendPrefixLens : Option (List Int)
  /-- `get_mamba_indices(req_pool_indices)`. -/
  mambaIndices : List Nat
  outCacheLoc : Option (List Int)
  mambaTrackIndices : Option (List Nat)
  mambaTrackMask : Option (List Bool)
  mambaTrackSeqlens : Option (List Int)

/-- What is read of the configuration and of the environment. -/
structure Setting where
  ngramSize : Nat
  headsPerNgram : Nat
  eosTokenId : Word
  /-- `SGLANG_ENABLE_QWEN4_PLE_FUSION`. -/
  enablePleFusion : Bool
  /-- `mamba_cache_chunk_size()`. -/
  chunkSize : Int

/-! ## The rows -/

/-- `_get_ple_forward_mode`. -/
def pleForwardMode (fb : ForwardBatch) : ForwardMode :=
  fb.originalForwardMode.getD fb.forwardMode

/-- `_get_processed_token_count`. -/
def processedTokenCount (fb : ForwardBatch) (physicalTokens : Nat) : Except Fault Nat :=
  match fb.globalNumTokenNonPaddedCpu <|> fb.extendSeqLensCpu.map fun lens => (lens.sum : Int) with
  | none => .ok physicalTokens
  | some n =>
    if 0 ≤ n ∧ n ≤ physicalTokens then .ok n.toNat
    else .error (.runtimeError ("invalid PLE token counts: processed_tokens=" ++ toString n ++
      ", physical_tokens=" ++ toString physicalTokens))

/-- The rows, and the row and the offset of each token. -/
structure Rows where
  lengths : List Nat
  rowWidth : Nat
  reqIndices : List Nat
  tokenOffsets : List Nat

/-- Rows of one width each. -/
def fixedRows (lengths : List Nat) (rowWidth processedTokens : Nat) : Rows where
  lengths := lengths
  rowWidth := rowWidth
  reqIndices := (List.range processedTokens).map (· / rowWidth)
  tokenOffsets := (List.range processedTokens).map fun p => p - p / rowWidth * rowWidth

def verifyRows (fb : ForwardBatch) (processedTokens : Nat) : Except Fault Rows :=
  match fb.specInfo with
  | none => .error .assertion
  | some spec => do
    let rowWidth := spec.draftTokenNum.toNat
    require (decide (0 < spec.draftTokenNum) && processedTokens % rowWidth == 0)
      (.runtimeError ("target verify rows must contain complete draft strides: processed_tokens=" ++
        toString processedTokens ++ " row_width=" ++ toString spec.draftTokenNum))
    let sequenceCount := processedTokens / rowWidth
    -- the lengths of a verification that runs as an extension are not its own
    let lengths :=
      match fb.forwardMode, fb.extendSeqLens with
      | .targetVerify, some lens => lens.take sequenceCount
      | _, _ => List.replicate sequenceCount rowWidth
    require (lengths.length == sequenceCount)
      (.runtimeError ("target verify length metadata does not match its fixed rows: " ++
        "lengths.shape[0]=" ++ toString lengths.length ++ " sequence_count=" ++
        toString sequenceCount))
    return fixedRows lengths rowWidth processedTokens

def decodeRows (processedTokens : Nat) : Rows where
  lengths := List.replicate processedTokens 1
  rowWidth := 1
  reqIndices := List.range processedTokens
  tokenOffsets := List.replicate processedTokens 0

def extendRows (fb : ForwardBatch) (text : String) (processedTokens : Nat) : Except Fault Rows :=
  match fb.extendSeqLens with
  | none => .error (.runtimeError ("PLE requires sequence lengths in " ++ text))
  | some lengths => do
    let rowWidth :=
      match fb.extendSeqLensCpu with
      | some lens => lens.foldl max 0
      | none => processedTokens
    let queryStartLoc := 0 :: cumsum lengths
    -- no token can be placed where there are no rows
    require (processedTokens == 0 || !lengths.isEmpty) .tensor
    let reqIndices := (List.range processedTokens).map fun p =>
      min (searchsortedRight queryStartLoc p - 1) (lengths.length - 1)
    return {
      lengths := lengths
      rowWidth := rowWidth
      reqIndices := reqIndices
      tokenOffsets := (List.range processedTokens).map fun p =>
        p - queryStartLoc.getD (reqIndices.getD p 0) 0 }

def rowsOf (fb : ForwardBatch) (processedTokens : Nat) : Except Fault Rows :=
  match pleForwardMode fb with
  | .targetVerify => verifyRows fb processedTokens
  | .extend text => extendRows fb text processedTokens
  | _ => .ok (decodeRows processedTokens)

/-! ## The slots of the rows -/

/-- `torch.where(mask, values, torch.zeros_like(values))`. -/
def whereOrZero (mask : List Bool) (values : List Nat) : Except Fault (List Nat) :=
  if mask.length = values.length then
    .ok (List.zipWith (fun keep value => if keep then value else 0) mask values)
  else .error .tensor

/-- `valid & more`. -/
def andMask (valid more : List Bool) : Except Fault (List Bool) :=
  if valid.length = more.length then .ok (List.zipWith (· && ·) valid more) else .error .tensor

/-- Which rows are live: they have tokens, and where locations are given, one of their own. -/
def liveRows (fb : ForwardBatch) (mode : ForwardMode) (rows : Rows) (processedTokens : Nat) :
    Except Fault (List Bool) :=
  let sequenceCount := rows.lengths.length
  let valid := rows.lengths.map (· != 0)
  match mode, fb.outCacheLoc with
  | .decode, some loc => andMask valid ((loc.take sequenceCount).map (· != 0))
  | .targetVerify, some loc =>
    if (loc.take processedTokens).length = sequenceCount * rows.rowWidth then
      andMask valid ((List.range sequenceCount).map fun r =>
        (((loc.take processedTokens).drop (r * rows.rowWidth)).take rows.rowWidth).any (· != 0))
    else .error .tensor
  | _, _ => .ok valid

/-- The slot of each row; the rows that are not live have the reserved slot 0. -/
def stateIndicesOf (fb : ForwardBatch) (mode : ForwardMode) (fast : Bool) (rows : Rows)
    (processedTokens : Nat) : Except Fault (List Nat) := do
  let sequenceCount := rows.lengths.length
  let slots := fb.mambaIndices.take sequenceCount
  require (slots.length == sequenceCount) .tensor
  if fast then
    match fb.outCacheLoc with
    | some loc => whereOrZero ((loc.take sequenceCount).map (· != 0)) slots
    | none => return slots
  else
    let valid ← liveRows fb mode rows processedTokens
    whereOrZero valid slots

/-! ## The layout -/

/-- A `_PLEBatch`, without the context. -/
structure Layout extends Rows where
  mode : ForwardMode
  useDecodeFastPath : Bool
  physicalTokens : Nat
  processedTokens : Nat
  validTokens : List Bool
  stateIndices : List Nat

def validTokensOf (fast : Bool) (rows : Rows) (processedTokens : Nat) : List Bool :=
  if fast then List.replicate processedTokens true
  else List.zipWith (fun req offset => decide (offset < rows.lengths.getD req 0)) rows.reqIndices
    rows.tokenOffsets

/-- `_prepare_ple_batch` up to the context; an idle pass has no batch. -/
def layoutOf (E : Setting) (fb : ForwardBatch) (physicalTokens : Nat) :
    Except Fault (Option Layout) := do
  require (!fb.tboParentTokenRange)
    (.notImplemented "Qwen4 PLE is not compatible with two-batch overlap")
  require (!fb.ngramSpeculation)
    (.notImplemented "Qwen4 PLE does not support NGRAM speculation")
  require (fb.specInfo.all fun spec => spec.topk == 1)
    (.notImplemented "Qwen4 PLE speculative decoding supports only topk=1")
  let mode := pleForwardMode fb
  if mode = .idle then return none
  let fast := E.enablePleFusion && decide (mode = .decode)
  let processedTokens ← processedTokenCount fb physicalTokens
  let rows ← rowsOf fb processedTokens
  let stateIndices ← stateIndicesOf fb mode fast rows processedTokens
  return some {
    toRows := rows
    mode := mode
    useDecodeFastPath := fast
    physicalTokens := physicalTokens
    processedTokens := processedTokens
    validTokens := validTokensOf fast rows processedTokens
    stateIndices := stateIndices }

end Ngram
end FlashNext
