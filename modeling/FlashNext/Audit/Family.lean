import FlashNext.Audit.Header

/-!
# The tensor families

The index has to claim every tensor of every header.  The MTP experts and the PLE shards are
validated in the header of the MTP shard, the main experts in every header, and every other
tensor has to have one of the dtypes that are not quantized.  Whether a tensor is another one is
decided by `isExempt`, with an entry point of its own into the patterns.
-/

namespace FlashNext
namespace Audit

open Py (Str Value str)

/-! ## Index and headers -/

section Agreement

variable {α : Type}

/-- `set(header) - {"__metadata__"}`. -/
def headerNames (header : List (Str × α)) : List Str :=
  (header.map (·.1)).filter fun name => name != str metadataKey

/-- One round of the loop over the index. -/
def checkClaim (headers : List (Str × List (Str × α))) (claim : Str × Str) : Check Unit := do
  rejectIf (!safeRelpath claim.2)
    [.text "weight_map[", .repr (.str (claim.1.take 80)), .text "]: unsafe shard path"]
  let header ← orReject ((headers.find? fun h => h.1 == claim.2).map (·.2))
    [.text "weight_map claims ", .repr (.str (claim.1.take 80)), .text " from missing shard ",
      .name claim.2]
  rejectIf (!(headerNames header).contains claim.1)
    [.text "tensor ", .repr (.str (claim.1.take 80)), .text " claimed in index but absent from ",
      .name claim.2, .text " header"]

/-- The names that the index claims for a shard. -/
def claimsOf (weightMap : WeightMap) (shard : Str) : List Str :=
  (weightMap.filter fun claim => claim.2 == shard).map (·.1)

/-- The names of a header are those that the index claims for its shard. -/
def checkClaimed (weightMap : WeightMap) (header : Str × List (Str × α)) : Check Unit :=
  let names := headerNames header.2
  let claims := claimsOf weightMap header.1
  let extra := names.filter fun name => !claims.contains name
  rejectIf (!(extra.isEmpty && claims.all names.contains))
    [.text "shard ", .name header.1, .text " carries tensors absent from the index: ",
      .names ((extra.mergeSort fun a b => decide (a ≤ b)).take 4)]

/-- `validate_index_header_agreement`. -/
def validateIndexHeaderAgreement (headers : List (Str × List (Str × α))) (weightMap : WeightMap) :
    Check Unit := do
  weightMap.forM (checkClaim headers)
  headers.forM (checkClaimed weightMap)

end Agreement

/-! ## The MTP experts -/

/-- A quantized entry of the MTP family: its name, its expert and its projection. -/
structure MtpEntry where
  name : Str
  expert : Nat
  projection : Projection

/-- The dtype and the shape that the contract has for an MTP tensor. -/
def mtpAdmits (mtp : MtpContract) (key : MtpKey) (tensor : Tensor) : Check Unit :=
  match key.kind with
  | .weight => do
    rejectIf (tensor.dtype != mtp.weightDtype)
      [.text "MTP ", .repr (.str (mtpName key)), .text " dtype ", .text tensor.dtype.name,
        .text " != ", .text mtp.weightDtype.name]
    rejectIf (tensor.shape != mtp.shape key.projection)
      [.text "MTP ", .repr (.str (mtpName key)), .text " shape ", .shape tensor.shape,
        .text " != ", .shape (mtp.shape key.projection)]
  | .weightScaleInv => do
    rejectIf (!mtp.scaleDtypes.contains tensor.dtype)
      [.text "MTP ", .repr (.str (mtpName key)), .text " scale dtype ", .text tensor.dtype.name,
        .text " not in ", .names (mtp.scaleDtypes.map fun dtype => str dtype.name)]
    rejectIf (tensor.shape != mtp.scaleGrid key.projection)
      [.text "MTP ", .repr (.str (mtpName key)), .text " scale grid ", .shape tensor.shape,
        .text " != ", .shape (mtp.scaleGrid key.projection)]

/-- One round of the loop over the header. -/
def mtpEntry (mtp : MtpContract) (entry : Str × Tensor) : Check (Option MtpEntry) :=
  match mtpKey? entry.1 with
  | none => .ok none
  | some key => do
    rejectIf (entry.1 != mtpName key) [.text "noncanonical MTP tensor name"]
    rejectIf (key.layer != 0)
      [.text "unexpected MTP layer index in ", .repr (.str entry.1)]
    rejectIf (decide (mtp.experts ≤ key.expert))
      [.text "MTP expert id out of range: ", .repr (.str entry.1)]
    mtpAdmits mtp key entry.2
    return some ⟨entry.1, key.expert, key.projection⟩

/-- `validate_mtp_expert_family`: the count of the matched names. -/
def validateMtpExpertFamily (header : Header) (c : Contract) : Check Nat := do
  let entries ← Effect.collect (mtpEntry c.mtp) header
  let matched := (entries.map MtpEntry.name).dedup
  rejectIf (matched.length != c.mtp.experts * Projection.all.length * 2)
    [.text "MTP expert family incomplete: ", .number matched.length,
      .text " quant entries, expected ", .number (c.mtp.experts * Projection.all.length * 2),
      .text " (missing or misnamed tensors)"]
  (List.range c.mtp.experts).forM fun expert =>
    rejectIf (!Projection.all.all fun projection =>
        entries.any fun entry => entry.expert == expert && entry.projection == projection)
      [.text "MTP expert ", .number expert, .text " does not carry all projections ",
        .names (["down_proj", "gate_proj", "up_proj"].map str)]
  return matched.length

/-! ## The PLE shards -/

/-- One round of the loop that finds the shards. -/
def pleEntry (ple : PleContract) (entry : Str × Tensor) : Check (Option (Nat × Tensor)) :=
  match matches? pleShardKey entry.1 with
  | some [digits] => do
    rejectIf (entry.1 != ple.shardName (intOf digits))
      [.text "noncanonical/duplicate PLE shard name"]
    return some (intOf digits, entry.2)
  | _ => .ok none

/-- The bytes of one shard, which has the contracted dtype and shape. -/
def pleShardBytes (ple : PleContract) (shards : List (Nat × Tensor)) (index : Nat) :
    Check Nat := do
  let shard ← Effect.orRaise (shards.find? fun shard => shard.1 == index) (.raised "KeyError")
  rejectIf (shard.2.dtype != ple.shardDtype)
    [.text "PLE shard ", .number index, .text " dtype ", .text shard.2.dtype.name, .text " != ",
      .text ple.shardDtype.name]
  rejectIf (shard.2.shape != ple.shardShape)
    [.text "PLE shard ", .number index, .text " shape ", .shape shard.2.shape, .text " != ",
      .shape ple.shardShape]
  return shard.2.stop - shard.2.start

/-- The scale stands in the header and is what the contract says. -/
def checkPleScale (ple : PleContract) (header : Header) : Check Unit := do
  let scale ← orReject (header.find? fun entry => entry.1 == ple.scaleName)
    [.text "PLE scale tensor ", .repr (.str ple.scaleName),
      .text " missing (index claims do not count; the header must carry it)"]
  rejectIf (scale.2.dtype != ple.scaleDtype)
    [.text "PLE scale dtype ", .text scale.2.dtype.name, .text " != ", .text ple.scaleDtype.name]
  rejectIf (scale.2.shape != ple.scaleShape)
    [.text "PLE scale shape ", .shape scale.2.shape, .text " != ", .shape ple.scaleShape]

/-- `validate_ple_family`: the payload bytes. -/
def validatePleFamily (header : Header) (c : Contract) : Check Nat := do
  checkPleScale c.ple header
  let shards ← Effect.collect (pleEntry c.ple) header
  rejectIf (!decide (shards.map (·.1)).Nodup) [.text "noncanonical/duplicate PLE shard name"]
  rejectIf (shards.length != c.ple.shardCount)
    [.text "PLE tensor-vs-file count mismatch: header carries ", .number shards.length,
      .text " shard tensors, contract requires ", .number c.ple.shardCount]
  rejectIf ((shards.map (·.1)).mergeSort (fun a b => decide (a ≤ b)) !=
      List.range c.ple.shardCount)
    [.text "PLE shard numbering must be contiguous 0..N-1"]
  let bytes ← (List.range c.ple.shardCount).mapM (pleShardBytes c.ple shards)
  rejectIf (bytes.sum != c.ple.shardShape.prod * c.ple.shardCount)
    [.text "PLE derived payload bytes ", .number bytes.sum, .text " != ",
      .number (c.ple.shardShape.prod * c.ple.shardCount), .text " (shape x count)"]
  return bytes.sum

/-! ## The main experts -/

/-- The dtype and the shape that the contract has for a main expert's tensor. -/
def mainContracted (q : Nvfp4Contract) (key : MainKey) : Dtype × List Nat :=
  match key.kind with
  | .weight => (q.weightDtype, q.weightShape key.projection)
  | .weightScale => (q.scaleDtype, q.scaleShape key.projection)
  | .weightScale2 => (q.scale2Dtype, [])
  | .inputScale => (q.inputScaleDtype, [])

/-- One round of the loop over the tensors: a main expert's tensor is added to those seen. -/
def nvfp4Entry (c : Contract) (seen : List MainKey) (entry : Str × Tensor) :
    Check (List MainKey) :=
  match mainKey? entry.1 with
  | none => .ok seen
  | some key => do
    rejectIf (entry.1 != mainName key || seen.contains key ||
        decide (c.numHiddenLayers ≤ key.layer) || decide (c.nvfp4.experts ≤ key.expert))
      [.text "unexpected/duplicate NVFP4 expert entry: ", .name entry.1]
    rejectIf (entry.2.dtype != (mainContracted c.nvfp4 key).1 ||
        entry.2.shape != (mainContracted c.nvfp4 key).2)
      [.text "NVFP4 dtype/shape mismatch: ", .name entry.1]
    return seen ++ [key]

structure Nvfp4Facts where
  layerCount : Nat
  expertEntries : Nat
  tensorCount : Nat
  groupSize : Nat

/-- `validate_nvfp4_families`. -/
def validateNvfp4Families (headers : Headers) (c : Contract) : Check Nvfp4Facts := do
  let seen ← (headers.flatMap fun header => header.2).foldlM (nvfp4Entry c) []
  rejectIf (seen.length !=
      c.numHiddenLayers * c.nvfp4.experts * Projection.all.length * 4)
    [.text "NVFP4 expert tensor set is incomplete"]
  return ⟨(seen.map ExpertKey.layer).dedup.length, seen.length / 4, seen.length, c.nvfp4.groupSize⟩

/-! ## All other tensors -/

/-- The tensors that need not have one of the dtypes of the others. -/
def isExempt (c : Contract) (name : Str) : Bool :=
  name == c.ple.scaleName || (matches? mainExpertKey name).isSome ||
    (matches? mtpExpertKey name).isSome || (matches? pleShardKey name).isSome

def checkDtype (c : Contract) (shard : Str) (entry : Str × Tensor) : Check Unit :=
  rejectIf (!isExempt c entry.1 && !c.nonexpertDtypes.contains entry.2.dtype)
    [.text "shard ", .name shard, .text ": non-expert tensor ", .repr (.str (entry.1.take 80)),
      .text " carries quantized dtype ", .text entry.2.dtype.name,
      .text " (excluded modules must remain unquantized)"]

/-- `_validate_dtype_families`. -/
def validateDtypeFamilies (headers : Headers) (c : Contract) : Check Unit :=
  headers.forM fun header => header.2.forM (checkDtype c header.1)

end Audit
end FlashNext
