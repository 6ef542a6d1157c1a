import FlashNext.Effect.Check
import FlashNext.Qsa.Plan

/-!
# The index-key pool

`updateKeyStateAndCompress` stores the keys of all rows of a forward in the pending ring and only
then compresses the groups that the rows complete.  `pagedMetadata`, `graphMetadata` and
`extendMetadata` are what the backend derives for a forward of one request.
-/

namespace FlashNext
namespace Qsa

variable {Key : Type}

/-- `QSATokenToKVPool` at one layer.  A compressed key is the list of its members' keys. -/
structure Pool (Key : Type) where
  keyState : Nat → Key
  compressed : Nat → List Key

/-- How the members of a planned group are read.  The fused kernel checks no bound: past the rows
of its source it loads what lies there. -/
structure Device (Key : Type) where
  fused : Bool
  outside : Nat → Key

def Device.gather (dev : Device Key) (source : List Key) (groupLocs : List (List Nat)) :
    Except String (List (List Key)) :=
  if dev.fused then
    .ok (groupLocs.map fun locs => locs.map fun i => source.getD i (dev.outside i))
  else
    groupLocs.mapM fun locs => locs.mapM fun i =>
      Effect.orRaise source[i]? "index is out of bounds"

/-- `QSAIndexerMetadata`, as far as the update reads it. -/
structure IndexerMetadata where
  isCudaGraph : Bool
  pendingRingSlots : List Nat
  writeLocs : Option (List Nat)
  compressMemberRows : Option (List Nat)
  compressGroupRingLocs : List (List Nat)
  graphWriteLocs : Option (List Nat)
  graphRingGroupLocs : Option (List (List Nat))

/-- The keys of each group in the pending ring. -/
def ringGroups (keyState : Nat → Key) (groupLocs : List (List Nat)) : List (List Key) :=
  groupLocs.map fun locs => locs.map keyState

def updateKeyStateAndCompress (dev : Device Key) (compressRatio : Nat) (metadata : IndexerMetadata)
    (tokenK : List Key) (pool : Pool Key) : Except String (Pool Key) :=
  let keyState := Tensor.scatter pool.keyState (metadata.pendingRingSlots.zip tokenK)
  let store (writeLocs : List Nat) (groups : List (List Key)) : Pool Key :=
    ⟨keyState, Tensor.scatter pool.compressed (writeLocs.zip groups)⟩
  if metadata.isCudaGraph then
    match metadata.graphWriteLocs, metadata.graphRingGroupLocs with
    | some writeLocs, some groupLocs => .ok (store writeLocs (ringGroups keyState groupLocs))
    | _, _ => .error "QSA CUDA graph compression metadata is incomplete"
  else
    match metadata.writeLocs, metadata.compressMemberRows with
    | none, _ =>
      .error ("QSA metadata is missing the precomputed write plan; the " ++
        "sparse-attention backend derives it from the batch lengths")
    | some writeLocs, some memberRows =>
      -- An extend reads the members of its groups from the chunk itself.
      (dev.gather tokenK (memberRows.map fun row => (List.range compressRatio).map (row + ·))).map
        (store writeLocs)
    | some writeLocs, none =>
      .ok (store writeLocs (ringGroups keyState metadata.compressGroupRingLocs))

/-! ## The metadata of a forward -/

namespace Layout

variable (l : Layout)

/-- `rows` paged rows from `start` on: row `j` has the length `start + j + 1`. -/
def pagedPositions (start rows : Nat) : List Nat := (List.range rows).map (start + ·)

/-- The block that a row's length completes starts one below its end. -/
def pagedPlan (compressRatio : Nat) (lengths : List Nat) : List PlanEntry :=
  writePlan
    (lengths.map fun length =>
      length / compressRatio - if length % compressRatio = 0 then 1 else 0)
    (lengths.map fun length => length / compressRatio) lengths.length

/-- `_metadata_from_forward_batch` on a decode or a target-verify forward. -/
def pagedMetadata (start rows : Nat) : IndexerMetadata :=
  let positions := pagedPositions start rows
  let requests := List.replicate rows l.request
  let lengths := positions.map (· + 1)
  let plan := pagedPlan l.ratio lengths
  { isCudaGraph := false
    pendingRingSlots :=
      buildPendingRingSlots (List.range rows) requests lengths positions l.ratio false
    writeLocs := some (plan.map (PlanEntry.writeLoc (fun _ => l.tokenSlot) l.ratio))
    compressMemberRows := none
    compressGroupRingLocs :=
      buildGroupRingSlots requests (plan.map (PlanEntry.groupEndPosition l.ratio))
        (plan.map PlanEntry.row) l.ratio
    graphWriteLocs := none
    graphRingGroupLocs := none }

/-- `_update_qsa_cuda_graph_metadata`: every row has an entry of its own, and a row that
completes no group writes slot 0. -/
def graphMetadata (start rows : Nat) : IndexerMetadata :=
  let lengths := (pagedPositions start rows).map (· + 1)
  let requests := List.replicate rows l.request
  let currentPositions := lengths.map (· - 1)
  { isCudaGraph := true
    pendingRingSlots :=
      buildPendingRingSlots (List.range rows) requests lengths currentPositions l.ratio false
    writeLocs := none
    compressMemberRows := none
    compressGroupRingLocs := []
    graphWriteLocs := some (lengths.map fun length =>
      if length % l.ratio = 0 ∧ 0 < length then l.tokenSlot (length - 1) / l.ratio else 0)
    graphRingGroupLocs :=
      some (buildGroupRingSlots requests currentPositions (List.range rows) l.ratio) }

/-- `_metadata_from_forward_batch` on an extend by `rows` tokens after a prefix. -/
def extendMetadata (start rows : Nat) : IndexerMetadata :=
  let plan := writePlan [start / l.ratio] [(start + rows) / l.ratio] (rows / l.ratio + 1)
  { isCudaGraph := false
    pendingRingSlots :=
      buildPendingRingSlots (List.replicate rows 0) [l.request] [start + rows]
        (pagedPositions start rows) l.ratio true
    writeLocs := some (plan.map (PlanEntry.writeLoc (fun _ => l.tokenSlot) l.ratio))
    compressMemberRows := some (plan.map (PlanEntry.memberRow [0] [start] l.ratio))
    compressGroupRingLocs := []
    graphWriteLocs := none
    graphRingGroupLocs := none }

/-- A decode or target-verify forward of the request's next rows. -/
def pagedForward (dev : Device Key) (graph : Bool) (start : Nat) (keys : List Key)
    (pool : Pool Key) : Except String (Pool Key) :=
  updateKeyStateAndCompress dev l.ratio
    (if graph then l.graphMetadata start keys.length else l.pagedMetadata start keys.length)
    keys pool

def extendForward (dev : Device Key) (start : Nat) (keys : List Key) (pool : Pool Key) :
    Except String (Pool Key) :=
  updateKeyStateAndCompress dev l.ratio (l.extendMetadata start keys.length) keys pool

end Layout

/-! ## What speculation is admitted -/

/-- The fields of `spec_info` that are read; a field that is missing or zero has its default. -/
structure SpecInfo where
  topk : Option Nat
  draftTokenNum : Option Nat

def SpecInfo.draftTokens (spec : SpecInfo) : Nat := spec.draftTokenNum.getD 0

/-- `_require_chain_speculation` on a target-verify forward. -/
def requireChainSpeculation (compressRatio : Nat) (spec : SpecInfo) : Except String Unit := do
  let topk := spec.topk.getD 1
  Effect.reject (!(topk == 0 || topk == 1))
    "Qwen QSA target verification supports only speculative_eagle_topk=1"
  Effect.reject (decide (compressRatio < spec.draftTokens))
    ("Qwen QSA requires speculative_num_draft_tokens <= the QSA " ++
      "compress ratio (" ++ toString compressRatio ++ "): the pending " ++
      "index-key ring holds one group; got " ++ toString spec.draftTokens)

end Qsa
end FlashNext
