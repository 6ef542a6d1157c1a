import FlashNext.Tensor.Window
import FlashNext.Ngram.StatePool

/-!
# The context of a batch

The columns of a row are those of its state slot and behind them the tokens of its request.
`commit` rolls the slots forward over them; a verification only stages what its slots would be
after each token.
-/

namespace FlashNext
namespace Ngram

open Tensor (scatter)

variable {α β : Type}

/-! ## The columns -/

/-- `padded[req_indices, token_offsets] = values`, in a tensor that is full of the padding. -/
def Layout.fill (l : Layout) (pad : α) (values : List α) : Except Fault (List (List α)) := do
  let sequenceCount := l.lengths.length
  require (values.length == l.processedTokens) .tensor
  require ((l.reqIndices.zip l.tokenOffsets).all fun (req, offset) =>
    decide (req < sequenceCount) && decide (offset < l.rowWidth)) .tensor
  let addresses := List.zipWith (fun req offset => req * l.rowWidth + offset) l.reqIndices
    l.tokenOffsets
  let buffer := scatter (fun _ => pad) (addresses.zip values)
  return (List.range sequenceCount).map fun r =>
    (List.range l.rowWidth).map fun t => buffer (r * l.rowWidth + t)

/-- `padded` of `_prepare_ple_batch`. -/
def paddedTokens (E : Setting) (l : Layout) (tokens : List Word) :
    Except Fault (List (List Word)) :=
  if l.useDecodeFastPath then .ok (tokens.map fun t => [t])
  else l.fill E.eosTokenId
    (List.zipWith (fun valid t => if valid then t else E.eosTokenId) l.validTokens tokens)

/-- `ngram_context` of `_prepare_ple_batch`. -/
def ngramContext (E : Setting) (S : PoolShape) (l : Layout) (p : Pool (List Word))
    (tokens : List Word) : Except Fault (List (List Word)) := do
  let padded ← paddedTokens E l tokens
  let history ← getContext S p l.stateIndices
  require (S.rowLength == E.ngramSize - 1)
    (.runtimeError ("Qwen4 PLE N-gram cache has the wrong context width: history.shape[1]=" ++
      toString S.rowLength ++ " ngram_size=" ++ toString E.ngramSize))
  return List.zipWith (· ++ ·) history padded

/-- `context.unfold(1, width, 1)[req_indices, token_offsets]`, with the context as it is on the
fast path. -/
def windows (width : Nat) (l : Layout) (context : List (List α)) : List (List α) :=
  if l.useDecodeFastPath then context
  else List.zipWith (fun req offset => ((context.getD req []).drop offset).take width) l.reqIndices
    l.tokenOffsets

/-! ## The commit -/

/-- `mamba_track_aligned_lens`. -/
def mambaTrackAlignedLens (E : Setting) (fb : ForwardBatch) : Except Fault (Option (List Int)) :=
  match fb.mambaTrackMask, fb.mambaTrackSeqlens, fb.extendPrefixLens with
  | some _, some seqlens, some prefixLens => do
    require (seqlens.length == prefixLens.length) .tensor
    return some (List.zipWith (fun seqlen before =>
      (seqlen - before).fdiv E.chunkSize * E.chunkSize) seqlens prefixLens)
  | _, _, _ => .ok none

/-- `_ple_track_targets`: the slots of the snapshots, and after how many tokens they are taken. -/
def trackTargets (E : Setting) (fb : ForwardBatch) (l : Layout) :
    Except Fault (Option (List Nat × List Nat)) :=
  match fb.mambaTrackIndices, fb.mambaTrackMask with
  | some trackIndices, some mask => do
    let rows := l.lengths.length
    let dst ← whereOrZero (mask.take rows) (trackIndices.take rows)
    if l.mode = .decode then return some (dst, l.lengths)
    match ← mambaTrackAlignedLens E fb with
    | none => return none
    | some aligned => do
      require ((aligned.take rows).length == rows) .tensor
      return some (dst, List.zipWith (fun n length => min (max n 0).toNat length)
        (aligned.take rows) l.lengths)
  | _, _ => .ok none

/-- `context.gather(1, offsets + cols)`: `width` columns of each row. -/
def gatherAt (width : Nat) (context : List (List α)) (offsets : List Nat) :
    Except Fault (List (List α)) := do
  require (offsets.length == context.length) .tensor
  require ((context.zip offsets).all fun (row, offset) => decide (offset + width ≤ row.length))
    .tensor
  return List.zipWith (fun row offset => (row.drop offset).take width) context offsets

/-- `_commit_ple_batch`, and what `_short_conv` does with its state: `context_len` is the number of
columns of a state. -/
def commit (E : Setting) (S : PoolShape) (fb : ForwardBatch) (l : Layout) (pad : α)
    (context : List (List α)) : Except Fault (Change (List α)) := do
  if l.processedTokens = 0 then return {}
  let contextLen := S.rowLength
  if l.mode = .targetVerify then
    let steps := context.zipIdx.map fun (row, r) => (List.range l.rowWidth).map fun t =>
      if l.validTokens.getD (r * l.rowWidth + t) false then (row.drop (t + 1)).take contextLen
      else List.replicate contextLen pad
    let staged ← setIntermediate S steps l.rowWidth
    return { staged := staged }
  if l.useDecodeFastPath then
    let next := context.map (List.drop l.rowWidth)
    let writes ← setContext S l.stateIndices next
    match ← trackTargets E fb l with
    | none => return { stores := [writes] }
    | some (track, _) =>
      let tracked ← setContext S track next
      return { stores := [writes, tracked] }
  let next ← gatherAt contextLen context l.lengths
  let writes ← setContext S l.stateIndices next
  match ← trackTargets E fb l with
  | none => return { stores := [writes] }
  | some (track, offsets) =>
    let snapshots ← gatherAt contextLen context offsets
    let tracked ← setContext S track snapshots
    return { stores := [writes, tracked] }

/-- A forward pass over the n-gram pool. -/
def forward (E : Setting) (S : PoolShape) (p : Pool (List Word)) (fb : ForwardBatch)
    (inputIds : List Word) : Except Fault (Change (List Word)) := do
  match ← layoutOf E fb inputIds.length with
  | none => return {}
  | some l =>
    let context ← ngramContext E S l p (inputIds.take l.processedTokens)
    commit E S fb l E.eosTokenId context

end Ngram
end FlashNext
