import FlashNext.Tensor.Launch
import Mathlib.Data.Rat.Defs

/-!
# Sparse packing

Decode attends over the keys and values of the selected positions, which are first copied into
packed rows.  One launch counts the valid entries of each index row and another copies them.  The
copy of a BF16 pool writes lane after lane, the copy of an NVFP4 pool packs the index row first.
-/

namespace FlashNext
namespace Qsa

open Tensor (offset cdiv nextPowerOf2)

/-- A row of the sparse index tensor, with what the kernels load for it. -/
structure IndexRow where
  indices : List Int
  length : Nat
  request : Nat

/-- The index rows of one call, each of them `topk` entries wide. -/
structure Batch where
  topk : Nat
  rows : List IndexRow
  width : ∀ r ∈ rows, r.indices.length = topk

def isValid (length : Nat) (position : Int) : Bool := decide (0 ≤ position ∧ position < length)

/-- The entries of a row that a decode is to attend over. -/
def IndexRow.selected (r : IndexRow) : List Int := r.indices.filter (isValid r.length)

/-- `load(indices + cols, cols < topk, -1)`. -/
def loadIndex (topk : Nat) (indices : List Int) (col : Nat) : Int :=
  if col < topk then indices.getD col (-1) else -1

/-! ## The row bounds -/

/-- `_fa2_valid_counts`, of one row. -/
def fa2ValidCounts (topk : Nat) (r : IndexRow) : Nat :=
  ((List.range (nextPowerOf2 topk)).map fun col =>
    if isValid r.length (loadIndex topk r.indices col) then 1 else 0).sum

/-- `_fa2_prefix_sum`. -/
def fa2PrefixSum (counts : List Nat) (batch : Nat) : List Nat :=
  let rowCounts := (List.range (nextPowerOf2 batch)).map fun row =>
    if row < batch then counts.getD row 0 else 0
  0 :: (List.range batch).map fun row => (Tensor.cumsum rowCounts).getD row 0

/-- `qwen_sparse_fa2_cu_seqlens_triton`. -/
def qwenSparseFa2CuSeqlens (batch : Batch) : List Nat :=
  fa2PrefixSum (batch.rows.map (fa2ValidCounts batch.topk)) batch.rows.length

/-! ## The copies -/

variable {α : Type}

/-- The packed row that a lane writes and the slot that it reads. -/
def compactLane (reqToToken : Nat → Nat → Nat) (r : IndexRow) (packStart validCount : Nat)
    (position : Int) (col : Nat) : Option (Nat × Nat) :=
  if col < validCount ∧ isValid r.length position = true then
    some (packStart + col, reqToToken r.request position.toNat)
  else none

/-- The stores of one program of a copy. -/
def compactProgram (heads dim : Nat) (element : Nat → Nat → Nat → α)
    (lane : Nat → Option (Nat × Nat)) (head block : Nat) : List (Nat × α) :=
  (List.range 16).flatMap fun i =>
    match lane (block * 16 + i) with
    | some (row, slot) => (List.range (nextPowerOf2 dim)).filterMap fun d =>
      if d < dim then some (offset heads dim row head d, element slot head d) else none
    | none => []

/-- The stores of a launch with a program for each row, head and block of 16 lanes. -/
def compactLaunch (batch : Batch) (heads dim : Nat) (element : Nat → Nat → Nat → α)
    (lane : Nat → IndexRow → Nat → Nat → Nat → Option (Nat × Nat)) : List (Nat × α) :=
  let cuK := qwenSparseFa2CuSeqlens batch
  batch.rows.zipIdx.flatMap fun (r, b) =>
    let packStart := cuK.getD b 0
    let validCount := cuK.getD (b + 1) 0 - packStart
    (List.range heads).flatMap fun head =>
      (List.range (cdiv batch.topk 16)).flatMap fun block =>
        compactProgram heads dim element (lane b r packStart validCount) head block

/-- The lanes of `_compact_kv`. -/
def compactKvLane (reqToToken : Nat → Nat → Nat) (topk : Nat) (r : IndexRow)
    (packStart validCount col : Nat) : Option (Nat × Nat) :=
  compactLane reqToToken r packStart validCount (loadIndex topk r.indices col) col

/-- The key and the value pool of a layer. -/
structure KvPool (α : Type) where
  k : Nat → α
  v : Nat → α

def KvPool.element (pool : KvPool α) (heads dim slot head d : Nat) : α × α :=
  (pool.k (offset heads dim slot head d), pool.v (offset heads dim slot head d))

/-- `qwen_sparse_kv_extraction_compact_triton`. -/
def compactKv (reqToToken : Nat → Nat → Nat) (heads dim : Nat) (pool : KvPool α) (batch : Batch) :
    List (Nat × α × α) :=
  compactLaunch batch heads dim (pool.element heads dim) fun _ =>
    compactKvLane reqToToken batch.topk

/-- The row that `_pack_indices` leaves, where `fresh` lay before. -/
def packIndices (fresh : Nat → Int) (r : IndexRow) : Nat → Int :=
  Tensor.scatter fresh (Tensor.rankStores (isValid r.length) r.indices)

/-- The lanes of `_compact_nvfp4`. -/
def compactNvfp4Lane (reqToToken : Nat → Nat → Nat) (topk : Nat) (packed : Nat → Int)
    (r : IndexRow) (packStart validCount col : Nat) : Option (Nat × Nat) :=
  compactLane reqToToken r packStart validCount
    (if col < topk ∧ col < validCount then packed col else -1) col

/-- `_e2m1`. -/
def e2m1 (bits : Nat) : ℚ :=
  let magnitude := bits &&& 7
  let value : ℚ := if magnitude = 0 then 0
    else if magnitude = 1 then 1 / 2
    else if magnitude = 2 then 1
    else if magnitude = 3 then 3 / 2
    else if magnitude = 4 then 2
    else if magnitude = 5 then 3
    else if magnitude = 6 then 4 else 6
  if bits &&& 8 ≠ 0 then -value else value

/-- The float arithmetic of the dequantization. -/
structure Floats (F α : Type) where
  ofE2m1 : ℚ → F
  mul : F → F → F
  toBf16 : F → α

/-- An NVFP4 pool: two codes a byte, a scale for 16 codes and a global scale. -/
structure Nvfp4Pool (F : Type) where
  k : Nat → Nat
  v : Nat → Nat
  ks : Nat → F
  vs : Nat → F
  kg : F
  vg : F

variable {F : Type}

def Floats.dequantize (f : Floats F α) (heads dim : Nat) (codes : Nat → Nat) (scales : Nat → F)
    (scale : F) (slot head d : Nat) : α :=
  let byte := codes (offset heads (dim / 2) slot head (d / 2))
  let shift := (d &&& 1) * 4
  f.toBf16 (f.mul (f.mul (f.ofE2m1 (e2m1 (byte >>> shift &&& 15)))
    (scales (offset heads (dim / 16) slot head (d / 16)))) scale)

def Nvfp4Pool.element (f : Floats F α) (pool : Nvfp4Pool F) (heads dim slot head d : Nat) : α × α :=
  (f.dequantize heads dim pool.k pool.ks pool.kg slot head d,
    f.dequantize heads dim pool.v pool.vs pool.vg slot head d)

/-- `compact_nvfp4_kv`.  The packed index rows start as whatever `fresh` is. -/
def compactNvfp4Kv (f : Floats F α) (reqToToken : Nat → Nat → Nat) (heads dim : Nat)
    (pool : Nvfp4Pool F) (fresh : Nat → Nat → Int) (batch : Batch) : List (Nat × α × α) :=
  compactLaunch batch heads dim (pool.element f heads dim) fun b r =>
    compactNvfp4Lane reqToToken batch.topk (packIndices (fresh b) r) r

end Qsa
end FlashNext
