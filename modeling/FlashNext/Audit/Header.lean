import FlashNext.Audit.Document
import Mathlib.Data.List.Sort

/-!
# The shard headers

`auditSafetensorsHeaders` reads the header of every shard in the directory.  An entry that passes
`checkTensorEntry` is a `Tensor`: its span has the length that its shape and dtype ask for.  The
spans of a shard's tensors have to tile what follows its header.
-/

namespace FlashNext
namespace Audit

open Py (Str Value str)

/-! ## Entries -/

/-- A tensor's entry in a header. -/
structure Tensor where
  dtype : Dtype
  shape : List Nat
  start : Nat
  stop : Nat
  span : start ≤ stop ∧ stop - start = shape.prod * dtype.bytes

abbrev Header := List (Str × Tensor)

/-- `_is_int(value) and value >= 0`. -/
def natOf? (v : Value) : Option Nat := (v.asInt?.filter fun n => decide (0 ≤ n)).map Int.toNat

/-- The two offsets. -/
def offsetsOf? (v : Value) : Option (Nat × Nat) :=
  match v.asList?.bind fun items => items.mapM natOf? with
  | some [start, stop] => if start ≤ stop then some (start, stop) else none
  | _ => none

def tensorText (shard name : Str) : List Part :=
  [.text "shard ", .name shard, .text ": tensor ", .repr (.str name)]

/-- `_check_tensor_entry`. -/
def checkTensorEntry (shard name : Str) (entry : Value) : Check Tensor := do
  let entry ← orReject entry.asDict? (tensorText shard name ++ [.text " entry must be an object"])
  let dtype ← orReject ((Value.field entry "dtype").asStr?.bind Dtype.ofStr?)
    (tensorText shard name ++ [.text " has unknown dtype ", .repr (Value.field entry "dtype")])
  let shape ← orReject ((Value.field entry "shape").asList?.bind fun items => items.mapM natOf?)
    (tensorText shard name ++ [.text " shape dimensions must be nonnegative ints"])
  let (start, stop) ← orReject (offsetsOf? (Value.field entry "data_offsets"))
    (tensorText shard name ++ [.text " data_offsets must be [start<=end] ints"])
  if h : start ≤ stop ∧ stop - start = shape.prod * dtype.bytes then
    return ⟨dtype, shape, start, stop, h⟩
  else .error (.audit (tensorText shard name ++ [.text " shape/dtype/span disagree"]))

def metadataKey : String := "__metadata__"

/-- `MAX_TENSOR_NAME_LENGTH`. -/
def maxTensorNameLength : Nat := 4096

def tensorEntry (shard : Str) (f : Str × Value) : Check (Str × Tensor) := do
  rejectIf (decide (maxTensorNameLength < f.1.length))
    [.text "shard ", .name shard, .text ": tensor name too long"]
  rejectIf (!safeRelpath f.1)
    [.text "shard ", .name shard, .text ": unsafe tensor name ", .repr (.str (f.1.take 80))]
  let tensor ← checkTensorEntry shard f.1 f.2
  return (f.1, tensor)

/-- `validate_tensor_entries`, with the entries it has validated. -/
def validateTensorEntries (shard : Str) (header : Fields) : Check Header :=
  (header.filter fun f => f.1 != str metadataKey).mapM (tensorEntry shard)

/-! ## Shards -/

/-- A directory entry: what `lstat` shows, and what its first bytes read as. -/
structure Shard where
  name : Str
  linked : Bool
  inside : Bool
  regular : Bool
  inode : Int
  mtimeNs : Int
  ctimeNs : Int
  size : Nat
  headerLen : Nat
  decodes : Bool
  scan : Option Raw

/-- `SAFETENSORS_HEADER_LIMIT`. -/
def safetensorsHeaderLimit : Nat := 64 * 1024 * 1024

/-- A tuple comes before another. -/
def spanLe (a b : Nat × Nat) : Bool := decide (a.1 < b.1) || (a.1 == b.1 && decide (a.2 ≤ b.2))

/-- The loop over the sorted spans: each starts where the one before it ends. -/
def checkTiles (shard : Str) : Nat → List (Nat × Nat) → Check Nat
  | cursor, [] => .ok cursor
  | cursor, (start, stop) :: spans => do
    rejectIf (start != cursor)
      [.text "shard ", .name shard, .text ": overlapping spans or payload gap"]
    checkTiles shard stop spans

def checkInside (shard : Str) (dataSize : Nat) (tensor : Str × Tensor) : Check Unit :=
  rejectIf (decide (dataSize < tensor.2.stop))
    [.text "shard ", .name shard, .text ": tensor ", .repr (.str (tensor.1.take 80)),
      .text " data end ", .number tensor.2.stop, .text " outside file data region (",
      .number dataSize, .text " bytes)"]

/-- The spans of a header tile its data region. -/
def checkLayout (shard : Str) (dataSize : Nat) (header : Header) : Check Unit := do
  header.forM (checkInside shard dataSize)
  let spans := (header.map fun tensor => tensor.2.stop - tensor.2.start).sum
  let maxEnd := (header.map fun tensor => tensor.2.stop).foldl max 0
  let _ ← checkTiles shard 0
    ((header.map fun tensor => (tensor.2.start, tensor.2.stop)).mergeSort spanLe)
  rejectIf (spans != dataSize || maxEnd != dataSize)
    [.text "shard ", .name shard, .text ": tensor spans (", .number spans, .text " bytes, end ",
      .number maxEnd, .text ") do not tile the data region (", .number dataSize, .text " bytes)"]

/-- What the report keeps of a shard. -/
structure ShardReport where
  name : Str
  size : Nat
  headerLen : Nat
  tensorCount : Nat
  inode : Int
  mtimeNs : Int
  ctimeNs : Int

/-- One round of the loop over the shards: the header is read, checked and kept. -/
def auditShard (shard : Shard) : Check (ShardReport × Header) := do
  rejectIf (!safeRelpath shard.name)
    [.text "unsafe shard name ", .repr (.str (shard.name.take 80))]
  rejectIf shard.linked [.text "shard ", .name shard.name, .text " is a symlink"]
  rejectIf (!shard.inside)
    [.text "shard ", .name shard.name, .text " escapes the checkpoint root"]
  rejectIf (!shard.regular) [.text "referenced shard missing: ", .name shard.name]
  rejectIf (decide (shard.size < 8))
    [.text "shard ", .name shard.name, .text ": truncated header length"]
  rejectIf (decide (safetensorsHeaderLimit < shard.headerLen))
    [.text "shard ", .name shard.name, .text ": declared header length ",
      .number shard.headerLen, .text " exceeds limit"]
  rejectIf (decide (shard.size < 8 + shard.headerLen))
    [.text "shard ", .name shard.name, .text ": truncated header"]
  Effect.reject (!shard.decodes) (.raised "UnicodeDecodeError")
  let parsed ← strictJsonLoads shard.scan [.text "shard ", .name shard.name, .text " header"]
  let parsed ← orReject parsed.asDict?
    [.text "shard ", .name shard.name, .text ": header must be a JSON object"]
  let header ← validateTensorEntries shard.name parsed
  checkLayout shard.name (shard.size - 8 - shard.headerLen) header
  return (⟨shard.name, shard.size, shard.headerLen, header.length, shard.inode, shard.mtimeNs,
    shard.ctimeNs⟩, header)

/-! ## The directory -/

/-- The checkpoint directory, with the documents that stand in it. -/
structure Directory where
  root : Str
  inode : Int
  dev : Int
  mtimeNs : Int
  ctimeNs : Int
  config : Option Document
  quant : Option Document
  index : Option Document
  entries : List Shard
  distinct : (entries.map (·.name)).Nodup

/-- The entries whose name ends in `.safetensors`, sorted by name. -/
def Directory.shards (dir : Directory) : List Shard :=
  (dir.entries.filter fun entry => (str ".safetensors").isSuffixOf entry.name).mergeSort
    fun a b => decide (a.name ≤ b.name)

/-- The headers by shard name. -/
abbrev Headers := List (Str × Header)

structure HeadersReport where
  shards : List ShardReport
  headers : Headers

/-- `audit_safetensors_headers`. -/
def auditSafetensorsHeaders (dir : Directory) : Check HeadersReport := do
  let audited ← dir.shards.mapM auditShard
  return ⟨audited.map (·.1), audited.map fun shard => (shard.1.name, shard.2)⟩

end Audit
end FlashNext
