import FlashNext.Effect.Check
import FlashNext.Py.Text

/-!
# Plans of the lookup table

A plan names a source file, the shards of the lookup table in it and the table to build.
`validatePlan` is the strict validator; what it lets through is a `Plan`, and `Plan.Valid` is
what is known of one.
-/

namespace FlashNext
namespace Ple

open Effect
open Py (Str Value str)

def planSchema : Str := str "qwen38fn.ple-plan.v1"
def preparedSchema : Str := str "qwen38fn.ple-prepared.v1"
def tableDtype : Str := str "F8_E4M3"
def modelId : Str := str "nvidia/Qwen3.8-Flash-Next-NVFP4"
def revisionLen : Nat := 40
def maxHeaderBytes : Nat := 16 * 1024 * 1024
def maxMetaBytes : Nat := 1024 * 1024
def ioBufferBytes : Nat := 8 * 1024 * 1024
def fadviseIntervalBytes : Nat := 64 * 1024 * 1024
def spaceReserveBytes : Nat := 4 * 1024 * 1024 * 1024
def nameMax : Nat := 255
def maxShards : Nat := 4096
def maxRowsPerShard : Nat := 2 ^ 40
def maxWidth : Nat := 2 ^ 24
def maxTableBytes : Nat := 2 ^ 63 - 1

/-- What the interpreter supplies for the texts of errors. -/
structure Interp where
  repr : Value → Str
  typeName : Value → Str

/-! ## Scalars -/

def isHexDigit (c : Nat) : Bool := (48 ≤ c && c ≤ 57) || (97 ≤ c && c ≤ 102)

/-- `_NAME_CHARS`. -/
def isNameChar (c : Nat) : Bool :=
  (97 ≤ c && c ≤ 122) || (65 ≤ c && c ≤ 90) || (48 ≤ c && c ≤ 57) || c == 46 || c == 95 ||
    c == 45 || c == 43

/-- `_is_hash`, and `_is_revision` at its length. -/
def isHexText (n : Nat) (v : Value) : Bool :=
  v.asStr?.any fun s => s.length == n && s.all isHexDigit

/-- The decimal text of a number. -/
def number (n : Nat) : Str := str (toString n)

section

variable (interp : Interp)

/-- `_check_index`. -/
def checkIndex (v : Value) (what : Str) : Except Str Nat := do
  let n ← orRaise v.asInt? (what ++ str " must be an integer (no bools)")
  reject (n < 0) (what ++ str " must be non-negative")
  return n.toNat

/-- `_check_hash`. -/
def checkHash (v : Value) (what : Str) : Except Str Str := do
  reject (!isHexText 64 v) (what ++ str " must be lower 64-hex sha256")
  return v.asStr?.getD []

/-- `_check_name`. -/
def checkName (v : Value) (what : Str) : Except Str Str := do
  let name ← orRaise v.asStr? (what ++ str " must be a string")
  reject (name = [] || nameMax < name.length || 47 ∈ name || name ∈ [str ".", str ".."])
    (str "unsafe " ++ what ++ str " name: " ++ interp.repr v)
  reject (!name.all isNameChar)
    (str "unsafe characters in " ++ what ++ str " name: " ++ interp.repr v)
  return name

/-- The text of a sorted list of names. -/
def namesText (names : List Str) : Str :=
  interp.repr (.list ((names.mergeSort fun a b => a ≤ b).map .str))

/-- `_require_keys`: the fields of an object with exactly these keys. -/
def requireKeys (v : Value) (keys : List String) (what : Str) :
    Except Str (List (Str × Value)) := do
  let complaint (got : Str) : Str :=
    what ++ str " keys must be exactly " ++ namesText interp (keys.map str) ++ str ", got " ++ got
  let fs ← orRaise v.asDict? (complaint (interp.typeName v))
  reject (!(fs.all (·.1 ∈ keys.map str) && (keys.map str).all (· ∈ fs.map (·.1))))
    (complaint (namesText interp (fs.map (·.1))))
  return fs

/-! ## The plan -/

structure Source where
  name : Str
  size : Nat
  sha256 : Str
  headerSha256 : Str
  dataStart : Nat

structure Table where
  name : Str
  rows : Nat
  width : Nat
  size : Nat
  sha256 : Str

/-- A byte range of the source, under the name of its tensor. -/
structure Segment where
  name : Str
  offset : Nat
  size : Nat
  sha256 : Str

structure Shard extends Segment where
  id : Nat

structure Plan where
  revision : Str
  source : Source
  tensorPrefix : Str
  shardCount : Nat
  rowsPerShard : Nat
  rowWidth : Nat
  table : Table
  scale : Segment
  shards : List Shard

/-- `_table_filename`. -/
def tableFilename (totalRows rowWidth size : Nat) : Str :=
  str "ple_table_" ++ number totalRows ++ str "x" ++ number rowWidth ++ str "_float8_e4m3fn_" ++
    number size ++ str "B_rows0-" ++ number totalRows ++ str ".bin"

/-- `_shard_tensor_name`. -/
def shardTensorName (tensorPrefix : Str) (i : Nat) : Str :=
  tensorPrefix ++ str ".shard_" ++ number i ++ str ".weight"

/-! ## The validator -/

open Py.Value (field)

/-- The checks of `plan.source`. -/
def validateSource (v : Value) : Except Str Source := do
  let src ← requireKeys interp v ["name", "size", "sha256", "header_sha256", "data_start"]
    (str "plan.source")
  let name ← checkName interp (field src "name") (str "plan.source.name")
  let size ← checkIndex (field src "size") (str "plan.source.size")
  let sha256 ← checkHash (field src "sha256") (str "plan.source.sha256")
  let headerSha256 ← checkHash (field src "header_sha256") (str "plan.source.header_sha256")
  let dataStart ← checkIndex (field src "data_start") (str "plan.source.data_start")
  reject (dataStart < 8 || 8 + maxHeaderBytes < dataStart ||
      !(dataStart < size && size ≤ maxTableBytes))
    (str "plan.source.data_start/size incoherent")
  return ⟨name, size, sha256, headerSha256, dataStart⟩

/-- The checks of `plan.tensor_prefix`. -/
def validatePrefix (v : Value) : Except Str Str := do
  let tensorPrefix ← orRaise (v.asStr?.filter (· ≠ []))
    (str "plan.tensor_prefix must be a non-empty string")
  (tensorPrefix.splitOn 46).forM fun part => do
    let _ ← checkName interp (.str part) (str "plan.tensor_prefix component")
  return tensorPrefix

/-- The checks of `plan.table`. -/
def validateTable (totalRows rowWidth : Nat) (v : Value) : Except Str Table := do
  let tbl ← requireKeys interp v ["name", "shape", "size", "sha256"] (str "plan.table")
  let size := totalRows * rowWidth
  reject (field tbl "size" ≠ .int size)
    (str "plan.table.size must equal total_rows * row_width")
  reject (field tbl "name" ≠ .str (tableFilename totalRows rowWidth size))
    (str "plan.table.name must be the geometry-derived filename")
  reject (field tbl "shape" ≠ .list [.int totalRows, .int rowWidth])
    (str "plan.table.shape must be [total_rows, row_width]")
  let sha256 ← checkHash (field tbl "sha256") (str "plan.table.sha256")
  return ⟨tableFilename totalRows rowWidth size, totalRows, rowWidth, size, sha256⟩

/-- The checks of `plan.scale`. -/
def validateScale (source : Source) (tensorPrefix : Str) (v : Value) : Except Str Segment := do
  let scale ← requireKeys interp v ["name", "offset", "size", "sha256"] (str "plan.scale")
  let name := tensorPrefix ++ str ".weight_scale"
  reject (field scale "name" ≠ .str name) (str "plan.scale.name mismatch")
  reject (field scale "size" ≠ .int 2) (str "plan.scale.size must be 2 (BF16 [1])")
  let offset ← checkIndex (field scale "offset") (str "plan.scale.offset")
  let sha256 ← checkHash (field scale "sha256") (str "plan.scale.sha256")
  reject (offset < source.dataStart || source.size < offset + 2)
    (str "plan.scale range outside source file")
  return ⟨name, offset, 2, sha256⟩

/-- `plan.shards[i]`. -/
def shardPath (i : Nat) : Str := str "plan.shards[" ++ number i ++ str "]"

/-- The checks of one shard. -/
def validateShard (source : Source) (tensorPrefix : Str) (shardBytes : Nat) (entry : Value × Nat) :
    Except Str Shard := do
  let i := entry.2
  let sh ← requireKeys interp entry.1 ["id", "name", "offset", "size", "sha256"] (shardPath i)
  reject (field sh "id" ≠ .int i)
    (str "plan.shards must be numeric-id ordered; shards[" ++ number i ++ str "].id=" ++
      interp.repr (field sh "id"))
  reject (field sh "name" ≠ .str (shardTensorName tensorPrefix i))
    (shardPath i ++ str ".name is aliased or not canonical")
  reject (field sh "size" ≠ .int shardBytes)
    (shardPath i ++ str ".size must equal rows_per_shard*row_width")
  let offset ← checkIndex (field sh "offset") (shardPath i ++ str ".offset")
  reject (offset < source.dataStart || source.size < offset + shardBytes)
    (shardPath i ++ str " range outside source file")
  let sha256 ← checkHash (field sh "sha256") (shardPath i ++ str ".sha256")
  return ⟨⟨shardTensorName tensorPrefix i, offset, shardBytes, sha256⟩, i⟩

/-- The spans in order, as `spans.sort()` leaves them. -/
def sortedSpans (segments : List Segment) : List (Nat × Nat) :=
  (segments.map fun s => (s.offset, s.offset + s.size)).mergeSort fun a b =>
    a.1 < b.1 || (a.1 == b.1 && a.2 ≤ b.2)

/-- No span ends behind the start of the next. -/
def spansApart : List (Nat × Nat) → Bool
  | a :: b :: spans => a.2 ≤ b.1 && spansApart (b :: spans)
  | _ => true

/-- `validate_plan`. -/
def validatePlan (plan : Value) : Except Str Plan := do
  let _ ← orRaise plan.asDict? (str "plan must be a JSON object")
  let fs ← requireKeys interp plan ["schema", "model", "source", "tensor_prefix", "dtype",
    "shard_count", "rows_per_shard", "row_width", "table", "scale", "shards"] (str "plan")
  reject (field fs "schema" ≠ .str planSchema)
    (str "plan schema must be " ++ interp.repr (.str planSchema))
  let model ← requireKeys interp (field fs "model") ["id", "revision"] (str "plan.model")
  reject (field model "id" ≠ .str modelId) (str "plan.model.id mismatch")
  reject (!isHexText revisionLen (field model "revision"))
    (str "plan.model.revision must be 40 lowercase hex chars")
  let source ← validateSource interp (field fs "source")
  let tensorPrefix ← validatePrefix interp (field fs "tensor_prefix")
  reject (field fs "dtype" ≠ .str tableDtype)
    (str "plan.dtype must be " ++ interp.repr (.str tableDtype))
  let sc ← checkIndex (field fs "shard_count") (str "plan.shard_count")
  let rps ← checkIndex (field fs "rows_per_shard") (str "plan.rows_per_shard")
  let rw ← checkIndex (field fs "row_width") (str "plan.row_width")
  reject (!(1 ≤ sc && sc ≤ maxShards)) (str "plan.shard_count out of range")
  reject (!(1 ≤ rps && rps ≤ maxRowsPerShard)) (str "plan.rows_per_shard out of range")
  reject (!(1 ≤ rw && rw ≤ maxWidth)) (str "plan.row_width out of range")
  let totalRows := sc * rps
  reject (maxTableBytes / rw < totalRows) (str "plan table geometry overflow")
  let shardBytes := rps * rw
  let table ← validateTable interp totalRows rw (field fs "table")
  let scale ← validateScale interp source tensorPrefix (field fs "scale")
  let shards ← orRaise ((field fs "shards").asList?.filter fun xs => xs.length = sc)
    (str "plan.shards must be a list of exactly shard_count entries")
  let shards ← shards.zipIdx.mapM (validateShard interp source tensorPrefix shardBytes)
  reject (!spansApart (sortedSpans (shards.map (·.toSegment) ++ [scale])))
    (str "plan.shards ranges overlap")
  return ⟨((field model "revision").asStr?).getD [], source, tensorPrefix, sc, rps, rw, table,
    scale, shards⟩

end

/-! ## What is known of a plan -/

/-- The geometry of a validated plan. -/
structure Plan.Valid (plan : Plan) : Prop where
  dataStart_lt : plan.source.dataStart < plan.source.size
  shardCount_pos : 1 ≤ plan.shardCount
  rowsPerShard_pos : 1 ≤ plan.rowsPerShard
  rowWidth_pos : 1 ≤ plan.rowWidth
  table_size : plan.table.size = plan.shardCount * (plan.rowsPerShard * plan.rowWidth)
  length_shards : plan.shards.length = plan.shardCount
  shard_id : ∀ i (h : i < plan.shards.length), (plan.shards[i]).id = i
  shard_size : ∀ shard ∈ plan.shards, shard.size = plan.rowsPerShard * plan.rowWidth
  shard_start : ∀ shard ∈ plan.shards, plan.source.dataStart ≤ shard.offset
  shard_end : ∀ shard ∈ plan.shards, shard.offset + shard.size ≤ plan.source.size

section

variable {interp : Interp}

theorem validateSource_ok {v : Value} {source : Source}
    (h : validateSource interp v = .ok source) : source.dataStart < source.size := by
  simp only [validateSource, bind_ok, reject_ok, pure_ok] at h
  obtain ⟨src, -, name, -, size, -, sha256, -, headerSha256, -, dataStart, -, _, hrange, rfl⟩ := h
  simp only [Bool.or_eq_false_iff, Bool.not_eq_false', Bool.and_eq_true,
    decide_eq_true_eq] at hrange
  exact hrange.2.1

theorem validateTable_ok {totalRows rowWidth : Nat} {v : Value} {table : Table}
    (h : validateTable interp totalRows rowWidth v = .ok table) :
    table.size = totalRows * rowWidth := by
  simp only [validateTable, bind_ok, reject_ok, pure_ok] at h
  obtain ⟨tbl, -, _, -, _, -, _, -, sha256, -, rfl⟩ := h
  rfl

/-- What is known of the shard at a place of the list. -/
structure Shard.Fits (source : Source) (shardBytes i : Nat) (shard : Shard) : Prop where
  id : shard.id = i
  size : shard.size = shardBytes
  start : source.dataStart ≤ shard.offset
  stop : shard.offset + shard.size ≤ source.size

theorem validateShard_ok {source : Source} {tensorPrefix : Str} {shardBytes : Nat}
    {entry : Value × Nat} {shard : Shard}
    (h : validateShard interp source tensorPrefix shardBytes entry = .ok shard) :
    shard.Fits source shardBytes entry.2 := by
  simp only [validateShard, bind_ok, reject_ok, pure_ok] at h
  obtain ⟨sh, -, _, -, _, -, _, -, offset, -, _, hrange, sha256, -, rfl⟩ := h
  simp only [Bool.or_eq_false_iff, decide_eq_false_iff_not, Nat.not_lt] at hrange
  exact ⟨rfl, rfl, hrange.1, hrange.2⟩

theorem validateShards_ok {source : Source} {tensorPrefix : Str} {shardBytes : Nat}
    {entries : List Value} {shards : List Shard}
    (h : entries.zipIdx.mapM (validateShard interp source tensorPrefix shardBytes) = .ok shards) :
    shards.length = entries.length ∧
      ∀ i (hi : i < shards.length), (shards[i]).Fits source shardBytes i := by
  obtain ⟨hlength, hget⟩ := List.forall₂_iff_get.mp (mapM_ok.mp h)
  rw [List.length_zipIdx] at hlength
  refine ⟨hlength.symm, fun i hi => ?_⟩
  have hentry := validateShard_ok (hget i (by rw [List.length_zipIdx]; omega) hi)
  rw [List.get_eq_getElem, List.getElem_zipIdx, Nat.zero_add] at hentry
  exact hentry

/-- What the validator lets through has the geometry of a table. -/
theorem validatePlan_ok {v : Value} {plan : Plan} (h : validatePlan interp v = .ok plan) :
    plan.Valid := by
  simp only [validatePlan, bind_ok, reject_ok, orRaise_ok, pure_ok] at h
  obtain ⟨_, -, fs, -, _, -, model, -, _, -, _, -, source, hsource, tensorPrefix, -, _, -, sc, -,
    rps, -, rw, -, _, hsc, _, hrps, _, hrw, _, -, table, htable, scale, -, entries, hentries,
    shards, hshards, _, -, rfl⟩ := h
  simp only [Bool.not_eq_false', Bool.and_eq_true, decide_eq_true_eq] at hsc hrps hrw
  rw [Option.filter_eq_some_iff, decide_eq_true_eq] at hentries
  obtain ⟨hlength, hfits⟩ := validateShards_ok hshards
  have hmem : ∀ shard ∈ shards, ∃ i, shard.Fits source (rps * rw) i := by
    intro shard hshard
    obtain ⟨i, hi, rfl⟩ := List.mem_iff_getElem.mp hshard
    exact ⟨i, hfits i hi⟩
  have htotal : table.size = sc * (rps * rw) := by
    rw [validateTable_ok htable, Nat.mul_assoc]
  exact {
    dataStart_lt := validateSource_ok hsource
    shardCount_pos := hsc.1
    rowsPerShard_pos := hrps.1
    rowWidth_pos := hrw.1
    table_size := htotal
    length_shards := hlength.trans hentries.2
    shard_id := fun i hi => (hfits i hi).id
    shard_size := fun shard hshard => (hmem shard hshard).elim fun _ hi => hi.size
    shard_start := fun shard hshard => (hmem shard hshard).elim fun _ hi => hi.start
    shard_end := fun shard hshard => (hmem shard hshard).elim fun _ hi => hi.stop }

end

end Ple
end FlashNext
