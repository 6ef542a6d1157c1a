import FlashNext.Ple.Copy
import FlashNext.Ple.Header

/-!
# Building and verifying a plan

`buildPlan` derives a plan from a source file that it opens, and `verifySource` checks an open
file against a plan.  Both read the header themselves; what they take from its entries is
`sourceLayout` on the one side and `verifyLayout` on the other.
-/

namespace FlashNext
namespace Ple

open Effect
open Py (Str Value str)
open Text (Bytes)

/-! ## Opening -/

/-- `_path_components`. -/
def pathComponents (path what : Str) : Except Str (List Str) := do
  reject (path.head? != some 47 || path.contains 0)
    (what ++ str " must be an absolute path without NUL")
  let parts := if path = [47] then [] else (path.splitOn 47).tail
  reject (parts.any fun part => part = [] || part = str "." || part = str "..")
    (what ++ str " contains traversal or an empty component")
  return parts

/-- `os.path.basename`. -/
def basename (path : Str) : Str := (path.reverse.takeWhile (· != 47)).reverse

/-- `os.path.dirname`. -/
def dirname (path : Str) : Str :=
  let head := (path.reverse.dropWhile (· != 47)).reverse
  if head.all (· == 47) then head else (head.reverse.dropWhile (· == 47)).reverse

/-- A pure check of the code. -/
def orFail {α : Type} (x : Except Str α) : CacheM α := Prog.ofExcept (x.mapError .cache)

/-- The directory that a component of the walk names, made where it is missing. -/
def openChild (create : Bool) (current : Fd) (part : Str) : CacheM Fd := do
  match ← ask (.openDir current part) with
  | .ok child => return child
  | .error e =>
    if e.errno = .enoent ∧ create = true then do
      (do
        orOs (ask (.mkdir current part))
        orOs (ask (.fsync current))).handle fun
        | .os error => if error.errno = Errno.eexist then return () else .throw (.os error)
        | e => .throw e
      orOs (ask (.openDir current part))
    else .throw (.os e)

/-- The loop of `_open_dir`; the directory it has reached is closed when something is raised. -/
def walkDirs (what : Str) (create : Bool) (current : Fd) : List Str → CacheM Fd
  | [] => return current
  | part :: parts => do
    let child ← onRaise
      (catchOs (str "cannot open directory " ++ what ++ str ": ") do
        let child ← openChild create current part
        orOs (ask (.close current))
        return child)
      (orOs (ask (.close current)))
    walkDirs what create child parts

/-- `_open_dir`. -/
def openDir (path what : Str) (create : Bool) : CacheM Fd := do
  let parts ← orFail (pathComponents path what)
  let current ← orOs (ask .openRoot)
  walkDirs what create current parts

/-- `_resolve_anchored`. -/
def resolveAnchored (path what : Str) : CacheM Str := do
  let parts ← orFail (pathComponents path what)
  match parts.getLast? with
  | none => return path
  | some last => do
    let parent ← openDir (dirname path) (what ++ str " parent") false
    (do
      let value ← orCache (str "cannot resolve " ++ what ++ str ": ") (ask (.lstat parent last))
      orFail (reject (value.kind = FileKind.symlink) (what ++ str " is a symlink"))).finally_
      (orOs (ask (.close parent)))
    return path

/-- `_require_regular_single_link`. -/
def requireRegularSingleLink (st : Stat) (what : Str) : Except Str Unit := do
  reject (st.kind = .symlink) (what ++ str " is a symlink")
  reject (st.kind ≠ .regular) (what ++ str " is not a regular file")
  reject (st.nlink ≠ 1)
    (what ++ str " must have exactly one hard link (got " ++ number st.nlink ++ str ")")

/-! ## The header of an open file -/

/-- `int.from_bytes(data, "little")`. -/
def fromLittle : Bytes → Nat
  | [] => 0
  | b :: bs => b.toNat + 256 * fromLittle bs

/-- What is read of the front of a file. -/
structure Front where
  header : Fields
  headerBytes : Bytes
  dataStart : Nat
  deriving DecidableEq

/-- The length of the header is in bounds. -/
def checkHeaderLength (hlen fileSize : Nat) (what : Str) : Except Str Unit := do
  reject (hlen = 0 || maxHeaderBytes < hlen)
    (what ++ str ": header length out of bounds: " ++ number hlen)
  reject (fileSize < 8 + hlen) (what ++ str ": header extends past end of file")

/-- The document of the header. -/
def parseHeader (reader : Reader) (headerBytes : Bytes) (what : Str) : Except Str Fields := do
  let header ← loadStrictJson reader (what ++ str " header JSON") headerBytes
  orRaise header.asDict? (what ++ str ": header must be a JSON object")

/-- `_read_safetensors_header`. -/
def readSafetensorsHeader (reader : Reader) (fd : Fd) (fileSize : Nat) (what : Str) :
    CacheM Front := do
  orFail (reject (fileSize < 8) (what ++ str ": too small for safetensors"))
  let prelude ← readExact fd 8 0 (what ++ str " header length")
  let hlen := fromLittle prelude
  orFail (checkHeaderLength hlen fileSize what)
  let headerBytes ← readExact fd hlen 8 (what ++ str " header")
  let header ← orFail (parseHeader reader headerBytes what)
  return ⟨header, headerBytes, 8 + hlen⟩

/-! ## What a plan takes from the entries -/

/-- What `build_plan` is asked for. -/
structure BuildArgs where
  modelId : Value
  modelRevision : Value
  tensorPrefix : Value
  shardCount : Value
  rowsPerShard : Value
  rowWidth : Value
  sourceSha256 : Value

/-- What it is asked for, once it is checked. -/
structure Geometry where
  revision : Str
  tensorPrefix : Str
  shardCount : Nat
  rowsPerShard : Nat
  rowWidth : Nat
  sourceSha256 : Str

def Geometry.shardBytes (g : Geometry) : Nat := g.rowsPerShard * g.rowWidth
def Geometry.tableRows (g : Geometry) : Nat := g.shardCount * g.rowsPerShard
def Geometry.scaleName (g : Geometry) : Str := g.tensorPrefix ++ str ".weight_scale"

/-- The names under `{tensor_prefix}.shard_`. -/
def shardNames (header : Fields) (tensorPrefix : Str) : List Str :=
  (header.map (·.1)).filter fun name => (tensorPrefix ++ str ".shard_").isPrefixOf name

/-- Two sets of names. -/
def sameNames (xs ys : List Str) : Bool := xs.all (· ∈ ys) && ys.all (· ∈ xs)

section

variable (interp : Interp)

/-- The checks of `build_plan` on what it is asked for. -/
def checkArgs (args : BuildArgs) : Except Str Geometry := do
  reject (args.modelId ≠ .str modelId) (str "model_id must be " ++ interp.repr (.str modelId))
  reject (!isHexText revisionLen args.modelRevision)
    (str "model_revision must be 40 lowercase hex chars")
  let tensorPrefix ← orRaise (args.tensorPrefix.asStr?.filter (· ≠ []))
    (str "tensor_prefix must be a non-empty string")
  (tensorPrefix.splitOn 46).forM fun part => do
    let _ ← checkName interp (.str part) (str "tensor_prefix component")
  let sourceSha256 ← checkHash args.sourceSha256 (str "source_sha256")
  let sc ← checkIndex args.shardCount (str "shard_count")
  let rps ← checkIndex args.rowsPerShard (str "rows_per_shard")
  let rw ← checkIndex args.rowWidth (str "row_width")
  reject (!(1 ≤ sc && sc ≤ maxShards)) (str "shard_count out of range: " ++ number sc)
  reject (!(1 ≤ rps && rps ≤ maxRowsPerShard)) (str "rows_per_shard out of range: " ++ number rps)
  reject (!(1 ≤ rw && rw ≤ maxWidth)) (str "row_width out of range: " ++ number rw)
  reject (maxTableBytes / rw < sc * rps) (str "table geometry overflows size bounds")
  return ⟨args.modelRevision.asStr?.getD [], tensorPrefix, sc, rps, rw, sourceSha256⟩

/-- The tensors of the plan: where the scale and the shards, by their ids, start in the file. -/
structure Layout where
  scaleOffset : Nat
  offsets : List Nat

/-- The text of `[rows_per_shard, row_width]`. -/
def shapeText (rows width : Nat) : Str :=
  str "[" ++ number rows ++ str ", " ++ number width ++ str "]"

/-- One round of the loop over the shards, with the offset of the segment. -/
def shardSegment (g : Geometry) (entries : List (Str × Entry)) (dataStart i : Nat) :
    Except Str Nat := do
  let name := shardTensorName g.tensorPrefix i
  let shown := interp.repr (.str name)
  let spec ← orRaise (entryOf entries name)
    (str "missing shard tensor " ++ shown ++ str " in source header")
  reject (spec.dtype ≠ tableDtype)
    (str "shard tensor " ++ shown ++ str " dtype must be " ++ tableDtype)
  reject (spec.shape ≠ [g.rowsPerShard, g.rowWidth])
    (str "shard tensor " ++ shown ++ str " shape must be " ++ shapeText g.rowsPerShard g.rowWidth)
  reject (dataStart + spec.stop - (dataStart + spec.start) ≠ g.shardBytes)
    (str "shard tensor " ++ shown ++ str " byte length mismatch")
  return dataStart + spec.start

/-- `_build_plan_from_fd`, from the header to the segments. -/
def sourceLayout (g : Geometry) (front : Front) (fileSize : Nat) : Except Str Layout := do
  let entries ← checkHeaderGlobal interp front.header front.dataStart fileSize
  let scale ← orRaise (entryOf entries g.scaleName)
    (str "missing scale tensor " ++ interp.repr (.str g.scaleName) ++ str " in source header")
  reject (scale.dtype ≠ scaleDtype || scale.shape ≠ [1])
    (str "scale tensor must be BF16 with shape [1]")
  reject (scale.stop - scale.start ≠ 2) (str "scale tensor must be exactly 2 bytes")
  reject (!sameNames (shardNames front.header g.tensorPrefix)
      ((List.range g.shardCount).map (shardTensorName g.tensorPrefix)))
    (str "source PLE shard inventory is not the exact literal set")
  let offsets ← (List.range g.shardCount).mapM (shardSegment interp g entries front.dataStart)
  return ⟨front.dataStart + scale.start, offsets⟩

/-- The tensor of a segment is where the plan has it. -/
def checkSegment (entries : List (Str × Entry)) (dataStart : Nat) (dtype : Str)
    (shape : List Nat) (segment : Segment) : Except Str Unit :=
  reject (!(entryOf entries segment.name).any fun spec =>
      spec.dtype == dtype && spec.shape == shape && dataStart + spec.start == segment.offset &&
        spec.stop - spec.start == segment.size)
    (str "source tensor metadata disagrees with the plan")

/-- `_verify_source`, from the global check to the segments. -/
def verifyLayout (plan : Plan) (front : Front) (fileSize : Nat) : Except Str Unit := do
  let entries ← checkHeaderGlobal interp front.header front.dataStart fileSize
  reject (!sameNames (shardNames front.header plan.tensorPrefix) (plan.shards.map (·.name)))
    (str "source PLE names disagree with the plan")
  plan.shards.forM fun shard =>
    checkSegment entries front.dataStart tableDtype [plan.rowsPerShard, plan.rowWidth]
      shard.toSegment
  checkSegment entries front.dataStart scaleDtype [1] plan.scale

end

/-! ## The document of a plan -/

def Source.document (source : Source) : Value :=
  .dict [(str "name", .str source.name), (str "size", .int source.size),
    (str "sha256", .str source.sha256), (str "header_sha256", .str source.headerSha256),
    (str "data_start", .int source.dataStart)]

def Table.document (table : Table) : Value :=
  .dict [(str "name", .str table.name), (str "shape", .list [.int table.rows, .int table.width]),
    (str "size", .int table.size), (str "sha256", .str table.sha256)]

def Segment.document (segment : Segment) : Value :=
  .dict [(str "name", .str segment.name), (str "offset", .int segment.offset),
    (str "size", .int segment.size), (str "sha256", .str segment.sha256)]

def Shard.document (shard : Shard) : Value :=
  .dict [(str "id", .int shard.id), (str "name", .str shard.name),
    (str "offset", .int shard.offset), (str "size", .int shard.size),
    (str "sha256", .str shard.sha256)]

/-- The dictionary of a plan. -/
def Plan.document (plan : Plan) : Value :=
  .dict [
    (str "schema", .str planSchema),
    (str "model", .dict [(str "id", .str modelId), (str "revision", .str plan.revision)]),
    (str "source", plan.source.document),
    (str "tensor_prefix", .str plan.tensorPrefix),
    (str "dtype", .str tableDtype),
    (str "shard_count", .int plan.shardCount),
    (str "rows_per_shard", .int plan.rowsPerShard),
    (str "row_width", .int plan.rowWidth),
    (str "table", plan.table.document),
    (str "scale", plan.scale.document),
    (str "shards", .list (plan.shards.map Shard.document))]

/-! ## The builder -/

section

variable (reader : Reader) (sha256 : Bytes → Str)

/-- The shards of the plan: each offset with the bytes that were hashed there. -/
def shardsOf (g : Geometry) (offsets : List Nat) (hashed : List Bytes) : List Shard :=
  (offsets.zip hashed).zipIdx.map fun s =>
    ⟨⟨shardTensorName g.tensorPrefix s.2, s.1.1, g.shardBytes, sha256 s.1.2⟩, s.2⟩

/-- The plan, from what was read of the file. -/
def assemble (g : Geometry) (sourceName : Str) (fileSize : Nat) (whole : Bytes) (front : Front)
    (layout : Layout) (hashed : List Bytes) (scale : Bytes) : Plan where
  revision := g.revision
  source := ⟨sourceName, fileSize, sha256 whole, sha256 front.headerBytes, front.dataStart⟩
  tensorPrefix := g.tensorPrefix
  shardCount := g.shardCount
  rowsPerShard := g.rowsPerShard
  rowWidth := g.rowWidth
  table := ⟨tableFilename g.tableRows g.rowWidth (g.tableRows * g.rowWidth), g.tableRows,
    g.rowWidth, g.tableRows * g.rowWidth, sha256 hashed.flatten⟩
  scale := ⟨g.scaleName, layout.scaleOffset, 2, sha256 scale⟩
  shards := shardsOf sha256 g layout.offsets hashed

/-- `_build_plan_from_fd`. -/
def buildPlanFromFd (fd : Fd) (sourceName : Str) (g : Geometry) : CacheM Value := do
  let st ← orOs (ask (.fstat fd))
  orFail (requireRegularSingleLink st (str "source"))
  let whole ← hashFdRange fd st.size 0 (str "source")
  let stAfter ← orOs (ask (.fstat fd))
  orFail (reject (st.snapshot ≠ stAfter.snapshot) (str "source changed while hashing"))
  orFail (reject (sha256 whole ≠ g.sourceSha256)
    (str "source sha256 mismatch: pinned hash does not match file content"))
  let front ← readSafetensorsHeader reader fd st.size (str "source")
  let layout ← orFail (sourceLayout reader.toInterp g front st.size)
  let hashed ← layout.offsets.zipIdx.mapM fun s =>
    hashFdRange fd g.shardBytes s.1 (str "shard " ++ number s.2)
  let scale ← hashFdRange fd 2 layout.scaleOffset (str "scale")
  let stFinal ← orOs (ask (.fstat fd))
  orFail (reject (st.snapshot ≠ stFinal.snapshot) (str "source changed while planning"))
  let name ← orFail (checkName reader.toInterp (.str sourceName) (str "source name"))
  return (assemble sha256 g name st.size whole front layout hashed scale).document

/-- `build_plan`. -/
def buildPlan (sourcePath : Str) (args : BuildArgs) : CacheM Value := do
  let g ← orFail (checkArgs reader.toInterp args)
  let sourcePath ← resolveAnchored sourcePath (str "source")
  let parent := dirname sourcePath
  let dirFd ← openDir (if parent = [] then [47] else parent) (str "source directory") false
  let plan ← (do
    let fd ← orCache (str "cannot open source: ")
      (ask (.openLeaf dirFd (basename sourcePath) false))
    (buildPlanFromFd reader sha256 fd (basename sourcePath) g).finally_
      (orOs (ask (.close fd)))).finally_ (orOs (ask (.close dirFd)))
  let _ ← orFail (validatePlan reader.toInterp plan)
  return plan

/-- `_verify_source`. -/
def verifySource (srcFd : Fd) (plan : Plan) : CacheM Snapshot := do
  let st ← orOs (ask (.fstat srcFd))
  orFail (requireRegularSingleLink st (str "source"))
  orFail (reject (st.size ≠ plan.source.size)
    (str "source size changed: plan " ++ number plan.source.size ++ str ", file " ++
      number st.size))
  let front ← readSafetensorsHeader reader srcFd st.size (str "source")
  orFail (reject (sha256 front.headerBytes ≠ plan.source.headerSha256)
    (str "source header sha256 mismatch"))
  orFail (reject (front.dataStart ≠ plan.source.dataStart) (str "source data_start mismatch"))
  orFail (verifyLayout reader.toInterp plan front st.size)
  let whole ← hashFdRange srcFd st.size 0 (str "source")
  let stAfter ← orOs (ask (.fstat srcFd))
  orFail (reject (st.snapshot ≠ stAfter.snapshot) (str "source changed while hashing"))
  orFail (reject (sha256 whole ≠ plan.source.sha256) (str "source sha256 mismatch"))
  return stAfter.snapshot

end

end Ple
end FlashNext
