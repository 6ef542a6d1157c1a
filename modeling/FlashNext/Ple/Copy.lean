import FlashNext.Ple.Calls

/-!
# Building the table

Bounded reads and writes, the copy of one range, and `_materialize`, which copies the shards in
the order of the source, verifies the staged file and publishes it.
-/

namespace FlashNext
namespace Ple

open Effect
open Py (Str str)
open Text (Bytes)

/-! ## Bytes -/

/-- `_fadvise_dontneed`. -/
def fadviseDontneed (fd : Fd) (offset count : Nat) : CacheM Unit :=
  suppress (ask (.fadvise fd offset count))

/-- `_read_exact` where these bytes are read already. -/
def readRest (fd : Fd) (size offset : Nat) (what : Str) (out : Bytes) : CacheM Bytes :=
  if out.length < size then do
    let chunk ← orOs (ask (.pread fd (min ioBufferBytes (size - out.length))
      (offset + out.length)))
    if chunk = [] then
      .throw (.cache (what ++ str ": short read at " ++ number out.length ++ str "/" ++
        number size ++ str " (eof)"))
    else
      readRest fd size offset what (out ++ chunk)
  else
    return out
termination_by size - out.length
decreasing_by
  have := List.length_pos_iff.mpr ‹¬chunk = []›
  rw [List.length_append]
  omega

def readExact (fd : Fd) (size offset : Nat) (what : Str) : CacheM Bytes :=
  readRest fd size offset what []

/-- `_pwrite_all`. -/
def pwriteAll (fd : Fd) (what : Str) (data : Bytes) (offset : Nat) : CacheM Unit :=
  if data = [] then
    return ()
  else do
    let n ← orCache (what ++ str ": write failed: ") (ask (.pwrite fd data offset))
    if n = 0 then
      .throw (.cache (what ++ str ": short write at offset " ++ number offset))
    else
      pwriteAll fd what (data.drop n) (offset + n)
termination_by data.length
decreasing_by
  have := List.length_pos_iff.mpr ‹¬data = []›
  rw [List.length_drop]
  omega

/-- The loop of `_hash_fd_range`, where the digest was fed these bytes. -/
def hashRest (fd : Fd) (size offset : Nat) (what : Str) (fed : Bytes) (advised : Nat) :
    CacheM Bytes :=
  if fed.length < size then do
    let chunk ← orCache (what ++ str ": hash read failed: ")
      (ask (.pread fd (min ioBufferBytes (size - fed.length)) (offset + fed.length)))
    if chunk = [] then
      .throw (.cache (what ++ str ": short read while hashing at " ++ number fed.length ++
        str "/" ++ number size))
    else
      let got := fed.length + chunk.length
      if fadviseIntervalBytes ≤ got - advised then do
        fadviseDontneed fd (offset + advised) (got - advised)
        hashRest fd size offset what (fed ++ chunk) got
      else
        hashRest fd size offset what (fed ++ chunk) advised
  else do
    if advised < fed.length then
      fadviseDontneed fd (offset + advised) (fed.length - advised)
    return fed
termination_by size - fed.length
decreasing_by
  all_goals
    have := List.length_pos_iff.mpr ‹¬chunk = []›
    rw [List.length_append]
    omega

/-- `_hash_fd_range`, as the bytes that its digest, and `logical`, are fed. -/
def hashFdRange (fd : Fd) (size offset : Nat) (what : Str) : CacheM Bytes :=
  hashRest fd size offset what [] 0

/-- The loop of `_copy_range`. -/
def copyRest (src dst : Fd) (srcOffset dstOffset size : Nat) (what : Str)
    (remaining sinceSync : Nat) : CacheM Unit :=
  if 0 < remaining then do
    let want := min ioBufferBytes remaining
    let doneSoFar := size - remaining
    let chunk ← orOs (ask (.pread src want (srcOffset + doneSoFar)))
    if chunk = [] then
      .throw (.cache (what ++ str ": short read from source at " ++ number doneSoFar ++ str "/" ++
        number size))
    else do
      pwriteAll dst what chunk (dstOffset + doneSoFar)
      let sinceSync := sinceSync + chunk.length
      if fadviseIntervalBytes ≤ sinceSync then do
        orOs (ask (.fdatasync dst))
        let consumed := size - (remaining - chunk.length)
        fadviseDontneed src srcOffset consumed
        fadviseDontneed dst dstOffset consumed
        copyRest src dst srcOffset dstOffset size what (remaining - chunk.length) 0
      else
        copyRest src dst srcOffset dstOffset size what (remaining - chunk.length) sinceSync
  else
    return ()
termination_by remaining
decreasing_by
  all_goals
    have := List.length_pos_iff.mpr ‹¬chunk = []›
    omega

/-- `_copy_range`. -/
def copyRange (src dst : Fd) (srcOffset dstOffset size : Nat) (what : Str) : CacheM Unit := do
  copyRest src dst srcOffset dstOffset size what size 0
  orOs (ask (.fdatasync dst))
  fadviseDontneed src srcOffset size
  fadviseDontneed dst dstOffset size

/-! ## The table -/

/-- `sorted(plan["shards"], key=lambda s: s["offset"])`. -/
def physicalOrder (shards : List Shard) : List Shard :=
  shards.mergeSort fun a b => a.offset ≤ b.offset

/-- The copies of these shards, one after the other. -/
def copyEach (src tmp : Fd) (shards : List Shard) : CacheM Unit :=
  shards.forM fun shard =>
    copyRange src tmp shard.offset (shard.id * shard.size) shard.size
      (str "shard " ++ number shard.id)

/-- The copy loop of `_materialize`, and the `ftruncate` before it. -/
def copyShards (src tmp : Fd) (plan : Plan) : CacheM Unit := do
  orOs (ask (.ftruncate tmp plan.table.size))
  copyEach src tmp (physicalOrder plan.shards)

/-- `_stat_snapshot`. -/
structure Snapshot where
  dev : Nat
  ino : Nat
  size : Nat
  mtimeNs : Nat
  ctimeNs : Nat
  deriving DecidableEq

def Stat.snapshot (st : Stat) : Snapshot := ⟨st.dev, st.ino, st.size, st.mtimeNs, st.ctimeNs⟩

/-- `_preflight_space`. -/
def preflightSpace (cacheFd : Fd) (tableSize : Nat) : CacheM Unit := do
  let available ← orOs (ask (.statvfs cacheFd))
  Prog.require (tableSize + spaceReserveBytes ≤ available)
    (.cache (str "insufficient cache space: need " ++ number (tableSize + spaceReserveBytes) ++
      str ", have " ++ number available))

section

variable (sha256 : Bytes → Str)

/-- What `_materialize` does to the staged file before it closes it. -/
def stageTable (srcFd tmpFd : Fd) (plan : Plan) (srcBaseline : Snapshot) : CacheM Unit := do
  copyShards srcFd tmpFd plan
  orOs (ask (.fdatasync tmpFd))
  fadviseDontneed tmpFd 0 plan.table.size
  -- in the order of the file, which is the order of the rows
  let staged ← hashFdRange tmpFd plan.table.size 0 (str "staged table")
  Prog.require (sha256 staged = plan.table.sha256)
    (.cache (str "staged table sha256 mismatch after copy"))
  let st ← orOs (ask (.fstat srcFd))
  Prog.require (st.snapshot = srcBaseline) (.cache (str "source changed during copy"))
  orOs (ask (.fsync tmpFd))

/-- `finally` of a block that is skipped when the block has done its work. -/
def onRaise {α : Type} (x : CacheM α) (fin : CacheM Unit) : CacheM α :=
  x.handle fun e => do
    fin
    .throw e

/-- `_materialize`. -/
def materialize (cacheFd srcFd : Fd) (plan : Plan) (srcBaseline : Snapshot) : CacheM Nat := do
  preflightSpace cacheFd plan.table.size
  let suffix ← ask .tempSuffix
  let tmpName := str "." ++ plan.table.name ++ str ".tmp-" ++ suffix
  let tmpFd ← orOs (ask (.openTemp cacheFd tmpName))
  let unlinkTemp := suppress (ask (.unlink cacheFd tmpName))
  catchOs (str "materialization failed: ") do
    -- `tmp_open` and not `published`
    onRaise
      (do
        stageTable sha256 srcFd tmpFd plan srcBaseline
        orOs (ask (.close tmpFd)))
      (do
        suppress (ask (.close tmpFd))
        unlinkTemp)
    -- neither
    onRaise (orOs (ask (.replace cacheFd tmpName plan.table.name))) unlinkTemp
    -- `published`: the new table stays whatever happens to the directory
    orOs (ask (.fsync cacheFd))
    return plan.table.size

end

end Ple
end FlashNext
