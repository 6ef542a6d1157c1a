import FlashNext.Ple.Build
import FlashNext.Ple.Reread

/-!
# Preparing and opening the table

`prepareCache` materializes the table under an exclusive lock or verifies and reuses the one that
is there, and leaves a receipt; `openPreparedTable` opens the table that a receipt attests.
-/

namespace FlashNext
namespace Ple

open Effect
open Py (Str Value str)
open Text (Bytes)

/-! ## Leaves of the cache -/

/-- `oct`. -/
def octal (n : Nat) : Str := str "0o" ++ (Nat.toDigits 8 n).map Char.toNat

/-- Whether group or others may write. -/
def othersWrite (st : Stat) : Bool := st.mode &&& 0o022 != 0

/-- `_require_owned_mode`. -/
def requireOwnedMode (st : Stat) (what : Str) : CacheM Unit := do
  let euid ← ask .geteuid
  orFail (reject (st.uid ≠ euid)
    (what ++ str " is owned by uid " ++ number st.uid ++ str ", not current user"))
  orFail (reject (othersWrite st)
    (what ++ str " is group/other writable (mode " ++ octal (st.mode &&& 0o777) ++ str ")"))

/-- `_check_cache_root`. -/
def checkCacheRoot (cacheFd : Fd) (cacheDir : Str) : CacheM Unit := do
  let st ← orOs (ask (.fstat cacheFd))
  let euid ← ask .geteuid
  orFail (reject (st.uid ≠ euid)
    (str "cache_dir " ++ cacheDir ++ str " is owned by uid " ++ number st.uid))
  orFail (reject (othersWrite st)
    (str "cache_dir " ++ cacheDir ++ str " is group/other writable (mode " ++
      octal (st.mode &&& 0o777) ++ str ")"))

/-- `_open_leaf`. -/
def openLeaf (dirFd : Fd) (name what : Str) (create : Bool) : CacheM Fd :=
  orCache (str "cannot open " ++ what ++ str ": ") (ask (.openLeaf dirFd name create))

/-- `os.lstat`, where a file that is missing is no error. -/
def lstat? (dirFd : Fd) (name : Str) : CacheM (Option Stat) := do
  match ← ask (.lstat dirFd name) with
  | .ok st => return some st
  | .error e => if e.errno = .enoent then return none else .throw (.os e)

/-- `_file_exists`. -/
def fileExists (cacheFd : Fd) (name : Str) : CacheM Bool := do
  let st ← lstat? cacheFd name
  return st.isSome

/-- `_open_existing`. -/
def openExisting (cacheFd : Fd) (name what : Str) : CacheM (Option Fd) := do
  match ← lstat? cacheFd name with
  | none => return none
  | some st => do
    orFail (reject (st.kind = .symlink) (what ++ str " is a symlink: " ++ name))
    orFail (reject (st.kind ≠ .regular) (what ++ str " is not a regular file: " ++ name))
    let fd ← openLeaf cacheFd name what false
    return some fd

/-- `fstat` of a leaf, with `_require_regular_single_link` and `_require_owned_mode`. -/
def statLeaf (fd : Fd) (what : Str) : CacheM Stat := do
  let st ← orOs (ask (.fstat fd))
  orFail (requireRegularSingleLink st what)
  requireOwnedMode st what
  return st

/-- The stat of an open file is still this one. -/
def requireUnchanged (fd : Fd) (baseline : Snapshot) (text : Str) : CacheM Unit := do
  let st ← orOs (ask (.fstat fd))
  orFail (reject (st.snapshot ≠ baseline) text)

/-! ## The lock -/

def lockName (tableName : Str) : Str := str "." ++ tableName ++ str ".lock"

/-- The lock itself. -/
def takeLock (fd : Fd) : CacheM Unit := do
  match ← ask (.flock fd) with
  | .ok _ => return ()
  | .error e =>
    if e.errno = .eacces ∨ e.errno = .eagain then
      .throw (.busy (str "cache is locked by another process"))
    else .throw (.cache (str "cannot lock cache: " ++ e.text))

/-- `_acquire_lock`. -/
def acquireLock (cacheFd : Fd) (plan : Plan) : CacheM Fd := do
  let fd ← openLeaf cacheFd (lockName plan.table.name) (str "cache lock") true
  onRaise
    (do
      let _ ← statLeaf fd (str "cache lock")
      takeLock fd)
    (suppress (ask (.close fd)))
  return fd

/-! ## The result -/

inductive Mode where
  | materialized
  | reuse
  deriving DecidableEq

structure Result where
  receiptPath : Str
  receiptSha256 : Str
  mode : Mode
  copiedBytes : Nat
  elapsedSeconds : ℚ

/-- `_result`. -/
def result (receiptPath receiptSha256 : Str) (mode : Mode) (copiedBytes : Nat) (started : ℚ) :
    CacheM Result := do
  let now ← ask .monotonic
  return ⟨receiptPath, receiptSha256, mode, copiedBytes, now - started⟩

section

variable (reader : Reader) (sha256 : Bytes → Str)

/-! ## The receipt and the table -/

/-- The bytes of `prepared.json`, less those of one that is too large. -/
def readReceiptFile (fd : Fd) : CacheM (Option Bytes) := do
  let st ← statLeaf fd (str "receipt")
  if maxMetaBytes < st.size then return none
  else do
    let raw ← readExact fd st.size 0 (str "receipt")
    return some raw

/-- `_load_receipt`. -/
def loadReceipt (cacheFd : Fd) (plan : Value) (p : Plan) : CacheM (Bytes × Option Receipt) := do
  match ← openExisting cacheFd receiptName (str "receipt") with
  | none => return ([], none)
  | some fd => do
    match ← (readReceiptFile fd).finally_ (orOs (ask (.close fd))) with
    | none => return ([], none)
    | some raw => return (raw, receiptOfPlan? reader sha256 plan p raw)

/-- `_verify_table_content`. -/
def verifyTableContent (fd : Fd) (table : Table) : CacheM Bool := do
  let st ← orOs (ask (.fstat fd))
  if st.size ≠ table.size then return false
  else do
    let actual ← hashFdRange fd st.size 0 (str "cached table")
    requireUnchanged fd st.snapshot (str "cached table changed while hashing")
    return sha256 actual = table.sha256

/-- `_try_adopt_legacy`. -/
def tryAdoptLegacy (cacheFd : Fd) (p : Plan) : CacheM (Option Fd) := do
  match ← openExisting cacheFd p.table.name (str "legacy table") with
  | none => return none
  | some fd => do
    let valid ← onRaise
      (do
        let _ ← statLeaf fd (str "legacy table")
        verifyTableContent sha256 fd p.table)
      (suppress (ask (.close fd)))
    if valid then return some fd
    else do
      orOs (ask (.close fd))
      return none

/-- What `_finalize_receipt` writes. -/
def receiptToWrite (plan : Value) (p : Plan) (sourceStat tableStat : Snapshot) :
    Except Str Receipt := do
  let planHash ← planSha256 reader sha256 plan
  let r := receiptOf p planHash sourceStat tableStat
  let _ ← validateReceipt reader.toInterp r.document
  return r

/-- The bytes of a new file are written and it is closed. -/
def writeReceiptFile (tmpFd : Fd) (payload : Bytes) : CacheM Unit := do
  pwriteAll tmpFd (str "receipt") payload 0
  orOs (ask (.fsync tmpFd))
  orOs (ask (.close tmpFd))

/-- `_finalize_receipt`. -/
def finalizeReceipt (cacheFd : Fd) (plan : Value) (p : Plan) (sourceStat : Snapshot)
    (tableSt : Stat) : CacheM Bytes := do
  let r ← orFail (receiptToWrite reader sha256 plan p sourceStat tableSt.snapshot)
  let suffix ← ask .tempSuffix
  let tmpName := str "." ++ receiptName ++ str ".tmp-" ++ suffix
  let tmpFd ← orOs (ask (.openTemp cacheFd tmpName))
  (catchOs (str "receipt finalization failed: ") do
    onRaise (writeReceiptFile tmpFd r.payload) (suppress (ask (.close tmpFd)))
    orOs (ask (.replace cacheFd tmpName receiptName))
    orOs (ask (.fsync cacheFd))
    return r.payload).finally_
    -- gone already where the replace has succeeded
    (suppress (ask (.unlink cacheFd tmpName)))

/-! ## Under the lock -/

/-- What the steps under the lock are given. -/
structure Locked where
  cacheFd : Fd
  receiptPath : Str
  plan : Value
  p : Plan
  started : ℚ

/-- Whether the table that is there is the one that the receipt attests. -/
def receiptVouches (fd : Fd) (st : Stat) (srcBaseline : Snapshot) (r : Receipt) (table : Table) :
    CacheM Bool :=
  if st.dev = r.tableStat.dev ∧ st.ino = r.tableStat.ino ∧ st.size = r.tableStat.size ∧
      srcBaseline = r.sourceStat then
    verifyTableContent sha256 fd table
  else return false

/-- The receipt that stands behind a table that was verified. -/
def renewReceipt (l : Locked) (raw : Bytes) (r : Receipt) (st : Stat) (srcBaseline : Snapshot) :
    CacheM Bytes :=
  -- the stat may have moved without the bytes
  if st.snapshot ≠ r.tableStat then finalizeReceipt reader sha256 l.cacheFd l.plan l.p srcBaseline st
  else return raw

/-- The warm path over an open table: nothing where the receipt does not vouch for it. -/
def reuseTable (l : Locked) (srcFd fd : Fd) (srcBaseline : Snapshot) (raw : Bytes)
    (receipt : Option Receipt) : CacheM (Option Result) := do
  let st ← statLeaf fd (str "cached table")
  match receipt with
  | none => return none
  | some r => do
    if ← receiptVouches sha256 fd st srcBaseline r l.p.table then do
      requireUnchanged srcFd srcBaseline (str "source changed during warm verification")
      requireUnchanged fd st.snapshot (str "table changed during warm verification")
      let raw ← renewReceipt reader sha256 l raw r st srcBaseline
      let result ← result l.receiptPath (sha256 raw) .reuse 0 l.started
      return some result
    else return none

/-- A new receipt for an open table. -/
def attest (l : Locked) (fd : Fd) (srcBaseline : Snapshot) : CacheM Bytes := do
  let st ← orOs (ask (.fstat fd))
  finalizeReceipt reader sha256 l.cacheFd l.plan l.p srcBaseline st

/-- A table without a receipt is adopted. -/
def adoptTable (l : Locked) (srcFd fd : Fd) (srcBaseline : Snapshot) : CacheM Result := do
  let raw ← (do
    requireUnchanged srcFd srcBaseline (str "source changed during legacy verification")
    attest reader sha256 l fd srcBaseline).finally_ (orOs (ask (.close fd)))
  result l.receiptPath (sha256 raw) .reuse 0 l.started

/-- The cold path. -/
def buildTable (l : Locked) (srcFd : Fd) (srcBaseline : Snapshot) : CacheM Result := do
  let copied ← materialize sha256 l.cacheFd srcFd l.p srcBaseline
  let fd ← openLeaf l.cacheFd l.p.table.name (str "published table") false
  let raw ← (attest reader sha256 l fd srcBaseline).finally_ (orOs (ask (.close fd)))
  result l.receiptPath (sha256 raw) .materialized copied l.started

/-- The warm path, where a table is there. -/
def tryReuse (l : Locked) (srcFd : Fd) (srcBaseline : Snapshot) (raw : Bytes)
    (receipt : Option Receipt) : CacheM (Option Result) := do
  match ← openExisting l.cacheFd l.p.table.name (str "cached table") with
  | none => return none
  | some fd =>
    (reuseTable reader sha256 l srcFd fd srcBaseline raw receipt).finally_ (orOs (ask (.close fd)))

/-- `_prepare_locked`, over the open source. -/
def prepareFrom (l : Locked) (srcFd : Fd) : CacheM Result := do
  let srcBaseline ← verifySource reader sha256 srcFd l.p
  let receiptExists ← fileExists l.cacheFd receiptName
  let loaded ← loadReceipt reader sha256 l.cacheFd l.plan l.p
  match ← tryReuse reader sha256 l srcFd srcBaseline loaded.1 loaded.2 with
  | some result => return result
  | none => do
    let adopted ← if receiptExists then pure none else tryAdoptLegacy sha256 l.cacheFd l.p
    match adopted with
    | some fd => adoptTable reader sha256 l srcFd fd srcBaseline
    | none => buildTable reader sha256 l srcFd srcBaseline

/-- `os.path.dirname(path) or "/"`. -/
def dirnameOrRoot (path : Str) : Str := if dirname path = [] then [47] else dirname path

/-- `path.rstrip("/")`. -/
def rstripSlash (path : Str) : Str := (path.reverse.dropWhile (· == 47)).reverse

/-- `_prepare_locked`. -/
def prepareLocked (cacheFd : Fd) (cacheDir sourcePath : Str) (plan : Value) (p : Plan)
    (started : ℚ) : CacheM Result := do
  let l : Locked := ⟨cacheFd, rstripSlash cacheDir ++ str "/" ++ receiptName, plan, p, started⟩
  let srcDirFd ← openDir (dirnameOrRoot sourcePath) (str "source directory") false
  (do
    let srcFd ← openLeaf srcDirFd (basename sourcePath) (str "source") false
    (prepareFrom reader sha256 l srcFd).finally_ (orOs (ask (.close srcFd)))).finally_
    (orOs (ask (.close srcDirFd)))

/-! ## The cache -/

/-- The components that two paths start with. -/
def commonParts : List Str → List Str → List Str
  | a :: as, b :: bs => if a = b then a :: commonParts as bs else []
  | _, _ => []

/-- `os.path.commonpath` of two absolute paths. -/
def commonpath (as bs : List Str) : Str := 47 :: [47].intercalate (commonParts as bs)

/-- `_ensure_dir_anchored`. -/
def ensureDirAnchored (path what : Str) : CacheM Str := do
  let fd ← openDir path what true
  orOs (ask (.close fd))
  return path

/-- The two roots are apart. -/
def checkApart (modelRoot cacheDir : Str) : Except Str Unit := do
  let modelParts ← pathComponents modelRoot (str "model_root")
  let cacheParts ← pathComponents cacheDir (str "cache_dir")
  let common := commonpath modelParts cacheParts
  reject (common = modelRoot || common = cacheDir)
    (str "model_root and cache_dir must be disjoint")

/-- `prepare_cache`. -/
def prepareCache (modelRoot cacheDir : Str) (plan : Value) : CacheM Result := do
  let started ← ask .monotonic
  let p ← orFail (validatePlan reader.toInterp plan)
  orFail (checkApart modelRoot cacheDir)
  let modelRoot ← resolveAnchored modelRoot (str "model_root")
  let cacheDir ← ensureDirAnchored cacheDir (str "cache_dir")
  let sourcePath := rstripSlash modelRoot ++ str "/" ++ p.source.name
  let cacheFd ← openDir cacheDir (str "cache_dir") false
  (do
    checkCacheRoot cacheFd cacheDir
    let lockFd ← acquireLock cacheFd p
    (prepareLocked reader sha256 cacheFd cacheDir sourcePath plan p started).finally_
      (orOs (ask (.close lockFd)))).finally_ (orOs (ask (.close cacheFd)))

/-! ## Opening the table -/

/-- `_validate_open_args`; a tuple is a list here. -/
def validateOpenArgs (interp : Interp) (shape dtype tag : Value) : Except Str (Nat × Nat) := do
  let s ← orRaise (asShape? shape) (str "shape must be a pair of positive integers")
  reject (maxTableBytes / s.2 < s.1) (str "requested table shape exceeds supported bounds")
  reject (dtype ≠ .str tableDtype)
    (str "dtype must be the literal " ++ interp.repr (.str tableDtype))
  reject (tag ≠ .str (rowsTag s.1)) (str "tag must be rows0-<total_rows> matching shape")
  return s

/-- What the opener is asked for. -/
structure OpenArgs where
  receiptPath : Str
  expectedSha256 : Value
  tableDir : Str
  shape : Value
  dtype : Value
  tag : Value

/-- The receipt file is read, and it did not change meanwhile. -/
def readAttested (fd : Fd) : CacheM Bytes := do
  let st ← statLeaf fd (str "receipt")
  orFail (reject (maxMetaBytes < st.size) (str "receipt exceeds metadata size bound"))
  let raw ← readExact fd st.size 0 (str "receipt")
  requireUnchanged fd st.snapshot (str "receipt changed while being read")
  return raw

/-- What the receipt has to say; its model id and its dtype are what its schema asks for. -/
def checkAttested (args : OpenArgs) (expected : Str) (shape : Nat × Nat) (raw : Bytes) :
    Except Str Receipt := do
  reject (sha256 raw ≠ expected) (str "receipt sha256 mismatch")
  let r ← readReceipt reader raw
  reject ((r.table.rows, r.table.width) ≠ shape) (str "requested shape disagrees with receipt")
  reject (args.dtype ≠ .str tableDtype || args.tag ≠ .str (rowsTag r.table.rows))
    (str "receipt dtype/tag disagreement with request")
  reject (r.table.name ≠ tableFilename shape.1 shape.2 (shape.1 * shape.2))
    (str "receipt table filename is not geometry-derived")
  return r

/-- The table is opened, and its stat is the one of the receipt. -/
def openAttested (tableDirFd : Fd) (r : Receipt) : CacheM Fd := do
  match ← openExisting tableDirFd r.table.name (str "prepared table") with
  | none => .throw (.cache (str "prepared table file missing"))
  | some fd => do
    onRaise
      (do
        let st ← statLeaf fd (str "prepared table")
        orFail (reject (st.snapshot ≠ r.tableStat)
          (str "prepared table stat does not match receipt (stale)")))
      (orOs (ask (.close fd)))
    return fd

/-- `open_prepared_table`. -/
def openPreparedTable (args : OpenArgs) : CacheM Fd := do
  let expected ← orFail (checkHash args.expectedSha256 (str "expected_sha256"))
  let receiptPath ← resolveAnchored args.receiptPath (str "receipt_path")
  let tableDir ← resolveAnchored args.tableDir (str "table_dir")
  orFail (reject (receiptPath ≠ tableDir ++ str "/" ++ receiptName)
    (str "receipt must be the fixed prepared.json in table_dir"))
  let shape ← orFail (validateOpenArgs reader.toInterp args.shape args.dtype args.tag)
  let receiptDirFd ← openDir (dirnameOrRoot receiptPath) (str "receipt directory") false
  let raw ← (do
    let fd ← openLeaf receiptDirFd (basename receiptPath) (str "receipt") false
    (readAttested fd).finally_ (orOs (ask (.close fd)))).finally_ (orOs (ask (.close receiptDirFd)))
  let r ← orFail (checkAttested reader sha256 args expected shape raw)
  let tableDirFd ← openDir tableDir (str "table_dir") false
  (do
    checkCacheRoot tableDirFd tableDir
    openAttested tableDirFd r).finally_ (orOs (ask (.close tableDirFd)))

end

end Ple
end FlashNext
