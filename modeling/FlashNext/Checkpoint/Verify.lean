import FlashNext.Checkpoint.Receipt
import Mathlib.Data.List.Sort

/-!
# The checkpoint verifier

`verifyFiles` hashes every file of the lock in full and records, for each, the identity of
what it hashed.  `checkReceiptAgainstTree` reads a record back against the tree and hashes
everything again.  Both read the lock with rules of their own, not with those of the
launcher.
-/

namespace FlashNext
namespace Checkpoint

open Effect Posix Text

def receiptKind : String := "CHECKPOINT_VERIFIED"

def chunkSize : Nat := 4 * 1024 * 1024

def maxPathLength : Nat := 1024

/-- `_safe_relpath`. -/
def safeRelpath (path : String) : Bool :=
  path ≠ "" && path.toList.length ≤ maxPathLength && path.toList.head? ≠ some '/' &&
    !path.toList.contains '\\' && !path.toList.contains '\x00' &&
    (splitSlash path).all fun part => part ≠ "" && part ≠ "." && part ≠ ".."

/-- `os.path.join(root, rel)`, for a relative text. -/
def joinPath (root : PurePath) (rel : String) : PurePath where
  root := root.root
  parts := root.parts ++ splitSlash rel

/-! ## The lock -/

/-- Where the rows and the model object stand in a lock. -/
def inventoryFiles : Json → Except Exn (Json × Json)
  | .obj top => do
    let model := Json.field top "model"
    let nested := (model.asObj?.bind fun m => Json.lookup m "files").isSome
    reject ((Json.lookup top "files").isSome && nested)
      (.verify "ambiguous top-level and model.files inventories" [])
    match Json.field top "files", model with
    | .null, .obj m => return (Json.field m "files", model)
    | files, _ => return (files, model)
  | .arr files => return (.arr files, .null)
  | _ => .error (.verify "inventory must be an object" [])

/-- `_iter_inventory`: the rows and the model object. -/
def iterInventory (inventory : Json) : Except Exn (List (List (String × Json)) × Json) := do
  let (files, model) ← inventoryFiles inventory
  let rows ← orRaise files.asArr? (.verify "inventory.files must be a nonempty list" [])
  reject rows.isEmpty (.verify "inventory.files must be a nonempty list" [])
  let entries ← rows.mapM fun entry => do
    let entry ← orRaise entry.asObj? (.verify "inventory entry must be an object" [])
    let path ← orRaise (Json.field entry "path").asStr?
      (.verify "inventory entry missing path" [])
    reject (path = "") (.verify "inventory entry missing path" [])
    return entry
  return (entries, model)

/-- A hexadecimal digit of either case. -/
def isAnyHexDigit (c : Char) : Bool := isHexDigit c || ('A' ≤ c && c ≤ 'F')

/-- An optional digest of the lock: absent, or text of the right length and alphabet. -/
def lockDigest (value : Json) (length : Nat) (malformed : Exn) : Except Exn (Option String) :=
  match value with
  | .null => .ok none
  | .str s =>
    if s.toList.length = length ∧ s.toList.all isAnyHexDigit then .ok (some s)
    else .error malformed
  | _ => .error malformed

/-- What the lock expects of one file. -/
structure Want where
  rel : String
  sha256 : Option String
  gitBlob : Option String
  sourceGitBlob : Option String
  size : Json

/-- One round of the loop that admits the rows of the lock. -/
def wantRow (expected : List Want) (entry : List (String × Json)) : Except Exn (List Want) := do
  let rel ← orRaise (Json.field entry "path").asStr? (.other "KeyError")
  reject (!safeRelpath rel) (.verify "inventory path escapes root: %r" [.str rel])
  reject (expected.any fun w => w.rel = rel) (.verify "duplicate inventory path: %r" [.str rel])
  let sha := Json.field entry "sha256"
  let blob := Json.field entry "git_blob"
  reject (sha.isNull && blob.isNull)
    (.verify "inventory entry %r carries neither sha256 nor git_blob" [.str rel])
  let sha ← lockDigest sha 64 (.verify "inventory entry %r sha256 malformed" [.str rel])
  let blob ← lockDigest blob 40 (.verify "inventory entry %r git_blob malformed" [.str rel])
  return expected ++ [⟨rel, sha, if sha = none then blob else none, blob,
    Json.field entry "size"⟩]

/-- The size of an admitted row, checked once all rows are read. -/
def wantSize (w : Want) : Except Exn (Want × Nat) := do
  let missing := Exn.verify "inventory entry %r missing size" [.str w.rel]
  let size ← orRaise w.size.asInt? missing
  reject (size < 0) missing
  return (w, size.toNat)

/-! ## Reading a file in chunks -/

section

variable (T : Tree) (loads : Bytes → Except Exn Json) (sha256 : Bytes → Hex 64)
  (sha1 : Bytes → Hex 40)

def openFile (path : PurePath) : Except Exn RegularFile := ofWalk (T.fileAt path)

/-- The loop of `_sha256_file`: the bytes hashed and the offset reached.  Every chunk is at
least one byte, so `remaining` rounds are enough. -/
def hashLoop (path : PurePath) (data : Bytes) :
    Nat → Nat → Nat → Bytes → Except Exn (Bytes × Nat)
  | 0, offset, _, acc => .ok (acc, offset)
  | rounds + 1, offset, remaining, acc =>
    if remaining = 0 then .ok (acc, offset)
    else
      let chunk := (data.drop offset).take (min chunkSize remaining)
      if chunk = [] then .error (.verify "file shrank while hashing: %s" [.str path.str])
      else hashLoop path data rounds (offset + chunk.length) (remaining - chunk.length)
        (acc ++ chunk)

/-- `_sha256_file`. -/
def sha256File (path : PurePath) (size : Nat) : Except Exn (Hex 64) := do
  let file ← openFile T path
  let (hashed, offset) ← hashLoop path file.data size 0 size []
  reject ((file.data.drop offset).take 1 ≠ [])
    (.verify "file grew while hashing: %s" [.str path.str])
  return sha256 hashed

/-- The loop of `_git_blob_sha1`, up to the end of the file. -/
def blobLoop (data : Bytes) : Nat → Nat → Bytes → Bytes
  | 0, _, acc => acc
  | rounds + 1, offset, acc =>
    let chunk := (data.drop offset).take chunkSize
    if chunk = [] then acc else blobLoop data rounds (offset + chunk.length) (acc ++ chunk)

/-- `_git_blob_sha1`. -/
def gitBlobSha1 (path : PurePath) : Except Exn (Hex 40) := do
  let node ← ofWalk (T.stat path)
  let header := encode ("blob " ++ toString node.stat.size) ++ [0]
  let file ← openFile T path
  return sha1 (blobLoop file.data (file.data.length + 1) 0 header)

/-! ## The receipt -/

structure VerifiedFile where
  path : String
  sha256 : Hex 64
  gitBlob : Option (Hex 40)
  sourceGitBlob : Option String
  expectedSha256 : Option String
  expectedGitBlob : Option String
  stat : Stat
  deriving DecidableEq

structure Receipt where
  id : String
  sha : String
  root : PurePath
  rootStat : Stat
  locksSha256 : Hex 64
  files : List VerifiedFile
  deriving DecidableEq

def optText (s : Option String) : Json := s.elim .null .str

/-- `_stat_identity`. -/
def statIdentity (st : Stat) : List (String × Json) :=
  [("inode", .int st.inode), ("size", .int st.size), ("mtime_ns", .int st.mtimeNs),
    ("ctime_ns", .int st.ctimeNs), ("dev", .int st.dev)]

/-- The record of a file.  The size is the one of its identity. -/
def VerifiedFile.fields (f : VerifiedFile) : List (String × Json) :=
  [("path", .str f.path), ("sha256", .str f.sha256.text),
    ("git_blob", optText (f.gitBlob.map (·.text))),
    ("source_git_blob", optText f.sourceGitBlob),
    ("expected_sha256", optText f.expectedSha256),
    ("expected_git_blob", optText f.expectedGitBlob)] ++ statIdentity f.stat

def Receipt.fields (r : Receipt) : List (String × Json) :=
  [("kind", .str receiptKind), ("model", .obj [("id", .str r.id), ("sha", .str r.sha)]),
    ("root", .str r.root.str), ("root_stat", .obj (statIdentity r.rootStat)),
    ("file_count", .int r.files.length),
    ("total_bytes", .int (r.files.map fun f => f.stat.size).sum),
    ("locks_sha256", .str r.locksSha256.text), ("verification", .str "FULL"),
    ("files", .arr (r.files.map fun f => .obj f.fields))]

/-- `_read_json`: whatever goes wrong is reported as one kind of error. -/
def readJsonStrict (path : PurePath) : Except Exn (Json × Bytes) :=
  match readJson loads (treeView T) path with
  | .ok r => .ok r
  | .error e => .error (.verify "cannot read bounded strict JSON: %s" [.str e.text])

/-- One round of the loop over the expected files. -/
def verifyFile (root : PurePath) (expected : Want × Nat) : Except Exn VerifiedFile := do
  let (want, size) := expected
  let rel := Json.str want.rel
  let path := joinPath root want.rel
  reject (T.realpath path ≠ path) (.verify "inventory path contains a symlink: %r" [rel])
  reject (!T.isFile path) (.verify "missing file: %s" [rel])
  let st ← ofWalk (T.lstat path)
  reject (st.stat.size ≠ size)
    (.verify "size mismatch for %s: got %d, want %d" [rel, .int st.stat.size, .int size])
  let gotSha ← sha256File T sha256 path size
  let gotBlob ← (match want.gitBlob with
    | none => .ok none
    | some _ => (gitBlobSha1 T sha1 path).map some
    : Except Exn (Option (Hex 40)))
  let st2 ← ofWalk (T.lstat path)
  reject (st.stat ≠ st2.stat || T.realpath path ≠ path)
    (.verify "file changed while hashing: %s" [rel])
  reject (want.sha256.any fun s => gotSha.text ≠ s) (.verify "sha256 mismatch for %s" [rel])
  reject (want.gitBlob.any fun b => gotBlob.map (·.text) ≠ some b)
    (.verify "git_blob mismatch for %s" [rel])
  return ⟨want.rel, gotSha, gotBlob, want.sourceGitBlob, want.sha256, want.gitBlob, st2.stat⟩

/-- `verify_files.verify_files`. -/
def verifyFiles (root inventoryPath : PurePath) : Except Exn Receipt := do
  let root := T.abspath root
  reject (!T.isDir root) (.verify "checkpoint root not found: %s" [.str root.str])
  reject (T.realpath root ≠ root) (.verify "checkpoint root contains a symlink" [])
  let (inventory, lockBytes) ← readJsonStrict T loads inventoryPath
  let (entries, lockModel) ← iterInventory inventory
  let lockModel ← orRaise lockModel.asObj?
    (.verify "inventory must carry a model identity object" [])
  let unidentified := Exn.verify ("inventory model identity missing (id/sha) — refusing to " ++
    "verify against an unidentified tree") []
  let lockId ← orRaise (Json.field lockModel "id").asStr? unidentified
  reject (lockId = "") unidentified
  let lockSha ← orRaise (Json.field lockModel "sha").asStr? unidentified
  reject (!isHex 40 lockSha) unidentified
  let expected ← entries.foldlM wantRow []
  let expected ← expected.mapM wantSize
  let ordered := expected.insertionSort fun a b => a.1.rel ≤ b.1.rel
  let verified ← ordered.mapM (verifyFile T sha256 sha1 root)
  let rootNode ← ofWalk (T.stat root)
  return ⟨lockId, lockSha, root, rootNode.stat, sha256 lockBytes, verified⟩

/-- `write_receipt`: the bytes written and the digest returned. -/
def writeReceipt (dumps : Json → Bytes) (receipt : Receipt) : Bytes × Hex 64 :=
  let raw := dumps (.obj receipt.fields) ++ encode "\n"
  (raw, sha256 raw)

/-! ## Checking a receipt against the tree -/

/-- The identity a row must repeat, in the order it is compared. -/
def statValues (st : Stat) : List (String × Int) :=
  [("size", st.size), ("inode", st.inode), ("mtime_ns", st.mtimeNs), ("ctime_ns", st.ctimeNs),
    ("dev", st.dev)]

def recheckStat (rel : Json) (item : List (String × Json)) (f : String × Int) :
    Except Exn Unit :=
  reject ((Json.field item f.1).asInt? != some f.2)
    (.verify "stat drift on %s (%s changed since verification)" [rel, .str f.1])

def recheckBlob (rel : String) (path : PurePath) : Json → Except Exn Unit
  | .null => .ok ()
  | blob => do
    let live ← gitBlobSha1 T sha1 path
    reject (!blob.isText live.text)
      (.verify "content drift on %s (live git_blob != verified git_blob)" [.str rel])

/-- One round of the loop over the rows: the paths seen so far. -/
def recheckRow (root : PurePath) (seen : List String) (item : Json) :
    Except Exn (List String) := do
  let item ← orRaise item.asObj? (.verify "receipt entry is not an object" [])
  let bad := Exn.verify "unsafe/duplicate receipt path" []
  let rel ← orRaise (Json.field item "path").asStr? bad
  reject (!safeRelpath rel || seen.contains rel) bad
  let recorded ← orRaise ((Json.field item "sha256").asStr?.bind (Hex.ofText? 64))
    (.verify "receipt missing full observed SHA256" [])
  let path := joinPath root rel
  reject (T.realpath path ≠ path || !T.isFile path)
    (.verify "receipt file missing from tree: %s" [.str rel])
  let st ← ofWalk (T.lstat path)
  (statValues st.stat).forM (recheckStat (.str rel) item)
  let live ← sha256File T sha256 path st.stat.size.toNat
  reject (live ≠ recorded)
    (.verify "content drift on %s (live sha256 != verified sha256)" [.str rel])
  recheckBlob T sha1 rel path (Json.field item "git_blob")
  let st2 ← ofWalk (T.lstat path)
  reject (st.stat ≠ st2.stat) (.verify "file changed during receipt recheck" [])
  return seen ++ [rel]

/-- `verify_files.check_receipt_against_tree`. -/
def checkReceiptAgainstTree (receipt : List (String × Json)) (root : PurePath) :
    Except Exn Unit := do
  let root := T.abspath root
  reject (!(Json.field receipt "root").isText root.str)
    (.verify "receipt root %r does not match mounted %r"
      [Json.field receipt "root", .str root.str])
  let files ← orRaise (Json.field receipt "files").asArr? (.verify "receipt has no files list" [])
  reject files.isEmpty (.verify "receipt has no files list" [])
  reject (!(Json.field receipt "kind").isText receiptKind ||
      !(Json.field receipt "verification").isText "FULL")
    (.verify "receipt does not attest full verification" [])
  let _ ← files.foldlM (recheckRow T sha256 sha1 root) []
  reject ((Json.field receipt "file_count").asInt? != some (files.length : Int))
    (.verify "receipt file_count does not match files list" [])
  let identity := Exn.verify "receipt missing model identity" []
  let model ← orRaise (Json.field receipt "model").asObj? identity
  reject (!(Json.field model "sha").truthy || !(Json.field model "id").truthy) identity

end

end Checkpoint
end FlashNext
