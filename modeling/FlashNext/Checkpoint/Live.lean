import FlashNext.Checkpoint.Verify
import FlashNext.Effect.Run
import FlashNext.Posix.Inodes

/-!
# The verifier among others

`verify_files` as the calls it makes, each of which sees the file system of its own moment: before
every call others may have changed it any number of times.  A read returns one byte or more where
there is one, so a buffered read is one or several of these calls.
-/

namespace FlashNext
namespace Checkpoint
namespace Live

open Effect Posix Text

/-- Where the verifier calls `lstat`. -/
inductive Site where
  /-- On a component of the path, in `realpath`. -/
  | component
  /-- Before and after the hashing. -/
  | first
  | second
  deriving DecidableEq

inductive Op where
  | lstat (site : Site) (path : PurePath)
  | stat (path : PurePath)
  | readlink (path : PurePath)
  | openAt (path : PurePath)
  | read (id : InodeId) (offset count : Nat)
  | readJson (path : PurePath)
  deriving DecidableEq

@[reducible] def Ans : Op → Type
  | .lstat _ _ => Except WalkError Node
  | .stat _ => Except WalkError Node
  | .readlink _ => Except WalkError String
  | .openAt _ => Except WalkError InodeId
  | .read _ _ _ => Bytes
  | .readJson _ => Except Exn (Json × Bytes)

/-! ## The program -/

abbrev LiveM := Prog Op Ans Exn

abbrev ask (op : Op) : LiveM (Ans op) := Prog.perform op

/-- A call that raises an `OSError`. -/
def attempt {α : Type} (x : LiveM (Except WalkError α)) : LiveM α :=
  x >>= fun r => Prog.ofExcept (ofWalk r)

/-- The components of `realpath`, each looked at by a call of its own. -/
def realFrom (follow : List String → List String → LiveM (List String)) :
    List String → List String → LiveM (List String)
  | cur, [] => return cur
  | cur, part :: rest =>
    if part = ".." then realFrom follow cur.dropLast rest
    else do
      let node ← ask (.lstat .component ⟨.one, cur ++ [part]⟩)
      match node with
      | .ok (.symlink _ _) => do
        let target ← attempt (ask (.readlink ⟨.one, cur ++ [part]⟩))
        follow (Tree.base (.ofString target) cur) ((PurePath.ofString target).parts ++ rest)
      | _ => realFrom follow (cur ++ [part]) rest

def real : Nat → List String → List String → LiveM (List String)
  | 0 => realFrom fun cur rest => return cur ++ rest
  | links + 1 => realFrom (real links)

section

variable (maxLinks : Nat) (sha256 : Bytes → Hex 64) (sha1 : Bytes → Hex 40) (rounds : Nat)

/-- `os.path.realpath(path) == path`. -/
def isReal (path : PurePath) : LiveM Bool := do
  let parts ← real maxLinks [] path.parts
  return (⟨.one, parts⟩ : PurePath) = path

/-- `os.path.isfile`. -/
def isFile (path : PurePath) : LiveM Bool := do
  let node ← ask (.stat path)
  return match node with
    | .ok (.file _) => true
    | _ => false

/-- `os.path.isdir`. -/
def isDir (path : PurePath) : LiveM Bool := do
  let node ← ask (.stat path)
  return match node with
    | .ok (.directory _) => true
    | _ => false

/-- The loop of `_sha256_file`. -/
def hashLoop (path : PurePath) (id : InodeId) :
    Nat → Nat → Nat → Bytes → LiveM (Bytes × Nat)
  | 0, offset, _, acc => return (acc, offset)
  | rounds + 1, offset, remaining, acc =>
    if remaining = 0 then return (acc, offset)
    else do
      let chunk ← ask (.read id offset (min chunkSize remaining))
      Prog.require (chunk ≠ []) (.verify "file shrank while hashing: %s" [.str path.str])
      hashLoop path id rounds (offset + chunk.length) (remaining - chunk.length) (acc ++ chunk)

/-- `_sha256_file`. -/
def sha256File (path : PurePath) (size : Nat) : LiveM (Hex 64) := do
  let id ← attempt (ask (.openAt path))
  let (hashed, offset) ← hashLoop path id size 0 size []
  let more ← ask (.read id offset 1)
  Prog.require (more = []) (.verify "file grew while hashing: %s" [.str path.str])
  return sha256 hashed

/-- The loop of `_git_blob_sha1`, which others can keep going. -/
def blobLoop (id : InodeId) : Nat → Nat → Bytes → LiveM Bytes
  | 0, _, _ => .cut
  | rounds + 1, offset, acc => do
    let chunk ← ask (.read id offset chunkSize)
    if chunk = [] then return acc
    else blobLoop id rounds (offset + chunk.length) (acc ++ chunk)

def blobHeader (size : Int) : Bytes := encode ("blob " ++ toString size) ++ [0]

/-- `_git_blob_sha1`. -/
def gitBlobSha1 (path : PurePath) : LiveM (Hex 40) := do
  let node ← attempt (ask (.stat path))
  let id ← attempt (ask (.openAt path))
  let hashed ← blobLoop id rounds 0 (blobHeader node.stat.size)
  return sha1 hashed

/-- The `git_blob` of a row, where it is pinned by one. -/
def gotBlob (path : PurePath) : Option String → LiveM (Option (Hex 40))
  | none => return none
  | some _ => do
    let blob ← gitBlobSha1 sha1 rounds path
    return some blob

/-- From the first `lstat` to the second. -/
def hashFile (path : PurePath) (rel : Json) (want : Want) (size : Nat) :
    LiveM (Hex 64 × Option (Hex 40) × Stat) := do
  let st ← attempt (ask (.lstat .first path))
  Prog.require (st.stat.size = size)
    (.verify "size mismatch for %s: got %d, want %d" [rel, .int st.stat.size, .int size])
  let gotSha ← sha256File sha256 path size
  let blob ← gotBlob sha1 rounds path want.gitBlob
  let st2 ← attempt (ask (.lstat .second path))
  Prog.require (st.stat = st2.stat) (.verify "file changed while hashing: %s" [rel])
  return (gotSha, blob, st2.stat)

/-- One round of the loop over the expected files. -/
def verifyFile (root : PurePath) (expected : Want × Nat) : LiveM VerifiedFile := do
  let (want, size) := expected
  let rel := Json.str want.rel
  let path := joinPath root want.rel
  let before ← isReal maxLinks path
  Prog.require before (.verify "inventory path contains a symlink: %r" [rel])
  let regular ← isFile path
  Prog.require regular (.verify "missing file: %s" [rel])
  let (gotSha, blob, stat) ← hashFile sha256 sha1 rounds path rel want size
  let after ← isReal maxLinks path
  Prog.require after (.verify "file changed while hashing: %s" [rel])
  Prog.require (want.sha256.all fun s => gotSha.text = s) (.verify "sha256 mismatch for %s" [rel])
  Prog.require (want.gitBlob.all fun b => blob.map (·.text) = some b)
    (.verify "git_blob mismatch for %s" [rel])
  return ⟨want.rel, gotSha, blob, want.sourceGitBlob, want.sha256, want.gitBlob, stat⟩

/-- What the lock says: the model's two names and the files, in the order they are verified. -/
def readLock (inventory : Json) : Except Exn (String × String × List (Want × Nat)) := do
  let (entries, lockModel) ← iterInventory inventory
  let lockModel ← orRaise lockModel.asObj?
    (.verify "inventory must carry a model identity object" [])
  let unidentified := Exn.verify ("inventory model identity missing (id/sha) — refusing to " ++
    "verify against an unidentified tree") []
  let lockId ← orRaise (Json.field lockModel "id").asStr? unidentified
  reject (lockId = "") unidentified
  let lockSha ← orRaise (Json.field lockModel "sha").asStr? unidentified
  reject (!isHex 40 lockSha) unidentified
  let expected ← entries.foldlM wantRow []
  let expected ← expected.mapM wantSize
  return (lockId, lockSha, expected.insertionSort fun a b => a.1.rel ≤ b.1.rel)

/-- `os.path.abspath`. -/
def absPath (cwd : List String) (p : PurePath) : PurePath where
  root := if p.root = .two then .two else .one
  parts := Tree.collapse [] (Tree.base p cwd ++ p.parts)

/-- `verify_files.verify_files`. -/
def verifyFiles (cwd : List String) (root inventoryPath : PurePath) : LiveM Receipt := do
  let root := absPath cwd root
  let directory ← isDir root
  Prog.require directory (.verify "checkpoint root not found: %s" [.str root.str])
  let realRoot ← isReal maxLinks root
  Prog.require realRoot (.verify "checkpoint root contains a symlink" [])
  let lock ← ask (.readJson inventoryPath)
  let (inventory, lockBytes) ← Prog.ofExcept lock
  let (lockId, lockSha, ordered) ← Prog.ofExcept (readLock inventory)
  let verified ← ordered.mapM (verifyFile maxLinks sha256 sha1 rounds root)
  let rootNode ← attempt (ask (.stat root))
  return ⟨lockId, lockSha, root, rootNode.stat, sha256 lockBytes, verified⟩

end

/-! ## The moments of the calls -/

/-- What the others have done so far, and the file system that every call has seen. -/
structure World where
  history : History
  log : List (Op × FileSystem)

/-- Before a call others make changes; a read gives so many bytes at most, and the lock may hold
anything. -/
structure In (op : Op) where
  changes : List Change
  count : Nat
  lock : Except Exn (Json × Bytes)

def nodeOf (fs : FileSystem) (r : Except WalkError InodeId) : Except WalkError Node :=
  r.map fun id => (fs.inode id).node id

def answer (fs : FileSystem) : (op : Op) → In op → Ans op
  | .lstat _ path, _ => nodeOf fs (fs.lstat path)
  | .stat path, _ => nodeOf fs (fs.stat path)
  | .readlink path, _ =>
    match nodeOf fs (fs.lstat path) with
    | .ok (.symlink _ target) => .ok target
    | .ok _ => .error .notFound
    | .error e => .error e
  | .openAt path, _ => fs.openAt path
  | .read id offset count, i => fs.read id offset (min i.count count)
  | .readJson _, i => i.lock

def semantics : Sem Op Ans World where
  In := In
  allowed _ i w := w.history.playable i.changes = true ∧ 0 < i.count
  step op i w :=
    let history := w.history.play i.changes
    (answer history.fs op i, ⟨history, w.log ++ [(op, history.fs)]⟩)

instance (op : Op) (i : semantics.In op) (w : World) : Decidable (semantics.allowed op i w) :=
  inferInstanceAs (Decidable (_ ∧ _))

/-! ## What a row is bound to -/

/-- The digests of a row are those of the bytes of the inode with the identity that the row
records: there is such an inode, and whenever one shows this identity it has these bytes. -/
structure Bound (sha256 : Bytes → Hex 64) (sha1 : Bytes → Hex 40) (h : History)
    (f : VerifiedFile) : Prop where
  shown : ∃ v ∈ h.versions (f.stat.dev, f.stat.inode),
    (v.node (f.stat.dev, f.stat.inode)).stat = f.stat
  bytes : ∀ v ∈ h.versions (f.stat.dev, f.stat.inode),
    (v.node (f.stat.dev, f.stat.inode)).stat = f.stat → ∃ data, v.body = .file data ∧
      f.sha256 = sha256 data ∧ ∀ blob, f.gitBlob = some blob →
        blob = sha1 (blobHeader data.length ++ data)

/-- `lstat` of the path shows a regular file. -/
def LeadsToFile (fs : FileSystem) (path : PurePath) : Prop :=
  ∃ id data, fs.lstat path = .ok id ∧ (fs.inode id).body = .file data

/-- At the first `lstat` of a path it leads to a regular file, and from there to the second one its
directory part leads to one directory, at every call between. -/
structure Held (log : List (Op × FileSystem)) (path : PurePath) : Prop where
  regular : ∀ before after fs, log = before ++ (.lstat .first path, fs) :: after →
    LeadsToFile fs path
  directory : ∀ before between after atFirst atSecond,
    log = before ++ (.lstat .first path, atFirst) ::
      (between ++ (.lstat .second path, atSecond) :: after) →
    ∀ call ∈ between, call.2.directoryOf path = atSecond.directoryOf path

end Live
end Checkpoint
end FlashNext
