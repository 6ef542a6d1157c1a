import FlashNext.Checkpoint.Inventory
import FlashNext.Posix.Tree
import Mathlib.Data.List.Perm.Subperm
import Mathlib.Algebra.BigOperators.Group.List.Basic

/-!
# The launcher's receipt check

`checkReceipt` compares a receipt with the digest the operator supplies, with the source
lock and with the live tree.  It reaches the tree only through the calls of a `View`, so
one definition serves a tree at rest and a tree whose answers nobody promises.

The check counts rows and compares sets of paths.  Together with the distinct names of the
lock that makes the rows a rearrangement of the inventory, which is what
`checkReceipt_sound` says of every accepted receipt.
-/

namespace FlashNext
namespace Checkpoint

open Effect Posix Text

/-- The answers of the file system to the calls of the launcher. -/
structure View where
  read : PurePath → Except Exn Bytes
  isSymlink : PurePath → Except Exn Bool
  resolve : PurePath → Except Exn PurePath
  isFile : PurePath → Except Exn Bool
  stat : PurePath → Except Exn Stat

def ofWalk {α : Type} : Except WalkError α → Except Exn α
  | .ok a => .ok a
  | .error .notFound => .error (.os false "No such file or directory")
  | .error .notDirectory => .error (.os false "Not a directory")
  | .error .tooManyLinks => .error (.os false "Too many levels of symbolic links")

theorem ofWalk_ok {α : Type} {x : Except WalkError α} {a : α} :
    ofWalk x = .ok a ↔ x = .ok a := by
  cases x with
  | ok b => rw [ofWalk, Except.ok.injEq, Except.ok.injEq]
  | error e => cases e <;> simp [ofWalk]

/-- A tree at rest, seen through the calls. -/
def treeView (T : Tree) : View where
  read p := (ofWalk (T.fileAt p)).map (·.data)
  isSymlink p := .ok (T.isSymlink p)
  resolve p := ofWalk (T.resolve p)
  isFile p := .ok (T.isFile p)
  stat p := (ofWalk (T.stat p)).map (·.stat)

section

variable (loads : Bytes → Except Exn Json) (sha256 : Bytes → Hex 64)

def jsonLimit : Nat := 16 * 1024 * 1024

/-- `guard.read_json`. -/
def readJson (view : View) (path : PurePath) : Except Exn (Json × Bytes) := do
  let content ← view.read path
  let raw := content.take (jsonLimit + 1)
  reject (jsonLimit < raw.length) (.launch "JSON artifact exceeds its byte limit")
  let doc ← loads raw
  return (doc, raw)

/-- The keys of a row that carry the file's identity. -/
def statFields (st : Stat) : List (String × Int) :=
  [("dev", st.dev), ("inode", st.inode), ("size", st.size), ("mtime_ns", st.mtimeNs),
    ("ctime_ns", st.ctimeNs)]

def hashable (value : Json) : Except Exn Json :=
  match value with
  | .arr _ => .error (.other "unhashable type: 'list'")
  | .obj _ => .error (.other "unhashable type: 'dict'")
  | value => .ok value

/-- A set of row paths is the set of the inventory's names. -/
def samePaths (paths : List Json) (inventory : Inventory) : Bool :=
  paths.all (fun p => inventory.files.list.any fun e => p.isText e.path) &&
    inventory.files.list.all fun e => paths.any fun p => p.isText e.path

def checkPin (pin : Pin) (row : List (String × Json)) : Except Exn Unit :=
  match pin with
  | .sha256 h =>
    reject (!(Json.field row "sha256").isText h.text)
      (.launch "receipt digest differs from source lock")
  | .gitBlob h =>
    reject (!(Json.field row "git_blob").isText h.text)
      (.launch "receipt Git blob differs from source lock")

/-- One round of the loop over the rows of the receipt: the bytes it adds to the total. -/
def checkRow (view : View) (modelRoot : PurePath) (inventory : Inventory)
    (row : List (String × Json)) : Except Exn Int := do
  let expected ← orRaise
    (inventory.files.list.find? fun e => (Json.field row "path").isText e.path)
    (.other "KeyError")
  let path := modelRoot.child expected.path
  let escapes := Exn.launch "checkpoint file escapes root or is not regular"
  let link ← view.isSymlink path
  reject link escapes
  let real ← view.resolve path
  reject (!real.isRelativeTo modelRoot) escapes
  let regular ← view.isFile path
  reject (!regular) escapes
  let stat ← view.stat path
  reject ((statFields stat).any fun f => (Json.field row f.1).asInt? != some f.2)
    (.launch "checkpoint stat changed after full verification")
  reject ((Json.field row "size").asInt? != some (expected.size : Int))
    (.launch "checkpoint size differs from source lock")
  let _ ← requireHex (Json.field row "sha256") 64 "observed file SHA256"
  checkPin expected.pin row
  -- `row["size"]`, which was just found to be the locked size
  return (expected.size : Int)

/-- `guard.check_receipt`. -/
def checkReceipt (view : View) (path : PurePath) (expectedHash : String)
    (modelRoot : PurePath) (sources : Json) : Except Exn Json := do
  let _ ← requireHex (.str expectedHash) 64 "verified receipt SHA256"
  let (receipt, raw) ← readJson loads view path
  reject ((sha256 raw).text != expectedHash)
    (.launch "receipt differs from the independently verified digest")
  let inventory ← sourceInventory sources
  let fields ← orRaise receipt.asObj? (.launch "receipt must be an object")
  reject (!(Json.field fields "kind").isText "CHECKPOINT_VERIFIED" ||
      !(Json.field fields "root").isText modelRoot.str)
    (.launch "receipt kind/root mismatch")
  let identity := Exn.launch "receipt model identity mismatch"
  let model ← orRaise (Json.field fields "model").asObj? identity
  reject (model.length != 2 || !(Json.field model "id").isText modelId ||
    !(Json.field model "sha").isText inventory.revision.text) identity
  let count := inventory.files.list.length
  let rows ← orRaise (Json.field fields "files").asArr?
    (.launch "receipt file count mismatch")
  reject ((Json.field fields "file_count").asInt? != some (count : Int))
    (.launch "receipt file count mismatch")
  let rows ← rows.mapM fun row =>
    orRaise row.asObj? (.launch "receipt entries must be objects")
  reject (rows.length != count) (.launch "receipt file set mismatch")
  let paths ← rows.mapM fun row => hashable (Json.field row "path")
  reject (!samePaths paths inventory) (.launch "receipt file set mismatch")
  let sizes ← rows.mapM (checkRow view modelRoot inventory)
  reject ((Json.field fields "total_bytes").asInt? != some sizes.sum)
    (.launch "receipt byte total mismatch")
  return receipt

end

end Checkpoint
end FlashNext
