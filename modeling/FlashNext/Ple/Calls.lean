import FlashNext.Effect.Trace
import FlashNext.Ple.Plan
import FlashNext.Text.Ascii

/-!
# The calls of the cache of the lookup table

The cache reaches the file system through the calls of `Op`.  A directory or a file that is
open is a number, as the system hands it out, and the world may answer every call as it likes.
-/

namespace FlashNext
namespace Ple

open Effect
open Py (Str str)
open Text (Bytes)

/-- The error numbers that the code tells apart. -/
inductive Errno where
  | enoent
  | eexist
  | eacces
  | eagain
  | other
  deriving DecidableEq

structure OsError where
  errno : Errno
  text : Str

/-- `PleCacheError`, its subclass `CacheBusyError`, and an `OSError` nobody caught. -/
inductive Exc where
  | cache (text : Str)
  | busy (text : Str)
  | os (error : OsError)

/-- The type of a file, as `st_mode` holds it. -/
inductive FileKind where
  | regular
  | directory
  | symlink
  | other
  deriving DecidableEq

/-- What the code reads of `os.stat_result`; `mode` is less the type. -/
structure Stat where
  dev : Nat
  ino : Nat
  size : Nat
  mtimeNs : Nat
  ctimeNs : Nat
  kind : FileKind
  nlink : Nat
  uid : Nat
  mode : Nat
  deriving DecidableEq

abbrev Fd := Nat

inductive Op where
  /-- `os.open("/", flags)` of `_open_dir`. -/
  | openRoot
  /-- `os.open(part, flags, dir_fd=current)` of `_open_dir`. -/
  | openDir (dir : Fd) (name : Str)
  | mkdir (dir : Fd) (name : Str)
  /-- `os.lstat`, and `os.stat` that follows no link. -/
  | lstat (dir : Fd) (name : Str)
  /-- `_open_leaf`; `create` adds `O_RDWR | O_CREAT`. -/
  | openLeaf (dir : Fd) (name : Str) (create : Bool)
  /-- A new file under a name that must not exist. -/
  | openTemp (dir : Fd) (name : Str)
  | fstat (fd : Fd)
  /-- `f_bavail * f_frsize` of `os.statvfs`. -/
  | statvfs (fd : Fd)
  | pread (fd : Fd) (count offset : Nat)
  | pwrite (fd : Fd) (data : Bytes) (offset : Nat)
  | ftruncate (fd : Fd) (size : Nat)
  | fdatasync (fd : Fd)
  | fadvise (fd : Fd) (offset count : Nat)
  | fsync (fd : Fd)
  | flock (fd : Fd)
  | close (fd : Fd)
  | replace (dir : Fd) (source target : Str)
  | unlink (dir : Fd) (name : Str)
  | geteuid
  /-- `f"{os.getpid()}-{os.urandom(6).hex()}"`. -/
  | tempSuffix
  | monotonic

@[reducible] def Ans : Op → Type
  | .openRoot | .openDir _ _ | .openLeaf _ _ _ | .openTemp _ _ => Except OsError Fd
  | .lstat _ _ | .fstat _ => Except OsError Stat
  | .statvfs _ => Except OsError Nat
  | .pread _ _ _ => Except OsError Bytes
  | .pwrite _ _ _ => Except OsError Nat
  | .mkdir _ _ | .ftruncate _ _ | .fdatasync _ | .fadvise _ _ _ | .fsync _ | .flock _ | .close _
  | .replace _ _ _ | .unlink _ _ => Except OsError Unit
  | .geteuid => Nat
  | .tempSuffix => Str
  | .monotonic => ℚ

abbrev CacheM := Prog Op Ans Exc

abbrev ask (op : Op) : CacheM (Ans op) := Prog.perform op

/-- Let an `OSError` of the call through. -/
def orOs {α : Type} (x : CacheM (Except OsError α)) : CacheM α := do
  let answer ← x
  Prog.ofExcept (answer.mapError .os)

/-- `except OSError as exc: raise PleCacheError(f"{what}{exc}")` around the call. -/
def orCache {α : Type} (what : Str) (x : CacheM (Except OsError α)) : CacheM α := do
  let answer ← x
  Prog.ofExcept (answer.mapError fun error => .cache (what ++ error.text))

/-- `contextlib.suppress(OSError)` around the call. -/
def suppress {α : Type} (x : CacheM (Except OsError α)) : CacheM Unit := do
  let _ ← x
  return ()

/-- `except OSError as exc: raise PleCacheError(f"{what}{exc}")` around a block. -/
def catchOs {α : Type} (what : Str) (x : CacheM α) : CacheM α :=
  x.handle fun
    | .os error => .throw (.cache (what ++ error.text))
    | e => .throw e

end Ple
end FlashNext
