import FlashNext.Checkpoint.Exn
import FlashNext.Effect.Check
import FlashNext.Posix.PurePath
import FlashNext.Text.Hex

/-!
# The pinned inventory

The source lock names every file of the checkpoint, its size and the digest it is pinned
by: the SHA-256 of its bytes, or for plain Git files the Git blob identifier.  What
`sourceInventory` accepts is an `Inventory`: safe names, no two alike.
-/

namespace FlashNext
namespace Checkpoint

open Effect Posix Text

def modelId : String := "nvidia/Qwen3.8-Flash-Next-NVFP4"

/-- `guard.require_hex`. -/
def requireHex (value : Json) (length : Nat) (field : String) : Except Exn (Hex length) :=
  orRaise (value.asStr?.bind (Hex.ofText? length)) (.launch (field ++ " has an invalid digest"))

theorem requireHex_ok {value : Json} {length : Nat} {field : String} {h : Hex length} :
    requireHex value length field = .ok h ↔ value = .str h.text := by
  rw [requireHex, orRaise_ok]
  cases value with
  | str s =>
    show Hex.ofText? length s = some h ↔ _
    rw [Hex.ofText?_eq_some, Json.str.injEq]
  | _ => simp [Json.asStr?]

/-- The name of an inventory entry that the launcher admits. -/
def safeName (name : String) : Bool :=
  let rel := PurePath.ofString name
  name ≠ "" && !rel.isAbsolute && !rel.parts.contains ".." && !name.toList.contains '\\' &&
    rel.str = name && name.toList.all fun c => 32 ≤ c.toNat

/-- The digest an entry is pinned by. -/
inductive Pin where
  | sha256 (h : Hex 64)
  | gitBlob (h : Hex 40)
  deriving DecidableEq

structure Entry where
  path : String
  size : Nat
  pin : Pin
  safe : safeName path = true

/-- The entries read so far, no two under one name. -/
structure Entries where
  list : List Entry
  nodup : (list.map (·.path)).Nodup

namespace Entries

def empty : Entries := ⟨[], List.nodup_nil⟩

def add (es : Entries) (e : Entry) (h : e.path ∉ es.list.map (·.path)) : Entries where
  list := es.list ++ [e]
  nodup := by
    rw [List.map_append, List.nodup_append]
    refine ⟨es.nodup, List.nodup_singleton _, ?_⟩
    intro a ha b hb hab
    rw [List.map_singleton, List.mem_singleton] at hb
    exact h (by rw [← hb, ← hab]; exact ha)

end Entries

structure Inventory where
  revision : Hex 40
  files : Entries

/-- The digest that pins a row of the lock. -/
def rowPin (row : List (String × Json)) : Except Exn Pin :=
  match Json.field row "sha256" with
  | .null => do
    let blob ← requireHex (Json.field row "git_blob") 40 "Git blob"
    return .gitBlob blob
  | sha256 => do
    let sha256 ← requireHex sha256 64 "file SHA256"
    return .sha256 sha256

def unsafePath : Exn := .launch "unsafe/duplicate inventory path"

/-- One round of the loop over the rows of the lock. -/
def sourceRow (result : Entries) (row : Json) : Except Exn Entries := do
  let row ← orRaise row.asObj? (.launch "invalid inventory entry")
  let name ← orRaise (Json.field row "path").asStr? unsafePath
  if hsafe : safeName name = true then
    if hname : name ∈ result.list.map (·.path) then
      .error unsafePath
    else
      let size ← orRaise (Json.field row "size").asInt? (.launch "invalid inventory byte count")
      reject (size < 0) (.launch "invalid inventory byte count")
      let pin ← rowPin row
      return result.add ⟨name, size.toNat, pin, hsafe⟩ hname
  else
    .error unsafePath

/-- `guard.source_inventory`. -/
def sourceInventory (sources : Json) : Except Exn Inventory := do
  let wrong := Exn.launch "wrong/missing model identity"
  let top ← orRaise sources.asObj? wrong
  let model ← orRaise (Json.field top "model").asObj? wrong
  reject (!(Json.field model "id").isText modelId) wrong
  let revision ← requireHex (Json.field model "sha") 40 "model revision"
  let noRows := Exn.launch "sources.model.files must be a nonempty pinned inventory"
  let rows ← orRaise (Json.field model "files").asArr? noRows
  reject rows.isEmpty noRows
  let files ← rows.foldlM sourceRow .empty
  return ⟨revision, files⟩

end Checkpoint
end FlashNext
