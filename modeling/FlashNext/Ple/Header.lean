import FlashNext.Ple.Plan
import FlashNext.Text.Ascii

/-!
# The header of a source file

The header of a safetensors file is read strictly (`loadStrictJson`) and every entry in it is
checked (`checkHeaderGlobal`), those of other tensors too.  What passes is a list of entries
whose ranges lie in the file.
-/

namespace FlashNext
namespace Ple

open Effect
open Py (Str Value NonFinite str)
open Text (Bytes)

abbrev Fields := List (Str × Value)

/-! ## Strict JSON -/

/-- What the scanner of `json.loads` reads, in the order of the text: a constant is `NaN` or an
infinity by its name, and `broken` is where the text cannot be decoded or read on. -/
inductive Raw where
  | null
  | bool (b : Bool)
  | int (n : Int)
  | float (q : ℚ)
  | overflow (x : NonFinite)
  | constant (name : Str)
  | str (s : Str)
  | arr (items : List Raw)
  | obj (fields : List (Str × Raw))
  | broken (detail : Str)

/-- What the interpreter supplies: the texts, and what the scanner reads of a file, with what it
finds wrong behind the value. -/
structure Reader extends Interp where
  scan : Bytes → Raw × Option Str

section

variable (reader : Reader) (what : Str)

/-- `_dup_check`, less what it returns. -/
def dupCheck (seen : List Str) : List (Str × Value) → Except Str Unit
  | [] => .ok ()
  | (key, _) :: pairs =>
    if key ∈ seen then
      .error (what ++ str ": duplicate JSON key " ++ reader.repr (.str key))
    else dupCheck (key :: seen) pairs

def invalidJson (detail : Str) : Str := what ++ str ": invalid JSON (" ++ detail ++ str ")"

mutual
/-- `json.loads`, with the hooks called in the order of the text. -/
def loads : Raw → Except Str Value
  | .null => .ok .none
  | .bool b => .ok (.bool b)
  | .int n => .ok (.int n)
  | .float q => .ok (.float q)
  | .overflow x => .ok (.nonfinite x)
  | .constant name => .error (what ++ str ": non-finite JSON constant " ++ name)
  | .str s => .ok (.str s)
  | .arr items => (loadsItems items).map .list
  | .obj fields => do
    let pairs ← loadsFields fields
    dupCheck reader what [] pairs
    return .dict pairs
  | .broken detail => .error (invalidJson what detail)

def loadsItems : List Raw → Except Str (List Value)
  | [] => .ok []
  | item :: items => do
    let value ← loads item
    let values ← loadsItems items
    return value :: values

def loadsFields : List (Str × Raw) → Except Str Fields
  | [] => .ok []
  | (key, item) :: fields => do
    let value ← loads item
    let values ← loadsFields fields
    return (key, value) :: values
end

mutual
/-- `_reject_nonfinite`: the last of several values is popped first, with all that is in it. -/
def rejectNonfinite (depth : Nat) : Value → Except Str Unit
  | .dict fields =>
    if 64 < depth then .error (what ++ str ": JSON nesting exceeds 64 levels")
    else rejectFields (depth + 1) fields
  | .list items =>
    if 64 < depth then .error (what ++ str ": JSON nesting exceeds 64 levels")
    else rejectItems (depth + 1) items
  | .nonfinite _ =>
    if 64 < depth then .error (what ++ str ": JSON nesting exceeds 64 levels")
    else .error (what ++ str ": non-finite float in JSON")
  | _ => reject (64 < depth) (what ++ str ": JSON nesting exceeds 64 levels")

def rejectItems (depth : Nat) : List Value → Except Str Unit
  | [] => .ok ()
  | item :: items => do
    rejectItems depth items
    rejectNonfinite depth item

def rejectFields (depth : Nat) : List (Str × Value) → Except Str Unit
  | [] => .ok ()
  | (_, item) :: fields => do
    rejectFields depth fields
    rejectNonfinite depth item
end

/-- `_load_strict_json`. -/
def loadStrictJson (raw : Bytes) : Except Str Value := do
  let obj ← loads reader what (reader.scan raw).1
  (reader.scan raw).2.forM fun detail => throw (invalidJson what detail)
  rejectNonfinite what 0 obj
  return obj

end

/-! ## Entries -/

/-- An entry that was checked. -/
structure Entry where
  dtype : Str
  shape : List Nat
  start : Nat
  stop : Nat
  deriving DecidableEq

def scaleDtype : Str := str "BF16"

/-- `_DTYPE_ITEMBYTES`. -/
def dtypeItemBytes : List (Str × Nat) :=
  [(tableDtype, 1), (str "F8_E5M2", 1), (scaleDtype, 2), (str "F16", 2), (str "F32", 4),
    (str "F64", 8)]

/-- `_is_int(x) and x >= 0`. -/
def asNat? (v : Value) : Option Nat := (v.asInt?.filter fun n => decide (0 ≤ n)).map Int.toNat

/-- Two offsets in order. -/
def asOffsets? (v : Value) : Option (Nat × Nat) :=
  match v.asList?.bind fun items => items.mapM asNat? with
  | some [start, stop] => if start ≤ stop then some (start, stop) else none
  | _ => none

def metadataKey : Str := str "__metadata__"

/-- A range of the file, with the name of its tensor. -/
structure Span where
  start : Nat
  stop : Nat
  name : Str

/-- The order of tuples. -/
def Span.le (a b : Span) : Bool :=
  a.start < b.start || (a.start == b.start &&
    (a.stop < b.stop || (a.stop == b.stop && decide (a.name ≤ b.name))))

/-- The first two neighbours of which one starts before the other ends. -/
def overlap? : List Span → Option (Str × Str)
  | a :: b :: spans => if b.start < a.stop then some (a.name, b.name) else overlap? (b :: spans)
  | _ => none

section

variable (interp : Interp)

/-- `what_name`. -/
def whatName (name : Str) : Str := str "source tensor " ++ interp.repr (.str name)

/-- `_check_header_entry`, with the entry it has checked.  No offset is negative where the last
checks of the source ask for it. -/
def checkHeaderEntry (name : Str) (spec : Value) (dataStart fileSize : Nat) :
    Except Str Entry := do
  let spec ← orRaise spec.asDict? (whatName interp name ++ str ": header entry malformed")
  let dtype ← orRaise (Value.field spec "dtype").asStr?
    (whatName interp name ++ str ": dtype malformed")
  let shape ← orRaise ((Value.field spec "shape").asList?.bind fun items => items.mapM asNat?)
    (whatName interp name ++ str ": shape malformed")
  let offs ← orRaise (asOffsets? (Value.field spec "data_offsets"))
    (whatName interp name ++ str ": data_offsets malformed")
  reject (fileSize < dataStart + offs.2)
    (whatName interp name ++ str ": range outside file data region")
  reject ((dtypeItemBytes.find? fun item => item.1 == dtype).any fun item =>
      offs.2 - offs.1 != shape.foldl (· * ·) item.2)
    (whatName interp name ++ str ": byte length disagrees with shape/dtype")
  return ⟨dtype, shape, offs.1, offs.2⟩

/-- One round of the loop of `_check_header_global`. -/
def checkHeaderItem (dataStart fileSize : Nat) (item : Str × Value) :
    Except Str (Option (Str × Entry)) := do
  if item.1 = metadataKey then
    reject item.2.asDict?.isNone (str "source header __metadata__ must be an object")
    return none
  else
    let entry ← checkHeaderEntry interp item.1 item.2 dataStart fileSize
    return some (item.1, entry)

/-- `_check_header_global`, with the entries it has checked. -/
def checkHeaderGlobal (header : Fields) (dataStart fileSize : Nat) :
    Except Str (List (Str × Entry)) := do
  let entries ← collect (checkHeaderItem interp dataStart fileSize) header
  let spans := entries.map fun e => Span.mk (dataStart + e.2.start) (dataStart + e.2.stop) e.1
  (overlap? (spans.mergeSort Span.le)).forM fun names =>
    throw (str "source header: tensors " ++ interp.repr (.str names.1) ++ str " and " ++
      interp.repr (.str names.2) ++ str " overlap")
  return entries

end

/-- `header.get(name)` for the name of a tensor. -/
def entryOf (entries : List (Str × Entry)) (name : Str) : Option Entry :=
  (entries.find? fun e => e.1 == name).map (·.2)

/-! ## What is known of the entries -/

section

variable {interp : Interp} {dataStart fileSize : Nat}

theorem checkHeaderEntry_ok {name : Str} {spec : Value} {entry : Entry}
    (h : checkHeaderEntry interp name spec dataStart fileSize = .ok entry) :
    entry.start ≤ entry.stop ∧ dataStart + entry.stop ≤ fileSize := by
  simp only [checkHeaderEntry, bind_ok, orRaise_ok, reject_ok, pure_ok] at h
  obtain ⟨spec, -, dtype, -, shape, -, offs, hoffs, _, hin, _, -, rfl⟩ := h
  rw [decide_eq_false_iff_not, Nat.not_lt] at hin
  refine ⟨?_, hin⟩
  unfold asOffsets? at hoffs
  split at hoffs
  · next start stop _ =>
    split at hoffs
    · next hle =>
      obtain rfl := Option.some.inj hoffs
      exact hle
    · cases hoffs
  · cases hoffs

/-- The range of a tensor that is found lies in the file. -/
theorem entryOf_bounds {header : Fields} {entries : List (Str × Entry)}
    (h : checkHeaderGlobal interp header dataStart fileSize = .ok entries) {name : Str}
    {entry : Entry} (hentry : entryOf entries name = some entry) :
    entry.start ≤ entry.stop ∧ dataStart + entry.stop ≤ fileSize := by
  simp only [checkHeaderGlobal, bind_ok, pure_ok] at h
  obtain ⟨entries', hentries, _, -, rfl⟩ := h
  rw [entryOf, Option.map_eq_some_iff] at hentry
  obtain ⟨e, hfind, rfl⟩ := hentry
  obtain ⟨item, -, hitem⟩ := (collect_ok hentries).2 e (List.mem_of_find?_eq_some hfind)
  unfold checkHeaderItem at hitem
  split at hitem
  · rw [bind_ok] at hitem
    obtain ⟨_, -, hitem⟩ := hitem
    cases hitem
  · rw [bind_ok] at hitem
    obtain ⟨entry, hcheck, hitem⟩ := hitem
    rw [pure_ok, Option.some.injEq] at hitem
    subst hitem
    exact checkHeaderEntry_ok hcheck

end

end Ple
end FlashNext
