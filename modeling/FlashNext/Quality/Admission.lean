import FlashNext.Effect.System
import FlashNext.Py.Dump

/-!
# Admissions to the one GPU

Any number of contexts of `SingleGpuAdmission.request`, each at its own point of the code, on one
object.  A step is one of a context: the system calls answer it, and `next` says what it changes.
The lock file is locked by at most one context, since each opens the file for itself.
-/

namespace FlashNext
namespace Quality

open Py (Str Value str)

abbrev Fields := List (Str × Value)

/-- `lease[key] = value`. -/
def setItem (lease : Fields) (key : String) (value : Value) : Fields :=
  if (Value.lookup lease key).isSome then
    lease.map fun f => if f.1 = str key then (f.1, value) else f
  else lease ++ [(str key, value)]

/-- Where a context is.  `refused` has the file open without the lock, and `leaving` has it with the
lock. -/
inductive Point where
  | entered
  | tested (row : Str)
  | opened (row : Str)
  | locked (row : Str)
  | admitted (row : Str) (lease : Fields)
  | released (row : Str) (lease : Fields)
  | leaving (granted : Option Str)
  | refused
  | left (granted : Option Str)

/-- What happens at a step of a context, with what the system answers. -/
inductive Act where
  | test
  | openLock (opened : Bool)
  | tryLock (locked : Bool)
  /-- The idle check and the snapshot before the admission, and the time of it. -/
  | grant (answer : Except (Str × Str) Value) (now : Str)
  /-- The idle check and the snapshot after it; an exception is its class and its text. -/
  | release (answer : Except (Str × Str) Value)
  | write (written : Bool) (now : Str)
  | unlock

/-- What is told of the admissions. -/
inductive Note (Ctx : Type) where
  | granted (i : Ctx)
  | failed (i : Ctx)

structure World (Ctx : Type) where
  failed : Option Str
  /-- The context whose open file has the lock. -/
  holder : Option Ctx
  point : Ctx → Point
  /-- The files of the output directory that hold a JSON object. -/
  docs : Str → Option Fields
  log : List (Note Ctx)

/-- What the contexts are called with and what the interpreter supplies: the row of each, the
process and the SHA-256 of a text. -/
structure Setup (Ctx : Type) where
  row : Ctx → Value
  pid : Int
  sha256 : Str → Str

section

variable {Ctx : Type} [DecidableEq Ctx]

def World.move (s : World Ctx) (i : Ctx) (p : Point) : World Ctx :=
  { s with point := Function.update s.point i p }

/-- `isinstance(row_id, str)` and neither empty nor longer than 500 characters. -/
def checkRow (v : Value) : Option Str :=
  v.asStr?.filter fun s => s ≠ [] && s.length ≤ 500

def Setup.lease (setup : Setup Ctx) (row : Str) : Fields :=
  [(str "schema", .str (str "single-gb10-q200-admission-v1")), (str "row_id", .str row),
    (str "owner_pid", .int setup.pid)]

/-- The name of the document of a row. -/
def Setup.docName (setup : Setup Ctx) (row : Str) : Str := setup.sha256 row ++ str ".json"

/-- The lease after the release checks. -/
def releasedLease (lease : Fields) : Except (Str × Str) Value → Fields
  | .ok after => setItem (setItem lease "after" after) "release_status" (.str (str "VERIFIED"))
  | .error (kind, text) =>
    setItem (setItem lease "release_status" (.str (str "FAILED"))) "release_error"
      (.str (kind ++ str ": " ++ text))

variable (setup : Setup Ctx)

/-- One step of a context, from where it is. -/
def next (s : World Ctx) (i : Ctx) (act : Act) : Option (World Ctx) :=
  match s.point i, act with
  | .entered, .test =>
    -- the flag is read before the lock is there
    if s.failed.isSome then some (s.move i (.left none))
    else match checkRow (setup.row i) with
      | none => some (s.move i (.left none))
      | some row => some (s.move i (.tested row))
  | .tested row, .openLock opened =>
    some (s.move i (if opened then .opened row else .left none))
  | .opened row, .tryLock locked =>
    if locked then
      if s.holder.isNone then some { s.move i (.locked row) with holder := some i } else none
    else some (s.move i .refused)
  | .locked row, .grant (.ok before) now =>
    let lease := setItem (setItem (setup.lease row) "before" before) "admitted_utc" (.str now)
    some { s.move i (.admitted row lease) with log := s.log ++ [.granted i] }
  | .locked _, .grant (.error _) _ => some (s.move i (.leaving none))
  | .admitted row lease, .release (.ok after) =>
    some (s.move i (.released row (releasedLease lease (.ok after))))
  | .admitted row lease, .release (.error (kind, text)) =>
    some { s.move i (.released row (releasedLease lease (.error (kind, text)))) with
      failed := some (kind ++ str ": " ++ text), log := s.log ++ [.failed i] }
  | .released row lease, .write written now =>
    -- `row_id.encode()` raises on half of a surrogate pair
    if written && Py.encodes row then
      some { s.move i (.leaving (some row)) with
        docs := Function.update s.docs (setup.docName row)
          (some (setItem lease "released_utc" (.str now))) }
    else some (s.move i (.leaving (some row)))
  | .leaving granted, .unlock => some { s.move i (.left granted) with holder := none }
  | .refused, .unlock => some (s.move i (.left none))
  | _, _ => none

/-- The contexts of a new object. -/
def admissions : Effect.System (World Ctx) (Ctx × Act) where
  start s := s.failed = none ∧ s.holder = none ∧ (∀ i, s.point i = .entered) ∧ s.log = []
  step s a s' := next setup s a.1 a.2 = some s'

/-! ## What is wanted -/

def Note.isFailed : Note Ctx → Bool
  | .failed _ => true
  | .granted _ => false

/-- After a failed release no admission is granted. -/
def Sticky (log : List (Note Ctx)) : Prop :=
  log.Pairwise fun earlier later => earlier.isFailed = true → later.isFailed = true

/-- From its grant to its unlock a context holds an admission. -/
def Point.holdsAdmission : Point → Bool
  | .admitted _ _ => true
  | .released _ _ => true
  | .leaving granted => granted.isSome
  | _ => false

/-- The lease says how its release went. -/
def Settled (lease : Fields) : Prop :=
  Value.lookup lease "release_status" = some (.str (str "VERIFIED")) ∨
    Value.lookup lease "release_status" = some (.str (str "FAILED"))

/-- What the admissions of one object guarantee. -/
structure Sound (s : World Ctx) : Prop where
  sticky : Sticky s.log
  exclusive : ∀ i j, (s.point i).holdsAdmission = true → (s.point j).holdsAdmission = true → i = j
  documented : ∀ i row, s.point i = .left (some row) →
    ∃ lease, s.docs (setup.docName row) = some lease ∧ Settled lease

/-- No context locks the file while the flag is set, and every document is written. -/
def Undisturbed (s : World Ctx) : Ctx × Act → Prop
  | (_, .tryLock locked) => locked = true → s.failed = none
  | (i, .write written _) =>
    written = true ∧ ∀ row lease, s.point i = .released row lease → Py.encodes row = true
  | _ => True

/-! ## What a step changes -/

/-- The context has the lock. -/
def Point.hasLock : Point → Bool
  | .locked _ => true
  | .admitted _ _ => true
  | .released _ _ => true
  | .leaving _ => true
  | _ => false

/-- The context has the lock and its release is still to come. -/
def Point.early : Point → Bool
  | .locked _ => true
  | .admitted _ _ => true
  | _ => false

/-- The context was granted an admission and has written its document, or should have. -/
def Point.documents : Point → Option Str
  | .leaving granted => granted
  | .left granted => granted
  | _ => none

/-- What a step of a context changes. -/
inductive Change (s : World Ctx) (i : Ctx) : Act → World Ctx → Prop
  /-- A step without the lock, from a point that is not granted to another one. -/
  | aside (act : Act) (p : Point) (hfrom : (s.point i).hasLock = false) (hto : p.hasLock = false)
      (hnone : p.documents = none) : Change s i act (s.move i p)
  | locked (row : Str) (hfrom : (s.point i).hasLock = false) (hfree : s.holder = none) :
      Change s i (.tryLock true) { s.move i (.locked row) with holder := some i }
  | granted (act : Act) (row : Str) (lease : Fields) (hfrom : s.point i = .locked row) :
      Change s i act { s.move i (.admitted row lease) with log := s.log ++ [.granted i] }
  | denied (act : Act) (row : Str) (hfrom : s.point i = .locked row) :
      Change s i act (s.move i (.leaving none))
  | verified (act : Act) (row : Str) (lease lease' : Fields)
      (hfrom : s.point i = .admitted row lease) (hsettled : Settled lease') :
      Change s i act (s.move i (.released row lease'))
  | failed (act : Act) (row : Str) (lease lease' : Fields) (text : Str)
      (hfrom : s.point i = .admitted row lease) (hsettled : Settled lease') :
      Change s i act { s.move i (.released row lease') with
        failed := some text, log := s.log ++ [.failed i] }
  | written (act : Act) (row : Str) (lease lease' : Fields)
      (hfrom : s.point i = .released row lease) (hsettled : Settled lease → Settled lease') :
      Change s i act { s.move i (.leaving (some row)) with
        docs := Function.update s.docs (setup.docName row) (some lease') }
  | unwritten (written : Bool) (now row : Str) (lease : Fields)
      (hfrom : s.point i = .released row lease) (hbad : (written && Py.encodes row) = false) :
      Change s i (.write written now) (s.move i (.leaving (some row)))
  | unlocked (act : Act) (granted : Option Str) (hfrom : s.point i = .leaving granted) :
      Change s i act { s.move i (.left granted) with holder := none }

theorem lookup_setItem_self (lease : Fields) (key : String) (v : Value) :
    Value.lookup (setItem lease key v) key = some v := by
  unfold setItem
  by_cases h : (Value.lookup lease key).isSome
  · rw [if_pos h]
    unfold Value.lookup at h ⊢
    induction lease with
    | nil => cases h
    | cons f lease ih =>
      rw [List.map_cons, List.find?_cons]
      by_cases hkey : f.1 = str key
      · simp [hkey]
      · rw [List.find?_cons_of_neg (by simpa using hkey)] at h
        simp only [hkey, if_false, beq_eq_false_iff_ne.mpr hkey]
        exact ih h
  · rw [if_neg h]
    have hnone : lease.find? (fun f => f.1 == str key) = none := by
      rwa [Value.lookup, Option.isSome_map, Bool.not_eq_true, Option.isSome_eq_false_iff,
        Option.isNone_iff_eq_none] at h
    rw [Value.lookup, List.find?_append, hnone]
    simp

theorem lookup_setItem_other {lease : Fields} {key other : String} (v : Value)
    (h : str other ≠ str key) :
    Value.lookup (setItem lease key v) other = Value.lookup lease other := by
  unfold setItem
  by_cases hsome : (Value.lookup lease key).isSome
  · rw [if_pos hsome]
    clear hsome
    unfold Value.lookup
    induction lease with
    | nil => rfl
    | cons f lease ih =>
      rw [List.map_cons, List.find?_cons, List.find?_cons]
      by_cases hkey : f.1 = str key
      · rw [if_pos hkey]
        have hne : (f.1 == str other) = false := by simpa [hkey] using fun heq => h heq.symm
        simp only [hne]
        exact ih
      · rw [if_neg hkey]
        cases hf : f.1 == str other with
        | true => rfl
        | false => exact ih
  · rw [if_neg hsome, Value.lookup, List.find?_append]
    unfold Value.lookup
    cases lease.find? (fun f => f.1 == str other) with
    | some f => rfl
    | none =>
      rw [Option.none_or, List.find?_cons_of_neg (by simpa using h.symm)]
      rfl

theorem settled_releasedLease (lease : Fields) (answer : Except (Str × Str) Value) :
    Settled (releasedLease lease answer) := by
  cases answer with
  | ok after => exact Or.inl (lookup_setItem_self _ _ _)
  | error e =>
    refine Or.inr ?_
    show Value.lookup (setItem _ "release_error" _) _ = _
    rw [lookup_setItem_other _ (by decide), lookup_setItem_self]

theorem Settled.setItem {lease : Fields} {key : String} (h : Settled lease) (v : Value)
    (hkey : str "release_status" ≠ str key) : Settled (Quality.setItem lease key v) := by
  unfold Settled
  rw [lookup_setItem_other v hkey]
  exact h

theorem change_of_next {s s' : World Ctx} {i : Ctx} {act : Act}
    (h : next setup s i act = some s') : Change setup s i act s' := by
  unfold next at h
  split at h
  · next hp =>
    split at h
    · obtain rfl := Option.some.inj h
      exact .aside _ _ (by rw [hp]; rfl) rfl rfl
    · split at h
      all_goals
        obtain rfl := Option.some.inj h
        exact .aside _ _ (by rw [hp]; rfl) rfl rfl
  · next row opened hp =>
    obtain rfl := Option.some.inj h
    cases opened with
    | true => exact .aside _ _ (by rw [hp]; rfl) rfl rfl
    | false => exact .aside _ _ (by rw [hp]; rfl) rfl rfl
  · next row locked hp =>
    cases locked with
    | false =>
      obtain rfl := Option.some.inj h
      exact .aside _ _ (by rw [hp]; rfl) rfl rfl
    | true =>
      rw [if_pos rfl] at h
      split at h
      · next hfree =>
        obtain rfl := Option.some.inj h
        exact .locked row (by rw [hp]; rfl) (Option.isNone_iff_eq_none.mp hfree)
      · cases h
  · next row before now hp =>
    obtain rfl := Option.some.inj h
    exact .granted _ row _ hp
  · next row e now hp =>
    obtain rfl := Option.some.inj h
    exact .denied _ row hp
  · next row lease after hp =>
    obtain rfl := Option.some.inj h
    exact .verified _ row lease _ hp (settled_releasedLease lease _)
  · next row lease kind text hp =>
    obtain rfl := Option.some.inj h
    exact .failed _ row lease _ _ hp (settled_releasedLease lease _)
  · next row lease written now hp =>
    split at h
    · obtain rfl := Option.some.inj h
      exact .written _ row lease _ hp fun hsettled => hsettled.setItem _ (by decide)
    · next hbad =>
      obtain rfl := Option.some.inj h
      exact .unwritten written now row lease hp (by simpa using hbad)
  · next granted hp =>
    obtain rfl := Option.some.inj h
    exact .unlocked _ granted hp
  · next hp =>
    obtain rfl := Option.some.inj h
    exact .aside _ _ (by rw [hp]; rfl) rfl rfl
  · cases h

end

end Quality
end FlashNext
