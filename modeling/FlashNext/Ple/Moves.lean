import FlashNext.Ple.Volume

/-!
# What a call does to the directory

The directory of the cache lies at a fixed path; what a process opens elsewhere is `foreign` and
answers as it likes.
-/

namespace FlashNext
namespace Ple

open Effect
open Py (Str Value str)
open Text (Bytes)
open Posix

/-- What an open descriptor stands for. -/
inductive Handle where
  | dir (path : List Str)
  | file (id : FileId)
  /-- A file whose lock was taken through this descriptor. -/
  | lock (id : FileId)
  | foreign

def Handle.id? : Handle → Option FileId
  | .file id => some id
  | .lock id => some id
  | _ => none

abbrev Fds := Fd → Option Handle

/-- The directory as one process sees it, with its open files. -/
abbrev Cache (ι : Type) := View (Volume ι) Fds

section

variable {ι : Type}

/-- The file of the cache that is open. -/
def fileAt (w : Cache ι) (fd : Fd) : Option FileId := (w.own fd).bind Handle.id?

/-! ## Steps of the volume -/

/-- A new file under a name that was free. -/
structure Created (euid : Nat) (n : Str) (kind : FileKind) (id : FileId) (v v' : Volume ι) :
    Prop where
  absent : v.names n = none
  free : v.files id = none
  names : v'.names = Function.update v.names n (some id)
  file : ∃ f, v'.files = Function.update v.files id (some f) ∧ f.content = [] ∧ f.kind = kind ∧
    f.nlink = 1 ∧ f.uid = euid ∧ othersWrite f.stat = false
  locked : v'.locked = v.locked
  history : History v v'

/-- The bytes of a file are others. -/
structure Rewritten (id : FileId) (c : Bytes → Bytes) (v v' : Volume ι) : Prop where
  names : v'.names = v.names
  file : ∃ f f', v.files id = some f ∧ v'.files = Function.update v.files id (some f') ∧
    f'.content = c f.content ∧ f'.kind = f.kind ∧ f'.nlink = f.nlink ∧ f'.uid = f.uid ∧
    f'.mode = f.mode
  locked : v'.locked = v.locked
  history : History v v'

/-- Names are others, and files may have a new stat for it. -/
structure Renamed (names : Str → Option FileId) (v v' : Volume ι) : Prop where
  names : v'.names = names
  files : ∀ id, v'.files id = v.files id ∨ ∃ f f', v.files id = some f ∧ v'.files id = some f' ∧
    f'.content = f.content ∧ f'.kind = f.kind ∧ f'.uid = f.uid ∧ f'.mode = f.mode
  locked : v'.locked = v.locked
  history : History v v'

/-- The lock of a file passes to someone, or to nobody. -/
def Volume.relock [DecidableEq ι] (v : Volume ι) (id : FileId) (holder : Option ι) : Volume ι :=
  { v with locked := Function.update v.locked id holder }

/-- A descriptor that was free stands for something now. -/
def Opens (w : Cache ι) (fd : Fd) (h : Handle) (w' : Cache ι) : Prop :=
  w.own fd = none ∧ w'.own = Function.update w.own fd (some h)

/-- What holds of an answer, and what of a failure. -/
def Tried {α : Type} (a : Except OsError α) (ok : α → Prop) (failed : Prop) : Prop :=
  match a with
  | .ok a => ok a
  | .error _ => failed

variable [DecidableEq ι] (root : List Str) (pid : ι → Nat) (euid : Nat) (me : ι)

/-- The calls of a process. -/
def Moves : (op : Op) → Cache ι → Ans op → Cache ι → Prop
  | .openRoot, w, a, w' =>
    Tried a (fun fd => Opens w fd (.dir []) w' ∧ w'.shared = w.shared) (w' = w)
  | .openDir d name, w, a, w' =>
    Tried a (fun fd => ∃ p, w.own d = some (.dir p) ∧ Opens w fd (.dir (p ++ [name])) w' ∧
      w'.shared = w.shared) (w' = w)
  | .mkdir d name, w, a, w' =>
    Tried a (fun _ => ∃ p, w.own d = some (.dir p) ∧ if p = root then
        w'.own = w.own ∧ ∃ id, Created euid name .directory id w.shared w'.shared
      else w' = w) (w' = w)
  | .lstat d name, w, a, w' =>
    w' = w ∧ (w.own d = some (.dir root) → match a with
      | .ok st => ∃ id f, w.shared.names name = some id ∧ w.shared.files id = some f ∧ st = f.stat
      | .error e => e.errno = .enoent → w.shared.names name = none)
  | .openLeaf d name create, w, a, w' =>
    Tried a (fun fd => ∃ p, w.own d = some (.dir p) ∧ if p = root then
        ∃ id, Opens w fd (.file id) w' ∧
          (w.shared.names name = some id ∧ w'.shared = w.shared ∨
            create = true ∧ Created euid name .regular id w.shared w'.shared)
      else Opens w fd .foreign w' ∧ w'.shared = w.shared) (w' = w)
  | .openTemp d name, w, a, w' =>
    Tried a (fun fd => ∃ p, w.own d = some (.dir p) ∧ if p = root then
        ∃ id, Opens w fd (.file id) w' ∧ Created euid name .regular id w.shared w'.shared
      else Opens w fd .foreign w' ∧ w'.shared = w.shared) (w' = w)
  | .fstat fd, w, a, w' =>
    w' = w ∧ ∀ st, a = .ok st → st.snapshot.Small ∧
      ∀ id, fileAt w fd = some id → ∃ f, w.shared.files id = some f ∧ st = f.stat
  | .statvfs _, w, _, w' => w' = w
  | .pread fd count offset, w, a, w' =>
    w' = w ∧ ∀ chunk, a = .ok chunk → chunk.length ≤ count ∧
      ∀ id, fileAt w fd = some id → ∃ f, w.shared.files id = some f ∧
        chunk <+: (f.content.drop offset).take count
  | .pwrite fd data offset, w, a, w' =>
    -- a call that fails may have moved some of the data
    w'.own = w.own ∧ ∃ n, n ≤ data.length ∧ (∀ m, a = .ok m → m = n) ∧
      match fileAt w fd with
      | some id => Rewritten id (fun old => overwrite 0 old (data.take n) offset) w.shared w'.shared ∨
          n = 0 ∧ w'.shared = w.shared
      | none => w'.shared = w.shared
  | .ftruncate fd size, w, a, w' =>
    w'.own = w.own ∧ Tried a (fun _ => match fileAt w fd with
        | some id => Rewritten id (fun old => resize 0 old size) w.shared w'.shared
        | none => w'.shared = w.shared) (w'.shared = w.shared)
  | .fdatasync _, w, _, w' => w' = w
  | .fadvise _ _ _, w, _, w' => w' = w
  | .fsync _, w, _, w' => w' = w
  | .flock fd, w, a, w' =>
    Tried a (fun _ => match w.own fd with
      | some (.file id) => w.shared.locked id = none ∧ w'.shared = w.shared.relock id (some me) ∧
          w'.own = Function.update w.own fd (some (.lock id))
      | _ => w' = w) (w' = w)
  | .close fd, w, _, w' =>
    -- the descriptor is free again, whatever the call answers
    w'.own = Function.update w.own fd none ∧ match w.own fd with
      | some (.lock id) =>
        w'.shared = if w.shared.locked id = some me then w.shared.relock id none else w.shared
      | _ => w'.shared = w.shared
  | .replace d source target, w, a, w' =>
    Tried a (fun _ => ∃ p, w.own d = some (.dir p) ∧ if p = root then
        w'.own = w.own ∧ ∃ id, w.shared.names source = some id ∧
          Renamed (Function.update (Function.update w.shared.names source none) target (some id))
            w.shared w'.shared
      else w' = w) (w' = w)
  | .unlink d name, w, a, w' =>
    Tried a (fun _ => ∃ p, w.own d = some (.dir p) ∧ if p = root then
        w'.own = w.own ∧ Renamed (Function.update w.shared.names name none) w.shared w'.shared
      else w' = w) (w' = w)
  | .geteuid, w, a, w' => w' = w ∧ a = euid
  | .tempSuffix, w, a, w' =>
    w' = w ∧ ∃ hex, isTempHex hex = true ∧ a = number (pid me) ++ str "-" ++ hex
  | .monotonic, w, _, w' => w' = w

/-- The calls as a semantics: the world picks the answer and what becomes of it. -/
def calls : Sem Op Ans (Cache ι) where
  In op := Ans op × Cache ι
  allowed op x w := Moves root pid euid me op w x.1 x.2
  step _ x _ := x

/-- The calls that only look. -/
def Op.quiet : Op → Bool
  | .lstat _ _ | .fstat _ | .statvfs _ | .pread _ _ _ | .fdatasync _ | .fadvise _ _ _ | .fsync _
  | .geteuid | .tempSuffix | .monotonic => true
  | _ => false

variable {root pid euid me}

theorem Moves.quiet {op : Op} {a : Ans op} {w w' : Cache ι} (hop : op.quiet = true)
    (h : Moves root pid euid me op w a w') : w' = w := by
  cases op with
  | lstat d n => exact h.1
  | fstat fd => exact h.1
  | statvfs fd => exact h
  | pread fd count offset => exact h.1
  | fdatasync fd => exact h
  | fadvise fd offset count => exact h
  | fsync fd => exact h
  | geteuid => exact h.1
  | tempSuffix => exact h.1
  | monotonic => exact h
  | _ => cases hop

/-- The lock of an open file is taken. -/
theorem Moves.flock {fd : Fd} {id : FileId} {u : Unit} {w w' : Cache ι}
    (h : Moves root pid euid me (.flock fd) w (.ok u) w') (hown : w.own fd = some (.file id)) :
    w.shared.locked id = none ∧ w'.shared = w.shared.relock id (some me) ∧
      w'.own = Function.update w.own fd (some (.lock id)) := by
  simp only [Moves, Tried, hown] at h
  exact h

end

/-! ## The steps and the contract -/

section

variable {ι : Type} {pid : ι → Nat} {calm : Prop} {me : ι}
  {G : Str → Bytes → Volume ι → Prop}
  {P : Str → Prop} {v v' : Volume ι}

/-- A file that exists keeps its bytes when another is made. -/
theorem Created.content {euid : Nat} {n : Str} {kind : FileKind} {id id' : FileId} {f : File}
    (h : Created euid n kind id v v') (hf : v.files id' = some f) : v'.files id' = some f := by
  obtain ⟨g, hfiles, -⟩ := h.file
  have hid : id' ≠ id := by
    rintro rfl
    rw [h.free] at hf
    cases hf
  rw [hfiles, Function.update_of_ne hid]
  exact hf

theorem Renamed.content {names : Str → Option FileId} {id : FileId} {f : File}
    (h : Renamed names v v') (hf : v.files id = some f) :
    ∃ f', v'.files id = some f' ∧ f'.content = f.content := by
  rcases h.files id with heq | ⟨g, g', hg, hg', hc, -⟩
  · exact ⟨f, heq ▸ hf, rfl⟩
  · obtain rfl := Option.some.inj (hf.symm.trans hg)
    exact ⟨g', hg', hc⟩

theorem Rewritten.content_ne {id id' : FileId} {c : Bytes → Bytes} {f : File}
    (h : Rewritten id c v v') (hid : id' ≠ id) (hf : v.files id' = some f) :
    v'.files id' = some f := by
  obtain ⟨g, g', -, hfiles, -⟩ := h.file
  rw [hfiles, Function.update_of_ne hid]
  exact hf

theorem Created.name_ne {euid : Nat} {n m : Str} {kind : FileKind} {id : FileId}
    (h : Created euid n kind id v v') (hm : m ≠ n) : v'.names m = v.names m := by
  rw [h.names, Function.update_of_ne hm]

/-- Making a file changes no name that stands for one. -/
theorem Created.name_some {euid : Nat} {n m : Str} {kind : FileKind} {id id' : FileId}
    (h : Created euid n kind id v v') (hm : v.names m = some id') : v'.names m = some id' := by
  rw [h.name_ne, hm]
  rintro rfl
  rw [h.absent] at hm
  cases hm

/-! ### Making a file -/

/-- A file is made for a lock, or under a temporary name of one's own. -/
theorem Created.acts {euid : Nat} {n : Str} {kind : FileKind} {id : FileId}
    (h : Created euid n kind id v v') (hn : IsLock n ∨ TempOf (pid me) n) : Acts pid me G v v' where
  history := h.history
  names m := by
    by_cases hm : m = n
    · subst hm
      rcases hn with hn | hn
      · exact .inr (.inr (.inl ⟨h.absent, hn⟩))
      · refine .inr (.inl ⟨hn, fun id' hid => ?_⟩)
        rw [h.names, Function.update_self] at hid
        obtain rfl := Option.some.inj hid
        exact h.free
    · exact .inl (h.name_ne hm)
  contents id' f hf := ⟨f, h.content hf, .inl rfl⟩
  locks id' := .inl (by rw [h.locked])

theorem Created.keep {euid : Nat} {n : Str} {kind : FileKind} {id : FileId}
    (h : Created euid n kind id v v') (hn : ¬ (P n ∧ Protected pid me v n)) :
    Keep pid calm me P v v' where
  history := h.history
  lockNames t id' ht := h.name_some ht
  locks id' hl := by
    rw [h.locked]
    exact hl
  same m hP hm := by
    refine ⟨h.name_ne ?_, fun id' f _ hf => ⟨f, h.content hf, rfl⟩⟩
    rintro rfl
    exact hn ⟨hP, hm⟩
  settled _ id' f hf hs := by
    refine ⟨fun p m hm hid => ?_, f, h.content hf, rfl⟩
    by_cases hmn : m = n
    · subst hmn
      rw [h.names, Function.update_self] at hid
      obtain rfl := Option.some.inj hid
      rw [h.free] at hf
      cases hf
    · exact hs p m hm (h.name_ne hmn ▸ hid)

/-! ### Writing -/

/-- A write to a temporary file of one's own. -/
theorem Rewritten.acts {n : Str} {id : FileId} {c : Bytes → Bytes} (h : Rewritten id c v v')
    (hn : TempOf (pid me) n) (hid : v.names n = some id) : Acts pid me G v v' where
  history := h.history
  names m := .inl (by rw [h.names])
  contents id' f hf := by
    by_cases heq : id' = id
    · subst heq
      obtain ⟨g, g', -, hfiles, -⟩ := h.file
      exact ⟨g', by rw [hfiles, Function.update_self], .inr ⟨n, hn, hid⟩⟩
    · exact ⟨f, h.content_ne heq hf, .inl rfl⟩
  locks id' := .inl (by rw [h.locked])

theorem Rewritten.keep {n : Str} {id : FileId} {c : Bytes → Bytes} (h : Rewritten id c v v')
    (hn : TempOf (pid me) n) (hid : v.names n = some id) : Keep pid calm me IsTable v v' where
  history := h.history
  lockNames t id' ht := by
    rw [h.names]
    exact ht
  locks id' hl := by
    rw [h.locked]
    exact hl
  same m hP _ := by
    refine ⟨by rw [h.names], fun id' f hm hf => ⟨f, h.content_ne ?_ hf, rfl⟩⟩
    rintro rfl
    -- a temporary file has no second name, and no table has one
    have hmn : m = n := v.alone hn hid hm
    subst hmn
    exact hP.head_ne hn.head
  settled _ := (h.acts (G := fun _ _ _ => True) hn hid).settled

/-! ### Locks -/

theorem Volume.relock_acts [DecidableEq ι] {id : FileId} {holder : Option ι}
    (hold : v.locked id = none ∨ v.locked id = some me) (hnew : holder = none ∨ holder = some me) :
    Acts pid me G v (v.relock id holder) where
  history := History.refl v
  names n := .inl rfl
  contents id' f hf := ⟨f, hf, .inl rfl⟩
  locks id' := by
    show Function.update v.locked id holder id' = _ ∨ _ ∧ (Function.update v.locked id holder id' = _ ∨
      Function.update v.locked id holder id' = _)
    by_cases hid : id' = id
    · subst hid
      rw [Function.update_self]
      exact .inr ⟨hold, hnew⟩
    · exact .inl (Function.update_of_ne hid _ _)

/-- The lock that is taken was free. -/
theorem Volume.relock_keep [DecidableEq ι] {id : FileId} (hfree : v.locked id = none) :
    Keep pid calm me P v (v.relock id (some me)) where
  history := History.refl v
  lockNames t id' ht := ht
  locks id' hl := by
    show Function.update v.locked id (some me) id' = some me
    by_cases hid : id' = id
    · subst hid
      rw [Function.update_self]
    · rw [Function.update_of_ne hid]
      exact hl
  same n _ _ := ⟨rfl, fun id' f _ hf => ⟨f, hf, rfl⟩⟩
  settled _ := Calm.refl v

end

end Ple
end FlashNext
