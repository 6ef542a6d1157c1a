import FlashNext.Ple.Paths
import FlashNext.Ple.Shared

/-!
# A directory that nobody disturbs

In the quiet world no call fails and nobody else moves the directory; the one file elsewhere that
is read stays as it is.  Every run of a block ends with a value there, and a block that only looks
leaves everything as it was (`Party.Does`).
-/

namespace FlashNext
namespace Ple

open Effect
open Py (Str Value str)
open Text (Bytes)

def File.source (f : File) : SourceFile := ⟨f.stat, f.content, rfl⟩

section

variable {ι : Type}

/-- What is read through a descriptor; `src` is the one file elsewhere. -/
def shown (src : SourceFile) (w : Cache ι) (fd : Fd) : Option SourceFile :=
  match w.own fd with
  | some .foreign => some src
  | some (.file id) => (w.shared.files id).map File.source
  | _ => none

/-- What a call answers where nothing fails. -/
def Good (root : List Str) (euid : Nat) (src : SourceFile) : (op : Op) → Ans op → Cache ι → Prop
  | .lstat d _, a, w =>
    (∃ st, a = .ok st ∧ (w.own d ≠ some (.dir root) → st.kind = .directory)) ∨
      w.own d = some (.dir root) ∧ ∃ e, a = .error e ∧ e.errno = .enoent
  | .fstat fd, a, w => ∃ st, a = .ok st ∧ (∀ file, shown src w fd = some file → st = file.stat) ∧
    (w.own fd = some (.dir root) → st.uid = euid ∧ othersWrite st = false)
  | .pread fd count offset, a, w =>
    ∃ chunk, a = .ok chunk ∧ ∀ file, shown src w fd = some file → file.Tells (.pread fd count offset) a
  | op, a, _ => ¬ Failed op a

/-- The calls of a process in the quiet world. -/
def undisturbed [DecidableEq ι] (root : List Str) (pid : ι → Nat) (euid : Nat) (me : ι)
    (src : SourceFile) : Sem Op Ans (Cache ι) where
  In op := Ans op × Cache ι
  allowed op x w := Moves root pid euid me op w x.1 x.2 ∧ Good root euid src op x.1 w
  step _ x _ := x

/-- There is always a descriptor left. -/
def Room (w : Cache ι) : Prop := ∀ k, ∃ fd, k ≤ fd ∧ w.own fd = none

theorem room_nothing (v : Volume ι) : Room ⟨v, fun _ => none⟩ := fun k => ⟨k, Nat.le_refl k, rfl⟩

/-- The cache with one more descriptor. -/
def opened (w : Cache ι) (fd : Fd) (h : Handle) : Cache ι :=
  ⟨w.shared, Function.update w.own fd (some h)⟩

@[simp] theorem opened_shared (w : Cache ι) (fd : Fd) (h : Handle) :
    (opened w fd h).shared = w.shared := rfl

@[simp] theorem opened_self (w : Cache ι) (fd : Fd) (h : Handle) :
    (opened w fd h).own fd = some h := Function.update_self fd _ _

theorem opened_of_own {w : Cache ι} {fd fd' : Fd} {h h' : Handle} (hfresh : w.own fd = none)
    (hown : w.own fd' = some h') : (opened w fd h).own fd' = some h' := by
  show Function.update w.own fd (some h) fd' = some h'
  rw [Function.update_of_ne, hown]
  rintro rfl
  rw [hfresh] at hown
  cases hown

theorem Room.opened {w : Cache ι} (hw : Room w) (fd : Fd) (h : Handle) : Room (opened w fd h) := by
  intro k
  obtain ⟨fd', hk, hfree⟩ := hw (max k (fd + 1))
  refine ⟨fd', (Nat.le_max_left _ _).trans hk, ?_⟩
  show Function.update w.own fd (some h) fd' = none
  rw [Function.update_of_ne, hfree]
  exact Nat.ne_of_gt ((Nat.le_max_right k (fd + 1)).trans hk)

theorem Room.free {w : Cache ι} (hw : Room w) : ∃ fd, w.own fd = none := by
  obtain ⟨fd, -, hfree⟩ := hw 0
  exact ⟨fd, hfree⟩

theorem Opens.eq_opened {w w' : Cache ι} {fd : Fd} {h : Handle} (ho : Opens w fd h w')
    (hshared : w'.shared = w.shared) : w' = Ple.opened w fd h := by
  cases w'
  obtain ⟨-, hown⟩ := ho
  dsimp only at hown hshared
  rw [hown, hshared]
  rfl

theorem opens_opened {w : Cache ι} {fd : Fd} {h : Handle} (hfree : w.own fd = none) :
    Opens w fd h (opened w fd h) :=
  ⟨hfree, rfl⟩

end

namespace Party

variable {ι : Type} [DecidableEq ι] {Y : Party ι} {src file : SourceFile} {α β : Type}
  {w w₀ : Cache ι} {fd : Fd} {what : Str}

/-- Every run of the program ends with a value, and no call of it gets stuck. -/
abbrev Does (Y : Party ι) (src : SourceFile) (V : α → Cache ι → Prop) (p : CacheM α)
    (w : Cache ι) : Prop :=
  Meets (undisturbed Y.root Y.pid Y.euid Y.me src)
    (Effect.Answered (undisturbed Y.root Y.pid Y.euid Y.me src)) V (fun _ _ => False) p w

/-- The program changes nothing and answers with this. -/
abbrev Looks (Y : Party ι) (src : SourceFile) (a : α) (p : CacheM α) (w : Cache ι) : Prop :=
  Y.Does src (fun b w' => b = a ∧ w' = w) p w

theorem ask_does {op : Op} {V : Ans op → Cache ι → Prop}
    (hans : ∃ a w', Moves Y.root Y.pid Y.euid Y.me op w a w' ∧ Good Y.root Y.euid src op a w)
    (h : ∀ a w', Moves Y.root Y.pid Y.euid Y.me op w a w' → Good Y.root Y.euid src op a w →
      V a w') : Y.Does src V (ask op) w := by
  obtain ⟨a, w', hm, hgood⟩ := hans
  exact Meets.perform ⟨(a, w'), hm, hgood⟩ fun x hx => h x.1 x.2 hx.1 hx.2

theorem orFail_does {V : α → Cache ι → Prop} {r : Except Str α} {a : α} (hr : r = .ok a)
    (h : V a w) : Y.Does src V (orFail r) w := by
  subst hr
  exact h

theorem orFail_looks {r : Except Str α} {a : α} (hr : r = .ok a) : Y.Looks src a (orFail r) w :=
  orFail_does hr ⟨rfl, rfl⟩

/-- A look and then something else. -/
theorem Looks.seq {V : β → Cache ι → Prop} {p : CacheM α} {f : α → CacheM β} {a : α}
    (hp : Y.Looks src a p w) (hf : Y.Does src V (f a) w) : Y.Does src V (p >>= f) w := by
  refine Meets.seq hp fun b w' hb => ?_
  obtain ⟨rfl, rfl⟩ := hb
  exact hf

/-! ## Descriptors -/

theorem openRoot_does (hroom : Room w) :
    Y.Does src (fun fd w' => w.own fd = none ∧ w' = opened w fd (.dir []))
      (orOs (ask .openRoot)) w := by
  obtain ⟨free, hfree⟩ := hroom.free
  refine Meets.orOs (ask_does ⟨.ok free, _, ⟨opens_opened hfree, rfl⟩, by rintro ⟨e, he⟩; cases he⟩
    fun a w' hm hgood => ?_)
  cases a with
  | ok fd => exact ⟨hm.1.1, hm.1.eq_opened hm.2⟩
  | error e => exact hgood ⟨e, rfl⟩

theorem openDir_ask_does {d : Fd} {p : List Str} {part : Str} (hroom : Room w)
    (hd : w.own d = some (.dir p)) :
    Y.Does src (fun a w' => ∃ fd, a = .ok fd ∧ w.own fd = none ∧
      w' = opened w fd (.dir (p ++ [part]))) (ask (.openDir d part)) w := by
  obtain ⟨free, hfree⟩ := hroom.free
  refine ask_does ⟨.ok free, _, ⟨p, hd, opens_opened hfree, rfl⟩, by rintro ⟨e, he⟩; cases he⟩
    fun a w' hm hgood => ?_
  cases a with
  | ok fd =>
    obtain ⟨p', hp', ho, hshared⟩ := hm
    obtain rfl := Handle.dir.inj (Option.some.inj (hd.symm.trans hp'))
    exact ⟨fd, rfl, ho.1, ho.eq_opened hshared⟩
  | error e => exact absurd ⟨e, rfl⟩ hgood

/-- A descriptor that holds no lock is closed. -/
theorem close_does {h : Handle} (hfresh : w.own fd = none) (hlock : ∀ id, h ≠ .lock id) :
    Y.Does src (fun _ w' => w' = w) (orOs (ask (.close fd))) (opened w fd h) := by
  have hgone : Function.update (opened w fd h).own fd none = w.own := by
    show Function.update (Function.update w.own fd (some h)) fd none = w.own
    rw [Function.update_idem, ← hfresh, Function.update_eq_self]
  have hmoves : Moves Y.root Y.pid Y.euid Y.me (.close fd) (opened w fd h) (.ok ()) w := by
    refine ⟨hgone.symm, ?_⟩
    rw [opened_self]
    cases h with
    | lock id => exact absurd rfl (hlock id)
    | _ => rfl
  refine Meets.orOs (ask_does ⟨.ok (), w, hmoves, by rintro ⟨e, he⟩; cases he⟩ fun a w' hm hgood => ?_)
  cases a with
  | error e => exact hgood ⟨e, rfl⟩
  | ok r =>
    obtain ⟨hown, hshared⟩ := hm
    rw [hgone] at hown
    rw [opened_self] at hshared
    have hshared : w'.shared = w.shared := by
      cases h with
      | lock id => exact absurd rfl (hlock id)
      | _ => exact hshared
    show w' = w
    cases w'
    cases w
    dsimp only at hown hshared
    rw [hown, hshared]

/-- What was opened later stays open. -/
theorem close_under_does {h h' : Handle} {fd' : Fd} (hfresh : w.own fd = none)
    (hfresh' : (opened w fd h).own fd' = none) (hlock : ∀ id, h ≠ .lock id) :
    Y.Does src (fun _ w' => w.own fd' = none ∧ w' = opened w fd' h') (orOs (ask (.close fd)))
      (opened (opened w fd h) fd' h') := by
  have hne : fd' ≠ fd := by
    rintro rfl
    rw [opened_self] at hfresh'
    cases hfresh'
  have hfree : w.own fd' = none := by
    rw [← hfresh']
    exact (Function.update_of_ne hne _ _).symm
  have hcomm : opened (opened w fd h) fd' h' = opened (opened w fd' h') fd h := by
    show View.mk _ _ = View.mk _ _
    rw [opened, opened, Function.update_comm hne.symm]
  have hfree' : (opened w fd' h').own fd = none := by
    rw [← hfresh]
    exact Function.update_of_ne hne.symm _ _
  rw [hcomm]
  exact (close_does hfree' hlock).mono (fun _ _ hv => ⟨hfree, hv⟩) fun _ _ e => e

/-- A block over a descriptor that was opened for it. -/
theorem closing_does {h : Handle} {V : α → Prop} {p : CacheM α} (hfresh : w.own fd = none)
    (hlock : ∀ id, h ≠ .lock id)
    (hp : Y.Does src (fun a w' => w' = opened w fd h ∧ V a) p (opened w fd h)) :
    Y.Does src (fun a w' => w' = w ∧ V a) (p.finally_ (orOs (ask (.close fd)))) (opened w fd h) := by
  refine Meets.finally_ (hp.mono (fun a v hv => ?_) fun _ _ h => h.elim)
  obtain ⟨rfl, ha⟩ := hv
  exact (close_does hfresh hlock).mono (fun _ _ h => ⟨h, ha⟩) fun _ _ h => h

theorem walkDirs_does {create : Bool} {cur : Fd} {p parts : List Str} (hroom : Room w)
    (hfresh : w.own cur = none) :
    Y.Does src (fun fd w' => w.own fd = none ∧ w' = opened w fd (.dir (p ++ parts)))
      (walkDirs what create cur parts) (opened w cur (.dir p)) := by
  induction parts generalizing cur p with
  | nil =>
    rw [walkDirs, List.append_nil]
    exact ⟨hfresh, rfl⟩
  | cons part parts ih =>
    rw [walkDirs]
    refine Meets.seq (V := fun child w' => w.own child = none ∧
      w' = opened w child (.dir (p ++ [part]))) (Meets.handle (Meets.mono (V := fun child w' =>
        w.own child = none ∧ w' = opened w child (.dir (p ++ [part]))) (R := fun _ _ => False)
        (Meets.handle ?_) (fun _ _ h => h) fun _ _ h => h.elim)) fun child w' hgot => ?_
    · refine Meets.mono (R := fun _ _ => False) ?_ (fun _ _ h => h) fun _ _ h => h.elim
      refine Meets.seq (V := fun child w' => (opened w cur (.dir p)).own child = none ∧
        w' = opened (opened w cur (.dir p)) child (.dir (p ++ [part]))) ?_
        fun child w' hgot => ?_
      · refine Meets.seq (openDir_ask_does (hroom.opened _ _) (opened_self w cur _))
          fun a w' hgot => ?_
        obtain ⟨child, ha, hchild⟩ := hgot
        subst ha
        exact hchild
      · obtain ⟨hchild, hw'⟩ := hgot
        subst hw'
        exact Meets.seq (close_under_does hfresh hchild fun id h => by cases h) fun _ v hv => hv
    · obtain ⟨hchild, hw'⟩ := hgot
      subst hw'
      have hrest := ih (p := p ++ [part]) hchild
      rw [List.append_assoc] at hrest
      exact hrest

theorem openDir_does {path : Str} {create : Bool} {parts : List Str} (hroom : Room w)
    (hparts : pathComponents path what = .ok parts) :
    Y.Does src (fun fd w' => w.own fd = none ∧ w' = opened w fd (.dir parts))
      (openDir path what create) w := by
  refine (orFail_looks hparts).seq (Meets.seq (openRoot_does hroom) fun cur w' hgot => ?_)
  obtain ⟨hfresh, hw'⟩ := hgot
  subst hw'
  exact walkDirs_does (p := []) hroom hfresh

/-! ## Names -/

theorem lstat_found {d : Fd} {name : Str} {id : FileId} {f : File}
    (hd : w.own d = some (.dir Y.root)) (hid : w.shared.names name = some id)
    (hf : w.shared.files id = some f) : Y.Looks src (.ok f.stat) (ask (.lstat d name)) w := by
  refine ask_does ⟨.ok f.stat, w, ⟨rfl, fun _ => ⟨id, f, hid, hf, rfl⟩⟩,
    .inl ⟨f.stat, rfl, fun h => absurd hd h⟩⟩ fun a w' hm hgood => ?_
  obtain ⟨rfl, hm⟩ := hm
  have hm := hm hd
  rcases hgood with ⟨st, rfl, -⟩ | ⟨-, e, rfl, he⟩
  · obtain ⟨id', f', hid', hf', rfl⟩ := hm
    obtain rfl := Option.some.inj (hid.symm.trans hid')
    obtain rfl := Option.some.inj (hf.symm.trans hf')
    exact ⟨rfl, rfl⟩
  · rw [hm he] at hid
    cases hid

theorem lstat_elsewhere {d : Fd} {name : Str} (hd : w.own d ≠ some (.dir Y.root)) :
    Y.Does src (fun a w' => (∃ st, a = .ok st ∧ st.kind = .directory) ∧ w' = w)
      (ask (.lstat d name)) w := by
  refine ask_does ⟨.ok ⟨0, 0, 0, 0, 0, .directory, 0, 0, 0⟩, w, ⟨rfl, fun h => absurd h hd⟩,
    .inl ⟨_, rfl, fun _ => rfl⟩⟩ fun a w' hm hgood => ?_
  rcases hgood with ⟨st, rfl, hst⟩ | ⟨h, -⟩
  · exact ⟨⟨st, rfl, hst hd⟩, hm.1⟩
  · exact absurd h hd

/-- A path is resolved where the last component is no link; in the cache it has to be there. -/
theorem resolveAnchored_looks {path : Str} {parts : List Str} (hroom : Room w)
    (hparts : pathComponents path what = .ok parts)
    (hlast : ∀ last, parts = Y.root ++ [last] → ∃ id f, w.shared.names last = some id ∧
      w.shared.files id = some f ∧ f.kind = .regular) :
    Y.Looks src path (resolveAnchored path what) w := by
  obtain ⟨hpath, hnul, hplain⟩ := pathComponents_text hparts
  refine (orFail_looks hparts).seq ?_
  rcases List.eq_nil_or_concat parts with rfl | ⟨init, last, hconcat⟩
  · exact ⟨rfl, rfl⟩
  rw [List.concat_eq_append] at hconcat
  subst hconcat
  rw [List.getLast?_append, List.getLast?_singleton]
  have hinit : ∀ part ∈ init, Py.Plain part := fun part h => hplain part (List.mem_append_left _ h)
  have hslash : 47 ∉ last := (hplain last (by simp)).noSlash
  have hdir : ∀ what', pathComponents (dirname path) what' = .ok init := by
    intro what'
    rw [hpath, dirname_pathText hslash hinit]
    refine pathComponents_pathText _ (fun h0 => hnul ?_) hinit
    rw [hpath, pathText_snoc]
    by_cases hnil : init = []
    · subst hnil
      cases h0 with
      | tail _ h => cases h
    · rw [front, if_neg hnil]
      exact List.mem_append_left _ h0
  dsimp only [Option.some_or]
  refine Meets.seq (openDir_does hroom (hdir _)) fun parent w' hgot => ?_
  obtain ⟨hfresh, hw'⟩ := hgot
  subst hw'
  refine Meets.seq (closing_does (V := fun _ => True) hfresh (fun id h => by cases h)
    (Meets.seq (V := fun st w' => st.kind ≠ .symlink ∧ w' = opened w parent (.dir init))
      (Meets.orCache ?_) fun st w' hgot => ?_)) fun _ w' hw' => ⟨rfl, hw'.1⟩
  · by_cases hroot : init = Y.root
    · obtain ⟨id, f, hid, hf, hregular⟩ := hlast last (by rw [hroot])
      have hown : (opened w parent (.dir init)).own parent = some (.dir Y.root) := by
        rw [opened_self, hroot]
      refine (lstat_found (w := opened w parent (.dir init)) hown hid hf).mono
        (fun a w' ha => ?_) fun _ _ h => h
      obtain ⟨rfl, rfl⟩ := ha
      refine ⟨fun h => ?_, rfl⟩
      rw [show f.stat.kind = f.kind from rfl, hregular] at h
      cases h
    · refine (lstat_elsewhere fun h => ?_).mono (fun a w' ha => ?_) fun _ _ h => h
      · rw [opened_self] at h
        exact hroot (Handle.dir.inj (Option.some.inj h))
      · obtain ⟨⟨st, rfl, hst⟩, rfl⟩ := ha
        refine ⟨fun h => ?_, rfl⟩
        rw [hst] at h
        cases h
  · obtain ⟨hkind, hw'⟩ := hgot
    subst hw'
    refine orFail_does (a := ()) ?_ ⟨rfl, trivial⟩
    rw [reject_ok, decide_eq_false_iff_not]
    exact hkind

theorem ensureDirAnchored_looks {path : Str} {parts : List Str} (hroom : Room w)
    (hparts : pathComponents path what = .ok parts) :
    Y.Looks src path (ensureDirAnchored path what) w := by
  refine Meets.seq (openDir_does hroom hparts) fun fd w' hgot => ?_
  obtain ⟨hfresh, hw'⟩ := hgot
  subst hw'
  exact Meets.seq (close_does hfresh fun id h => by cases h) fun _ v hv => ⟨rfl, hv⟩

/-! ## Leaves -/

theorem openLeaf_found {d : Fd} {name : Str} {create : Bool} {id : FileId} (hroom : Room w)
    (hd : w.own d = some (.dir Y.root)) (hid : w.shared.names name = some id) :
    Y.Does src (fun fd w' => w.own fd = none ∧ w' = opened w fd (.file id))
      (openLeaf d name what create) w := by
  obtain ⟨free, hfree⟩ := hroom.free
  have hmoves : Moves Y.root Y.pid Y.euid Y.me (.openLeaf d name create) w (.ok free)
      (opened w free (.file id)) := by
    refine ⟨Y.root, hd, ?_⟩
    rw [if_pos rfl]
    exact ⟨id, opens_opened hfree, .inl ⟨hid, rfl⟩⟩
  refine Meets.orCache (ask_does ⟨_, _, hmoves, by rintro ⟨e, he⟩; cases he⟩ fun a w' hm hgood => ?_)
  cases a with
  | error e => exact hgood ⟨e, rfl⟩
  | ok fd =>
    obtain ⟨p, hp, hm⟩ := hm
    obtain rfl := Handle.dir.inj (Option.some.inj (hd.symm.trans hp))
    rw [if_pos rfl] at hm
    obtain ⟨id', ho, ⟨hid', hshared⟩ | ⟨-, hc⟩⟩ := hm
    · obtain rfl := Option.some.inj (hid.symm.trans hid')
      exact ⟨ho.1, ho.eq_opened hshared⟩
    · rw [hc.absent] at hid
      cases hid

theorem openLeaf_elsewhere {d : Fd} {p : List Str} {name : Str} {create : Bool} (hroom : Room w)
    (hd : w.own d = some (.dir p)) (hp : p ≠ Y.root) :
    Y.Does src (fun fd w' => w.own fd = none ∧ w' = opened w fd .foreign)
      (openLeaf d name what create) w := by
  obtain ⟨free, hfree⟩ := hroom.free
  have hmoves : Moves Y.root Y.pid Y.euid Y.me (.openLeaf d name create) w (.ok free)
      (opened w free .foreign) := by
    refine ⟨p, hd, ?_⟩
    rw [if_neg hp]
    exact ⟨opens_opened hfree, rfl⟩
  refine Meets.orCache (ask_does ⟨_, _, hmoves, by rintro ⟨e, he⟩; cases he⟩ fun a w' hm hgood => ?_)
  cases a with
  | error e => exact hgood ⟨e, rfl⟩
  | ok fd =>
    obtain ⟨p', hp', hm⟩ := hm
    obtain rfl := Handle.dir.inj (Option.some.inj (hd.symm.trans hp'))
    rw [if_neg hp] at hm
    exact ⟨hm.1.1, hm.1.eq_opened hm.2⟩

theorem lstat?_found {d : Fd} {name : Str} {id : FileId} {f : File}
    (hd : w.own d = some (.dir Y.root)) (hid : w.shared.names name = some id)
    (hf : w.shared.files id = some f) : Y.Looks src (some f.stat) (lstat? d name) w :=
  (lstat_found hd hid hf).seq ⟨rfl, rfl⟩

theorem openExisting_found {d : Fd} {name : Str} {id : FileId} {f : File} (hroom : Room w)
    (hd : w.own d = some (.dir Y.root)) (hid : w.shared.names name = some id)
    (hf : w.shared.files id = some f) (hregular : f.kind = .regular) :
    Y.Does src (fun o w' => ∃ fd, o = some fd ∧ w.own fd = none ∧ w' = opened w fd (.file id))
      (openExisting d name what) w := by
  refine (lstat?_found hd hid hf).seq ?_
  have hkind : f.stat.kind = .regular := hregular
  refine (orFail_looks (a := ()) ?_).seq ((orFail_looks (a := ()) ?_).seq ?_)
  · rw [hkind]
    rfl
  · rw [hkind]
    rfl
  · exact Meets.seq (openLeaf_found hroom hd hid) fun fd w' h => ⟨fd, rfl, h⟩

/-! ## Reading -/

/-- The calls that read one file. -/
def Reads (fd : Fd) : Op → Prop
  | .fstat fd' | .pread fd' _ _ | .fadvise fd' _ _ => fd' = fd
  | _ => False

/-- What is read of a file where it stays as it is, is read here. -/
theorem reads_look {p : CacheM α} {a : α} (hp : p.Calls (Reads fd))
    (hshown : shown src w fd = some file) (hsmall : file.stat.snapshot.Small)
    (h : Computes file False p (.ok a)) : Y.Looks src a p w := by
  have hat : ∀ id, fileAt w fd = some id → ∃ f, w.shared.files id = some f ∧ f.source = file := by
    intro id hid
    rw [fileAt] at hid
    cases hown : w.own fd with
    | none =>
      rw [hown] at hid
      cases hid
    | some hd =>
      rw [hown] at hid
      cases hd with
      | dir p => cases hid
      | foreign => cases hid
      | lock id' =>
        rw [shown, hown] at hshown
        cases hshown
      | file id' =>
        obtain rfl := Option.some.inj hid
        rw [shown, hown] at hshown
        exact Option.map_eq_some_iff.mp hshown
  refine (Meets.simulate (T := undisturbed Y.root Y.pid Y.euid Y.me src) (R := fun _ u => u = w) hp
    (fun op _ u hop hu _ => ?_) (fun op _ u x hop hu hx => ?_) h rfl).mono
    (fun b w' hb => ?_) fun e w' he => ?_
  · subst hu
    cases op with
    | fstat fd' =>
      obtain rfl : fd' = fd := hop
      refine ⟨(.ok file.stat, u), ⟨rfl, fun st hst => ?_⟩, file.stat, rfl, fun file' h' => ?_,
        fun hdir => ?_⟩
      · obtain rfl := Except.ok.inj hst
        refine ⟨hsmall, fun id hid => ?_⟩
        obtain ⟨f, hf, rfl⟩ := hat id hid
        exact ⟨f, hf, rfl⟩
      · obtain rfl := Option.some.inj (hshown.symm.trans h')
        rfl
      · rw [shown, hdir] at hshown
        cases hshown
    | pread fd' count offset =>
      obtain rfl : fd' = fd := hop
      refine ⟨(.ok (slice file.content offset count), u), ⟨rfl, fun chunk hchunk => ?_⟩, _, rfl,
        fun file' h' => ?_⟩
      · obtain rfl := Except.ok.inj hchunk
        refine ⟨List.length_take_le _ _, fun id hid => ?_⟩
        obtain ⟨f, hf, rfl⟩ := hat id hid
        exact ⟨f, hf, List.prefix_rfl⟩
      · obtain rfl := Option.some.inj (hshown.symm.trans h')
        exact ⟨_, rfl, List.prefix_rfl, fun h => h⟩
    | fadvise fd' offset count =>
      exact ⟨(.ok (), u), rfl, by rintro ⟨e, he⟩; cases he⟩
    | _ => exact hop.elim
  · subst hu
    cases op with
    | fstat fd' =>
      obtain rfl : fd' = fd := hop
      obtain ⟨hm, st, hst, hgood, -⟩ := hx
      exact ⟨x.1, .inl (by rw [hst, hgood file hshown]; rfl), rfl, hm.1⟩
    | pread fd' count offset =>
      obtain rfl : fd' = fd := hop
      obtain ⟨hm, chunk, hchunk, hgood⟩ := hx
      exact ⟨x.1, .inl (hgood file hshown), rfl, hm.1⟩
    | fadvise fd' offset count => exact ⟨x.1, .inl trivial, rfl, hx.1⟩
    | _ => exact hop.elim
  · obtain ⟨_, hok, rfl⟩ := hb
    exact ⟨(Except.ok.inj hok).symm, rfl⟩
  · obtain ⟨_, hfail | ⟨text, -, herror⟩, -⟩ := he
    · exact hfail
    · cases herror

end Party

end Ple
end FlashNext
