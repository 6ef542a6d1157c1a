import FlashNext.Posix.Tree
import Mathlib.Data.List.Nodup
import Mathlib.Logic.Function.Basic

/-!
# A file system that others change

Directories lead from names to inodes, so a directory that is renamed takes what is below it along
and none of that changes.  Bytes that are changed, and a file that is renamed, get times that the
file never had: what a file was is kept in a history beside the file system, and two moments at
which the file shows the same times are moments between which nothing happened to it.
-/

namespace FlashNext
namespace Posix

open Text (Bytes)

/-- Device and number. -/
abbrev InodeId := Int × Int

structure Times where
  mtimeNs : Int
  ctimeNs : Int
  deriving DecidableEq

inductive Body where
  | file (data : Bytes)
  | directory (size : Int)
  | symlink (size : Int) (target : String)
  | special (size : Int)

structure Inode where
  times : Times
  body : Body

def Inode.stat (x : Inode) (id : InodeId) (size : Int) : Stat :=
  ⟨id.1, id.2, size, x.times.mtimeNs, x.times.ctimeNs⟩

/-- What `lstat` shows of an inode, and what reading it gives. -/
def Inode.node (x : Inode) (id : InodeId) : Node :=
  match x.body with
  | .file data => .file ⟨id.1, id.2, x.times.mtimeNs, x.times.ctimeNs, data⟩
  | .directory size => .directory (x.stat id size)
  | .symlink size target => .symlink (x.stat id size) target
  | .special size => .special (x.stat id size)

structure FileSystem where
  inode : InodeId → Inode
  /-- The entries of the directories. -/
  entry : InodeId → String → Option InodeId
  root : InodeId
  maxLinks : Nat

namespace FileSystem

variable (F : FileSystem)

/-- The directory the walk stands in. -/
def here (cur : List InodeId) : InodeId := cur.headD F.root

def up : List InodeId → List InodeId
  | _ :: parent :: rest => parent :: rest
  | cur => cur

def base (p : PurePath) (cur : List InodeId) : List InodeId :=
  if p.isAbsolute then [F.root] else cur

/-- Walk the components from a directory, given with those above it.  `follow` continues after a
link. -/
def walkFrom (follow : List InodeId → List String → Except WalkError (List InodeId)) :
    List InodeId → List String → Except WalkError (List InodeId)
  | cur, [] => .ok cur
  | cur, part :: rest =>
    if part = ".." then walkFrom follow (up cur) rest
    else
      match F.entry (F.here cur) part with
      | none => .error .notFound
      | some id =>
        match (F.inode id).body with
        | .symlink _ target =>
          follow (F.base (.ofString target) cur) ((PurePath.ofString target).parts ++ rest)
        | .directory _ => walkFrom follow (id :: cur) rest
        | _ => if rest = [] then .ok (id :: cur) else .error .notDirectory

def walk : Nat → List InodeId → List String → Except WalkError (List InodeId)
  | 0 => F.walkFrom fun _ _ => .error .tooManyLinks
  | links + 1 => F.walkFrom (walk links)

/-! ## The calls, on an absolute path -/

/-- `os.stat(path)`. -/
def stat (p : PurePath) : Except WalkError InodeId :=
  match F.walk F.maxLinks [F.root] p.parts with
  | .ok cur => .ok (F.here cur)
  | .error e => .error e

/-- The directory that the last component of the path is looked up in. -/
def directoryOf (p : PurePath) : Except WalkError InodeId :=
  match F.walk F.maxLinks [F.root] p.parts.dropLast with
  | .ok cur =>
    match (F.inode (F.here cur)).body with
    | .directory _ => .ok (F.here cur)
    | _ => .error .notDirectory
  | .error e => .error e

/-- `os.lstat(path)`: the last component is not followed. -/
def lstat (p : PurePath) : Except WalkError InodeId :=
  match p.parts.getLast? with
  | none => F.stat p
  | some name =>
    if name = ".." then F.stat p
    else
      match F.directoryOf p with
      | .ok dir =>
        match F.entry dir name with
        | some id => .ok id
        | none => .error .notFound
      | .error e => .error e

/-- Opening the path for reading. -/
def openAt (p : PurePath) : Except WalkError InodeId :=
  match F.stat p with
  | .ok id =>
    match (F.inode id).body with
    | .file _ => .ok id
    | _ => .error .notFound
  | .error e => .error e

/-- Up to `count` bytes from an offset on. -/
def read (id : InodeId) (offset count : Nat) : Bytes :=
  match (F.inode id).body with
  | .file data => (data.drop offset).take count
  | _ => []

variable {F}

theorem walkFrom_snoc {follow : List InodeId → List String → Except WalkError (List InodeId)}
    {name : String} {id : InodeId} {stack : List InodeId}
    (hfollow : ∀ cur xs, follow cur xs = .ok stack → follow cur (xs ++ [name]) = .ok (id :: stack))
    (hname : name ≠ "..") (hentry : F.entry (F.here stack) name = some id)
    (hfile : ∃ data, (F.inode id).body = .file data) {size : Int}
    (hdir : (F.inode (F.here stack)).body = .directory size) {xs : List String} :
    ∀ {cur : List InodeId}, F.walkFrom follow cur xs = .ok stack →
      F.walkFrom follow cur (xs ++ [name]) = .ok (id :: stack) := by
  obtain ⟨data, hdata⟩ := hfile
  induction xs with
  | nil =>
    intro cur h
    obtain rfl := Except.ok.inj h
    rw [List.nil_append, walkFrom, if_neg hname]
    simp only [hentry, hdata, if_true]
  | cons part rest ih =>
    intro cur h
    rw [walkFrom] at h
    rw [List.cons_append, walkFrom]
    by_cases hpart : part = ".."
    · rw [if_pos hpart] at h ⊢
      exact ih h
    · rw [if_neg hpart] at h ⊢
      cases hnext : F.entry (F.here cur) part with
      | none =>
        rw [hnext] at h
        cases h
      | some next =>
        rw [hnext] at h
        simp only at h ⊢
        cases hbody : (F.inode next).body with
        | symlink size target =>
          rw [hbody] at h
          simp only at h ⊢
          rw [← List.append_assoc]
          exact hfollow _ _ h
        | directory size =>
          rw [hbody] at h
          exact ih h
        | file data' =>
          rw [hbody] at h
          simp only at h
          split at h
          · -- the walk cannot end at a file
            obtain rfl := Except.ok.inj h
            rw [show F.here (next :: cur) = next from rfl, hbody] at hdir
            cases hdir
          · cases h
        | special size =>
          rw [hbody] at h
          simp only at h
          split at h
          · obtain rfl := Except.ok.inj h
            rw [show F.here (next :: cur) = next from rfl, hbody] at hdir
            cases hdir
          · cases h

theorem walk_snoc {name : String} {id : InodeId} {stack : List InodeId} (hname : name ≠ "..")
    (hentry : F.entry (F.here stack) name = some id)
    (hfile : ∃ data, (F.inode id).body = .file data) {size : Int}
    (hdir : (F.inode (F.here stack)).body = .directory size) {links : Nat} :
    ∀ {cur : List InodeId} {xs : List String}, F.walk links cur xs = .ok stack →
      F.walk links cur (xs ++ [name]) = .ok (id :: stack) := by
  induction links with
  | zero =>
    intro cur xs h
    refine walkFrom_snoc (fun _ _ hf => ?_) hname hentry hfile hdir h
    cases hf
  | succ links ih =>
    intro cur xs h
    exact walkFrom_snoc (fun _ _ hf => ih hf) hname hentry hfile hdir h

theorem directoryOf_ok {p : PurePath} {dir : InodeId} (h : F.directoryOf p = .ok dir) :
    ∃ stack size, F.walk F.maxLinks [F.root] p.parts.dropLast = .ok stack ∧
      F.here stack = dir ∧ (F.inode dir).body = .directory size := by
  unfold directoryOf at h
  split at h
  · next cur hwalk =>
    split at h
    · next size hbody =>
      obtain rfl := Except.ok.inj h
      exact ⟨cur, size, hwalk, rfl, hbody⟩
    · cases h
  · cases h

/-- Where a directory has a file under a name, the path with that name leads to the file. -/
theorem stat_of_entry {p : PurePath} {dir id : InodeId} {name : String}
    (hlast : p.parts.getLast? = some name) (hname : name ≠ "..")
    (hdir : F.directoryOf p = .ok dir) (hentry : F.entry dir name = some id)
    (hfile : ∃ data, (F.inode id).body = .file data) : F.stat p = .ok id := by
  obtain ⟨stack, size, hwalk, rfl, hbody⟩ := directoryOf_ok hdir
  have hparts : p.parts.dropLast ++ [name] = p.parts := List.dropLast_append_getLast? _ hlast
  have hsnoc := walk_snoc hname hentry hfile hbody hwalk
  rw [hparts] at hsnoc
  rw [stat, hsnoc]
  rfl

theorem openAt_of_stat {p : PurePath} {id : InodeId} (h : F.stat p = .ok id)
    (hfile : ∃ data, (F.inode id).body = .file data) : F.openAt p = .ok id := by
  obtain ⟨data, hdata⟩ := hfile
  rw [openAt, h]
  simp only [hdata]

end FileSystem

/-! ## The changes of others -/

inductive Change where
  | write (id : InodeId) (data : Bytes) (times : Times)
  | rename (dir : InodeId) (name : String) (dir' : InodeId) (name' : String) (times : Times)

/-- A file system, and what its inodes were before. -/
structure History where
  fs : FileSystem
  past : InodeId → List Inode

namespace History

variable (h : History)

def versions (id : InodeId) : List Inode := h.fs.inode id :: h.past id

/-- Times that the inode never had. -/
def fresh (id : InodeId) (times : Times) : Bool := (h.versions id).all fun v => v.times ≠ times

def isFile (id : InodeId) : Bool :=
  match (h.fs.inode id).body with
  | .file _ => true
  | _ => false

def isDirectory (id : InodeId) : Bool :=
  match (h.fs.inode id).body with
  | .directory _ => true
  | _ => false

/-- The inode becomes another one. -/
def renew (id : InodeId) (x : Inode) : History where
  fs := { h.fs with inode := Function.update h.fs.inode id x }
  past := Function.update h.past id (h.versions id)

/-- The entry is moved, over another one if there is one. -/
def move (dir : InodeId) (name : String) (dir' : InodeId) (name' : String) (id : InodeId) :
    History where
  fs := { h.fs with
    entry := fun d n =>
      if d = dir' ∧ n = name' then some id
      else if d = dir ∧ n = name then none
      else h.fs.entry d n }
  past := h.past

/-- The inode of a directory stays as it is when it is moved; any other one gets new times. -/
def moveStamped (dir : InodeId) (name : String) (dir' : InodeId) (name' : String) (times : Times)
    (id : InodeId) : History :=
  if h.isDirectory id then h.move dir name dir' name' id
  else (h.move dir name dir' name' id).renew id { h.fs.inode id with times := times }

def apply : Change → History
  | .write id data times => h.renew id ⟨times, .file data⟩
  | .rename dir name dir' name' times =>
    (h.fs.entry dir name).elim h (h.moveStamped dir name dir' name' times)

/-- Others write to files and rename what is there. -/
def allows : Change → Bool
  | .write id _ times => h.isFile id && h.fresh id times
  | .rename dir name _ _ times =>
    (h.fs.entry dir name).any fun id => h.isDirectory id || h.fresh id times

def play (changes : List Change) : History := changes.foldl apply h

def playable (h : History) : List Change → Bool
  | [] => true
  | c :: cs => h.allows c && playable (h.apply c) cs

end History

/-- An inode is as it was, and wherever it stands now it stood then. -/
structure SameFile (a b : History) (id : InodeId) : Prop where
  inode : b.fs.inode id = a.fs.inode id
  past : b.past id = a.past id
  entry : ∀ dir name, b.fs.entry dir name = some id → a.fs.entry dir name = some id

/-- From one moment to a later one every file stays one and keeps its history, and either nothing
happened to it or what it was is history. -/
def Later (a b : History) : Prop :=
  ∀ id, a.isFile id = true → b.isFile id = true ∧ (∀ v ∈ a.past id, v ∈ b.past id) ∧
    (SameFile a b id ∨ a.fs.inode id ∈ b.past id)

/-- No inode had the same times twice. -/
def History.Distinct (h : History) : Prop := ∀ id, ((h.versions id).map (·.times)).Nodup

section

variable {a b c h : History}

theorem SameFile.refl (a : History) (id : InodeId) : SameFile a a id :=
  ⟨rfl, rfl, fun _ _ hentry => hentry⟩

theorem SameFile.trans {id : InodeId} (hab : SameFile a b id) (hbc : SameFile b c id) :
    SameFile a c id :=
  ⟨hbc.inode.trans hab.inode, hbc.past.trans hab.past,
    fun dir name hentry => hab.entry dir name (hbc.entry dir name hentry)⟩

theorem Later.refl (a : History) : Later a a :=
  fun id hfile => ⟨hfile, fun _ hv => hv, .inl (SameFile.refl a id)⟩

theorem Later.trans (hab : Later a b) (hbc : Later b c) : Later a c := by
  intro id hfile
  obtain ⟨hfile', hpast, hcase⟩ := hab id hfile
  obtain ⟨hfile'', hpast', hcase'⟩ := hbc id hfile'
  refine ⟨hfile'', fun v hv => hpast' v (hpast v hv), ?_⟩
  cases hcase with
  | inr hmoved => exact .inr (hpast' _ hmoved)
  | inl hsame =>
    cases hcase' with
    | inl hsame' => exact .inl (hsame.trans hsame')
    | inr hmoved => exact .inr (hsame.inode ▸ hmoved)

/-- A file that becomes another file is history; every other inode is as it was. -/
theorem later_renew {id : InodeId} {x : Inode}
    (hx : h.isFile id = true → ∃ data, x.body = .file data)
    (hab : ∀ other, other ≠ id → h.isFile other = true → SameFile a h other)
    (hinode : a.fs.inode = h.fs.inode) (hpast : a.past = h.past) : Later a (h.renew id x) := by
  intro other hfile
  have hfile' : h.isFile other = true := by
    unfold History.isFile at hfile ⊢
    rwa [← hinode]
  by_cases hsame : other = id
  · subst hsame
    have hpast' : (h.renew other x).past other = h.versions other := Function.update_self ..
    refine ⟨?_, ?_, .inr ?_⟩
    · obtain ⟨data, hdata⟩ := hx hfile'
      have hinode' : (h.renew other x).fs.inode other = x := Function.update_self ..
      rw [History.isFile, hinode', hdata]
    · intro v hv
      rw [hpast']
      exact List.mem_cons_of_mem _ (hpast ▸ hv)
    · rw [hpast', hinode]
      exact List.mem_cons_self
  · have hkept := hab other hsame hfile'
    have hinode' : (h.renew id x).fs.inode other = h.fs.inode other :=
      Function.update_of_ne hsame ..
    have hpast' : (h.renew id x).past other = h.past other := Function.update_of_ne hsame ..
    refine ⟨?_, ?_, .inl ⟨hinode'.trans hkept.inode, hpast'.trans hkept.past, hkept.entry⟩⟩
    · rw [History.isFile, hinode']
      exact hfile'
    · intro v hv
      rw [hpast', ← hpast]
      exact hv

theorem sameFile_move {dir dir' : InodeId} {name name' : String} {id other : InodeId}
    (hne : other ≠ id) : SameFile h (h.move dir name dir' name' id) other := by
  refine ⟨rfl, rfl, ?_⟩
  intro d n hentry
  change (if d = dir' ∧ n = name' then some id else if d = dir ∧ n = name then none
    else h.fs.entry d n) = some other at hentry
  by_cases hto : d = dir' ∧ n = name'
  · rw [if_pos hto] at hentry
    exact absurd (Option.some.inj hentry).symm hne
  · rw [if_neg hto] at hentry
    by_cases hfrom : d = dir ∧ n = name
    · rw [if_pos hfrom] at hentry
      cases hentry
    · rw [if_neg hfrom] at hentry
      exact hentry

theorem later_apply {change : Change} (hallows : h.allows change = true) :
    Later h (h.apply change) := by
  cases change with
  | write id data times =>
    exact later_renew (fun _ => ⟨data, rfl⟩) (fun other _ _ => SameFile.refl h other) rfl rfl
  | rename dir name dir' name' times =>
    show Later h ((h.fs.entry dir name).elim h (h.moveStamped dir name dir' name' times))
    cases hentry : h.fs.entry dir name with
    | none => exact Later.refl h
    | some id =>
      rw [Option.elim_some, History.moveStamped]
      by_cases hdir : h.isDirectory id = true
      · rw [if_pos hdir]
        intro other hfile
        have hne : other ≠ id := by
          intro heq
          unfold History.isFile at hfile
          unfold History.isDirectory at hdir
          rw [heq] at hfile
          cases hbody : (h.fs.inode id).body <;> simp [hbody] at hfile hdir
        exact ⟨hfile, fun _ hv => hv, .inl (sameFile_move hne)⟩
      · rw [if_neg hdir]
        refine later_renew ?_ (fun other hne _ => sameFile_move hne) rfl rfl
        intro hfile
        unfold History.isFile at hfile
        cases hbody : (h.fs.inode id).body with
        | file data => exact ⟨data, rfl⟩
        | directory size => simp [History.move, hbody] at hfile
        | symlink size target => simp [History.move, hbody] at hfile
        | special size => simp [History.move, hbody] at hfile

theorem later_play {changes : List Change} : ∀ {h : History}, h.playable changes = true →
    Later h (h.play changes) := by
  induction changes with
  | nil =>
    intro h _
    exact Later.refl h
  | cons change changes ih =>
    intro h hplayable
    obtain ⟨hallows, hrest⟩ := Bool.and_eq_true_iff.mp hplayable
    exact (later_apply hallows).trans (ih hrest)

theorem History.Distinct.renew {id : InodeId} {x : Inode} (hh : h.Distinct)
    (hfresh : h.fresh id x.times = true) : (h.renew id x).Distinct := by
  intro other
  by_cases hsame : other = id
  · subst hsame
    have hversions : (h.renew other x).versions other = x :: h.versions other := by
      show Function.update h.fs.inode other x other ::
        Function.update h.past other (h.versions other) other = _
      rw [Function.update_self, Function.update_self]
    rw [hversions, List.map_cons, List.nodup_cons]
    refine ⟨?_, hh other⟩
    intro hmem
    obtain ⟨v, hv, htimes⟩ := List.mem_map.mp hmem
    have hne := List.all_eq_true.mp hfresh v hv
    simp [htimes] at hne
  · have hversions : (h.renew id x).versions other = h.versions other := by
      show Function.update h.fs.inode id x other ::
        Function.update h.past id (h.versions id) other = _
      rw [Function.update_of_ne hsame, Function.update_of_ne hsame]
      rfl
    rw [hversions]
    exact hh other

theorem History.Distinct.apply {change : Change} (hh : h.Distinct)
    (hallows : h.allows change = true) : (h.apply change).Distinct := by
  cases change with
  | write id data times => exact hh.renew (Bool.and_eq_true_iff.mp hallows).2
  | rename dir name dir' name' times =>
    show History.Distinct
      ((h.fs.entry dir name).elim h (h.moveStamped dir name dir' name' times))
    cases hentry : h.fs.entry dir name with
    | none => exact hh
    | some id =>
      rw [History.allows, hentry, Option.any_some] at hallows
      rw [Option.elim_some, History.moveStamped]
      by_cases hdir : h.isDirectory id = true
      · rw [if_pos hdir]
        exact hh
      · rw [if_neg hdir]
        rw [Bool.eq_false_iff.mpr hdir, Bool.false_or] at hallows
        exact History.Distinct.renew (h := h.move dir name dir' name' id) hh hallows

theorem History.Distinct.play {changes : List Change} : ∀ {h : History}, h.Distinct →
    h.playable changes = true → (h.play changes).Distinct := by
  induction changes with
  | nil =>
    intro h hh _
    exact hh
  | cons change changes ih =>
    intro h hh hplayable
    obtain ⟨hallows, hrest⟩ := Bool.and_eq_true_iff.mp hplayable
    exact ih (hh.apply hallows) hrest

/-- A file that shows the same times at two moments was the same file at every moment between, and
wherever it stands at the second one it stood then. -/
theorem same_between {id : InodeId} (hab : Later a b) (hbc : Later b c) (hc : c.Distinct)
    (hfile : a.isFile id = true) (htimes : (a.fs.inode id).times = (c.fs.inode id).times) :
    SameFile a b id ∧ SameFile b c id := by
  have hnever : ∀ v ∈ c.past id, v.times ≠ (c.fs.inode id).times := by
    intro v hv heq
    have hnodup := hc id
    rw [History.versions, List.map_cons, List.nodup_cons] at hnodup
    exact hnodup.1 (List.mem_map.mpr ⟨v, hv, heq⟩)
  obtain ⟨hfile', -, hcase⟩ := hab id hfile
  obtain ⟨-, hpast, hcase'⟩ := hbc id hfile'
  cases hcase with
  | inr hmoved => exact absurd htimes (hnever _ (hpast _ hmoved))
  | inl hsame =>
    cases hcase' with
    | inr hmoved =>
      rw [hsame.inode] at hmoved
      exact absurd htimes (hnever _ hmoved)
    | inl hsame' => exact ⟨hsame, hsame'⟩

/-- What an inode was at a moment is a version of it later on. -/
theorem mem_versions_of_later {id : InodeId} (hab : Later a b) (hfile : a.isFile id = true) :
    a.fs.inode id ∈ b.versions id := by
  obtain ⟨-, -, hcase⟩ := hab id hfile
  cases hcase with
  | inl hsame => exact hsame.inode ▸ List.mem_cons_self
  | inr hmoved => exact List.mem_cons_of_mem _ hmoved

/-- Two versions with the same times are one. -/
theorem version_unique {id : InodeId} (hh : h.Distinct) {x y : Inode} (hx : x ∈ h.versions id)
    (hy : y ∈ h.versions id) (htimes : x.times = y.times) : x = y :=
  List.inj_on_of_nodup_map (hh id) hx hy htimes

end

end Posix
end FlashNext
