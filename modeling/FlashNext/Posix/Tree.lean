import FlashNext.Posix.PurePath
import FlashNext.Text.Ascii

/-!
# Directory trees with symbolic links

A tree says what stands at every absolute path whose parents are real directories.
`walk` resolves a path the way the kernel does, following at most a fixed number of links.
`realpath` follows links too but keeps what it cannot resolve.  Where the walk succeeds the
two agree, and a path that equals its own `realpath` has no link in it.
-/

namespace FlashNext
namespace Posix

open Text (Bytes)

/-- The five numbers by which a file's identity and content are recognised. -/
structure Stat where
  dev : Int
  inode : Int
  size : Int
  mtimeNs : Int
  ctimeNs : Int
  deriving DecidableEq

structure RegularFile where
  dev : Int
  inode : Int
  mtimeNs : Int
  ctimeNs : Int
  data : Bytes

/-- The size of a file is the length of its content. -/
def RegularFile.stat (f : RegularFile) : Stat where
  dev := f.dev
  inode := f.inode
  size := f.data.length
  mtimeNs := f.mtimeNs
  ctimeNs := f.ctimeNs

inductive Node where
  | file (f : RegularFile)
  | directory (st : Stat)
  | symlink (st : Stat) (target : String)
  | special (st : Stat)

namespace Node

def stat : Node → Stat
  | .file f => f.stat
  | .directory st => st
  | .symlink st _ => st
  | .special st => st

def isSymlink : Node → Bool
  | .symlink _ _ => true
  | _ => false

end Node

inductive WalkError where
  | notFound
  | notDirectory
  | tooManyLinks
  deriving DecidableEq

structure Tree where
  node : List String → Option Node
  /-- The working directory, with no link in it. -/
  cwd : List String
  maxLinks : Nat

namespace Tree

variable (T : Tree)

/-- Where the components of a link's target or of a path are walked from. -/
def base (p : PurePath) (cur : List String) : List String :=
  if p.isAbsolute then [] else cur

/-- Walk the components from a resolved directory.  `follow` continues after a link. -/
def walkFrom (follow : List String → List String → Except WalkError (List String)) :
    List String → List String → Except WalkError (List String)
  | cur, [] => .ok cur
  | cur, part :: rest =>
    if part = ".." then walkFrom follow cur.dropLast rest
    else
      match T.node (cur ++ [part]) with
      | none => .error .notFound
      | some (.symlink _ target) =>
        follow (base (.ofString target) cur) ((PurePath.ofString target).parts ++ rest)
      | some (.directory _) => walkFrom follow (cur ++ [part]) rest
      | some _ => if rest = [] then .ok (cur ++ [part]) else .error .notDirectory

def walk : Nat → List String → List String → Except WalkError (List String)
  | 0 => T.walkFrom fun _ _ => .error .tooManyLinks
  | links + 1 => T.walkFrom (walk links)

/-- Resolve the components without requiring them to exist. -/
def realFrom (follow : List String → List String → List String) :
    List String → List String → List String
  | cur, [] => cur
  | cur, part :: rest =>
    if part = ".." then realFrom follow cur.dropLast rest
    else
      match T.node (cur ++ [part]) with
      | some (.symlink _ target) =>
        follow (base (.ofString target) cur) ((PurePath.ofString target).parts ++ rest)
      | _ => realFrom follow (cur ++ [part]) rest

/-- Past the last link that is followed the rest is left as it is. -/
def real : Nat → List String → List String → List String
  | 0 => T.realFrom fun cur rest => cur ++ rest
  | links + 1 => T.realFrom (real links)

/-! ## The calls -/

/-- `path.resolve(strict=True)`. -/
def resolve (p : PurePath) : Except WalkError PurePath :=
  match T.walk T.maxLinks (base p T.cwd) p.parts with
  | .ok parts => .ok { root := .one, parts := parts }
  | .error e => .error e

/-- `os.path.realpath(path)`, and `path.resolve()`. -/
def realpath (p : PurePath) : PurePath where
  root := .one
  parts := T.real T.maxLinks (base p T.cwd) p.parts

/-- `os.stat(path)`: the node behind the last link. -/
def stat (p : PurePath) : Except WalkError Node :=
  match T.walk T.maxLinks (base p T.cwd) p.parts with
  | .error e => .error e
  | .ok parts =>
    match T.node parts with
    | some node => .ok node
    | none => .error .notFound

/-- `os.lstat(path)`: the last component is not followed. -/
def lstat (p : PurePath) : Except WalkError Node :=
  match p.parts.getLast? with
  | none => T.stat p
  | some name =>
    if name = ".." then T.stat p
    else
      match T.walk T.maxLinks (base p T.cwd) p.parts.dropLast with
      | .error e => .error e
      | .ok parent =>
        match T.node (parent ++ [name]) with
        | some node => .ok node
        | none => .error .notFound

def isSymlink (p : PurePath) : Bool :=
  match T.lstat p with
  | .ok node => node.isSymlink
  | .error _ => false

def isFile (p : PurePath) : Bool :=
  match T.stat p with
  | .ok (.file _) => true
  | _ => false

def isDir (p : PurePath) : Bool :=
  match T.stat p with
  | .ok (.directory _) => true
  | _ => false

/-- The file that opening the path for reading opens. -/
def fileAt (p : PurePath) : Except WalkError RegularFile :=
  match T.stat p with
  | .ok (.file f) => .ok f
  | .ok _ => .error .notFound
  | .error e => .error e

/-- Lexical `..`, as `os.path.normpath` removes it. -/
def collapse : List String → List String → List String
  | acc, [] => acc
  | acc, part :: rest =>
    if part = ".." then collapse acc.dropLast rest else collapse (acc ++ [part]) rest

/-- `os.path.abspath(path)`. -/
def abspath (p : PurePath) : PurePath where
  root := if p.root = .two then .two else .one
  parts := collapse [] (base p T.cwd ++ p.parts)

/-! ## Resolved paths -/

/-- A chain of real directories. -/
def Dirs (parts : List String) : Prop :=
  ∀ pre part, pre ++ [part] <+: parts →
    part ≠ ".." ∧ ∃ st, T.node (pre ++ [part]) = some (.directory st)

/-- The top, or an entry of a chain of real directories that is not a link. -/
def Resolved (parts : List String) : Prop :=
  parts = [] ∨ ∃ pre part node, parts = pre ++ [part] ∧ T.Dirs pre ∧ part ≠ ".." ∧
    T.node parts = some node ∧ node.isSymlink = false

variable {T}

theorem dirs_nil : T.Dirs [] := by
  intro pre part h
  exact absurd (List.prefix_nil.mp h) (by simp)

theorem Dirs.of_prefix {parts more : List String} (h : T.Dirs more) (hp : parts <+: more) :
    T.Dirs parts := fun pre part hpre => h pre part (hpre.trans hp)

theorem Dirs.dropLast {parts : List String} (h : T.Dirs parts) : T.Dirs parts.dropLast :=
  h.of_prefix (List.dropLast_prefix parts)

theorem Dirs.append {parts : List String} {part : String} {st : Stat} (h : T.Dirs parts)
    (hp : part ≠ "..") (hn : T.node (parts ++ [part]) = some (.directory st)) :
    T.Dirs (parts ++ [part]) := by
  intro pre q hpre
  rcases List.prefix_concat_iff.mp hpre with he | hpre
  · obtain ⟨rfl, hq⟩ := List.append_inj' he rfl
    obtain rfl : q = part := by simpa using hq
    exact ⟨hp, st, hn⟩
  · exact h pre q hpre

theorem Dirs.base {cur : List String} (h : T.Dirs cur) (p : PurePath) :
    T.Dirs (Tree.base p cur) := by
  unfold Tree.base
  split
  · exact dirs_nil
  · exact h

theorem Dirs.resolved {parts : List String} (h : T.Dirs parts) : T.Resolved parts := by
  rcases List.eq_nil_or_concat parts with rfl | ⟨pre, part, rfl⟩
  · exact .inl rfl
  · rw [List.concat_eq_append] at h ⊢
    obtain ⟨hp, st, hn⟩ := h pre part (List.prefix_refl _)
    exact .inr ⟨pre, part, _, rfl, h.of_prefix (List.prefix_append _ _), hp, hn, rfl⟩

/-- One level of the walk resolves its path, if the walk after a link does. -/
theorem walkFrom_resolved {follow : List String → List String → Except WalkError (List String)}
    (hf : ∀ cur rest parts, T.Dirs cur → follow cur rest = .ok parts → T.Resolved parts)
    {rest : List String} : ∀ {cur parts : List String}, T.Dirs cur →
      T.walkFrom follow cur rest = .ok parts → T.Resolved parts := by
  induction rest with
  | nil =>
    intro cur parts hcur h
    rw [walkFrom, Except.ok.injEq] at h
    exact h ▸ hcur.resolved
  | cons part rest ih =>
    intro cur parts hcur h
    rw [walkFrom] at h
    split at h
    · exact ih hcur.dropLast h
    · next hp =>
      split at h
      · cases h
      · exact hf _ _ _ (hcur.base _) h
      · next hn => exact ih (hcur.append hp hn) h
      · next node hsym _ hn =>
        split at h
        · rw [Except.ok.injEq] at h
          have hl : node.isSymlink = false := by
            cases node with
            | symlink st target => exact absurd rfl (hsym st target)
            | file f => rfl
            | directory st => rfl
            | special st => rfl
          exact .inr ⟨cur, part, node, h.symm, hcur, hp, h ▸ hn, hl⟩
        · cases h

theorem walk_resolved {links : Nat} : ∀ {cur rest parts : List String}, T.Dirs cur →
    T.walk links cur rest = .ok parts → T.Resolved parts := by
  induction links with
  | zero =>
    intro cur rest parts hcur h
    exact walkFrom_resolved (fun _ _ _ _ hf => absurd hf (by simp)) hcur h
  | succ links ih =>
    intro cur rest parts hcur h
    exact walkFrom_resolved (fun _ _ _ hc hf => ih hc hf) hcur h

/-- Real directories are walked as they stand. -/
theorem walkFrom_dirs {follow : List String → List String → Except WalkError (List String)}
    {rest tail : List String} : ∀ {cur : List String}, T.Dirs (cur ++ rest) →
      T.walkFrom follow cur (rest ++ tail) = T.walkFrom follow (cur ++ rest) tail := by
  induction rest with
  | nil =>
    intro cur _
    rw [List.nil_append, List.append_nil]
  | cons part rest ih =>
    intro cur h
    have hassoc : cur ++ part :: rest = (cur ++ [part]) ++ rest := by simp
    rw [hassoc] at h
    obtain ⟨hp, st, hn⟩ := h cur part (List.prefix_append _ _)
    rw [List.cons_append, walkFrom, if_neg hp, hn, hassoc]
    exact ih h

theorem walkFrom_resolved_self
    {follow : List String → List String → Except WalkError (List String)} {parts : List String}
    (h : T.Resolved parts) : T.walkFrom follow [] parts = .ok parts := by
  rcases h with rfl | ⟨pre, part, node, rfl, hdirs, hdd, hn, hl⟩
  · rfl
  · have hdirs' : T.Dirs ([] ++ pre) := hdirs
    rw [walkFrom_dirs hdirs', List.nil_append, walkFrom, if_neg hdd, hn]
    cases node with
    | symlink st target => cases hl
    | file f => rfl
    | directory st => rfl
    | special st => rfl

/-- A resolved path is walked to itself. -/
theorem walk_resolved_self {links : Nat} {parts : List String} (h : T.Resolved parts) :
    T.walk links [] parts = .ok parts := by
  cases links with
  | zero => exact walkFrom_resolved_self h
  | succ links => exact walkFrom_resolved_self h

theorem walk_dirs {links : Nat} {parts : List String} (h : T.Dirs parts) :
    T.walk links [] parts = .ok parts := walk_resolved_self h.resolved

theorem realFrom_eq_of_walkFrom
    {follow : List String → List String → Except WalkError (List String)}
    {followReal : List String → List String → List String}
    (hf : ∀ cur rest parts, follow cur rest = .ok parts → followReal cur rest = parts)
    {rest : List String} : ∀ {cur parts : List String},
      T.walkFrom follow cur rest = .ok parts → T.realFrom followReal cur rest = parts := by
  induction rest with
  | nil =>
    intro cur parts h
    rw [walkFrom, Except.ok.injEq] at h
    exact h
  | cons part rest ih =>
    intro cur parts h
    rw [walkFrom] at h
    rw [realFrom]
    split at h
    · next hp =>
      rw [if_pos hp]
      exact ih h
    · next hp =>
      rw [if_neg hp]
      split at h
      · cases h
      · next hn =>
        rw [hn]
        exact hf _ _ _ h
      · next hn =>
        rw [hn]
        exact ih h
      · next node hsym hdir hn =>
        split at h
        · next hrest =>
          rw [Except.ok.injEq] at h
          rw [hn, hrest]
          cases node with
          | symlink st target => exact absurd rfl (hsym st target)
          | file f => exact h
          | directory st => exact h
          | special st => exact h
        · cases h

/-- Where the walk succeeds, resolving without requiring existence gives the same path. -/
theorem real_eq_of_walk {links : Nat} : ∀ {cur rest parts : List String},
    T.walk links cur rest = .ok parts → T.real links cur rest = parts := by
  induction links with
  | zero =>
    intro cur rest parts h
    exact realFrom_eq_of_walkFrom (fun _ _ _ hf => absurd hf (by simp)) h
  | succ links ih =>
    intro cur rest parts h
    exact realFrom_eq_of_walkFrom (fun _ _ _ hf => ih hf) h

/-! ## Plain files -/

theorem base_absolute {p : PurePath} (h : p.root = .one) (cur : List String) :
    base p cur = [] := by
  unfold base PurePath.isAbsolute
  rw [h]
  rfl

/-- An absolute path without links, to a regular file. -/
structure PlainFile (T : Tree) (p : PurePath) (f : RegularFile) : Prop where
  root : p.root = .one
  resolved : T.Resolved p.parts
  node : T.node p.parts = some (.file f)

/-- A path that is its own `realpath` and leads to a file has no link in it. -/
theorem plainFile_of_realpath {p : PurePath} (hreal : T.realpath p = p)
    (hfile : T.isFile p = true) : ∃ f, T.PlainFile p f := by
  unfold isFile at hfile
  split at hfile
  · next f hstat =>
    have hbase : base p T.cwd = [] := by
      rw [← hreal]
      rfl
    unfold stat at hstat
    cases hw : T.walk T.maxLinks (base p T.cwd) p.parts with
    | error e =>
      rw [hw] at hstat
      cases hstat
    | ok parts =>
      have hparts : parts = p.parts := by
        rw [← real_eq_of_walk hw]
        exact congrArg PurePath.parts hreal
      subst hparts
      rw [hw] at hstat
      refine ⟨f, (congrArg PurePath.root hreal).symm, walk_resolved (hbase ▸ dirs_nil) hw, ?_⟩
      cases hn : T.node p.parts with
      | none =>
        simp only [hn] at hstat
        cases hstat
      | some node =>
        simp only [hn, Except.ok.injEq] at hstat
        rw [hstat]
  · cases hfile

namespace PlainFile

variable {p : PurePath} {f : RegularFile}

theorem base_eq (h : T.PlainFile p f) (cur : List String) : base p cur = [] :=
  base_absolute h.root cur

theorem walk_eq (h : T.PlainFile p f) : T.walk T.maxLinks (base p T.cwd) p.parts = .ok p.parts := by
  rw [h.base_eq]
  exact walk_resolved_self h.resolved

theorem eq_mk (h : T.PlainFile p f) : PurePath.mk .one p.parts = p := by
  rw [← h.root]

theorem stat_eq (h : T.PlainFile p f) : T.stat p = .ok (.file f) := by
  rw [stat, h.walk_eq]
  simp only [h.node]

theorem resolve_eq (h : T.PlainFile p f) : T.resolve p = .ok p := by
  rw [resolve, h.walk_eq]
  exact congrArg Except.ok h.eq_mk

theorem realpath_eq (h : T.PlainFile p f) : T.realpath p = p := by
  rw [realpath, real_eq_of_walk h.walk_eq]
  exact h.eq_mk

theorem lstat_eq (h : T.PlainFile p f) : T.lstat p = .ok (.file f) := by
  unfold lstat
  rcases h.resolved with hnil | ⟨pre, part, node, hpre, hdirs, hdd, -, -⟩
  · rw [hnil]
    exact h.stat_eq
  · have hlast : p.parts.getLast? = some part := by rw [hpre, List.getLast?_concat]
    have hdrop : p.parts.dropLast = pre := by rw [hpre, List.dropLast_concat]
    rw [hlast]
    simp only [if_neg hdd, hdrop, h.base_eq, walk_dirs hdirs, ← hpre, h.node]

theorem isFile_eq (h : T.PlainFile p f) : T.isFile p = true := by
  rw [isFile, h.stat_eq]

theorem isSymlink_eq (h : T.PlainFile p f) : T.isSymlink p = false := by
  rw [isSymlink, h.lstat_eq]
  rfl

theorem fileAt_eq (h : T.PlainFile p f) : T.fileAt p = .ok f := by
  rw [fileAt, h.stat_eq]

end PlainFile

/-- The two trees hold the same at the directory, above it and below it. -/
def AgreeAt (T T' : Tree) (dir : List String) : Prop :=
  ∀ parts, parts <+: dir ∨ dir <+: parts → T'.node parts = T.node parts

theorem AgreeAt.dirs {T' : Tree} {dir parts : List String} (h : AgreeAt T T' dir)
    (hp : parts <+: dir ∨ dir <+: parts) (hd : T.Dirs parts) : T'.Dirs parts := by
  intro pre part hpre
  obtain ⟨hdd, st, hn⟩ := hd pre part hpre
  refine ⟨hdd, st, ?_⟩
  rw [h _ ?_]
  · exact hn
  · rcases hp with hp | hp
    · exact .inl (hpre.trans hp)
    · exact List.prefix_or_prefix_of_prefix hpre hp

/-- A plain file below the directory is the same plain file in the other tree. -/
theorem AgreeAt.plainFile {T' : Tree} {dir : List String} {p : PurePath} {f : RegularFile}
    (h : AgreeAt T T' dir) (hp : dir <+: p.parts) (hf : T.PlainFile p f) : T'.PlainFile p f := by
  refine ⟨hf.root, ?_, (h _ (.inr hp)).trans hf.node⟩
  rcases hf.resolved with hnil | ⟨pre, part, node, hpre, hdirs, hdd, hn, hl⟩
  · exact .inl hnil
  · have hcomp : pre <+: dir ∨ dir <+: pre :=
      List.prefix_or_prefix_of_prefix (hpre ▸ List.prefix_append pre [part]) hp
    exact .inr ⟨pre, part, node, hpre, h.dirs hcomp hdirs, hdd, (h _ (.inr hp)).trans hn, hl⟩

end Tree

end Posix
end FlashNext
