import FlashNext.Checkpoint.Held
import FlashNext.Checkpoint.PathRules

/-!
# What a receipt is bound to

A row of the receipt holds the digests of the file whose identity it records, if from its first
`lstat` to its second the path leads to a regular file through one directory.  Nothing the verifier
looks at shows that a directory above the file was exchanged and put back.
-/

namespace FlashNext
namespace Checkpoint
namespace Live

open Effect Posix Text

section

variable {α β : Type} {path : PurePath} {w w' : World} {sha256 : Bytes → Hex 64}
  {sha1 : Bytes → Hex 40} {maxLinks rounds : Nat}

/-! ## One row -/

/-- The last component of a path of the lock is a name. -/
theorem joinPath_last (root : PurePath) {rel : String} (h : safeRelpath rel = true) :
    ∃ name, (joinPath root rel).parts.getLast? = some name ∧ name ≠ ".." := by
  have hparts : ∀ part ∈ splitSlash rel, part ≠ ".." := by
    intro part hpart
    simp only [safeRelpath, Bool.and_eq_true, List.all_eq_true, decide_eq_true_eq] at h
    exact (h.2 part hpart).2
  have hne : splitSlash rel ≠ [] := splitSlash_ne_nil rel
  obtain ⟨name, hname⟩ := Option.isSome_iff_exists.mp (List.getLast?_isSome.mpr hne)
  refine ⟨name, ?_, hparts name (List.mem_of_getLast? hname)⟩
  rw [joinPath, List.getLast?_append, hname]
  rfl

/-- What a row says holds of a file of this moment. -/
structure HashedAt (sha256 : Bytes → Hex 64) (sha1 : Bytes → Hex 40) (h : History)
    (f : VerifiedFile) (data : Bytes) : Prop where
  body : (h.fs.inode (f.stat.dev, f.stat.inode)).body = .file data
  stat : ((h.fs.inode (f.stat.dev, f.stat.inode)).node (f.stat.dev, f.stat.inode)).stat = f.stat
  sha256 : f.sha256 = sha256 data
  gitBlob : ∀ blob, f.gitBlob = some blob → blob = sha1 (blobHeader data.length ++ data)

/-- The identity of an inode is in what is shown of it. -/
theorem node_stat (x : Inode) (id : InodeId) :
    ((x.node id).stat.dev, (x.node id).stat.inode) = id ∧
      (⟨(x.node id).stat.mtimeNs, (x.node id).stat.ctimeNs⟩ : Times) = x.times := by
  unfold Inode.node
  cases x.body <;> exact ⟨rfl, rfl⟩

theorem times_of_stat {x y : Inode} {id : InodeId} (h : (x.node id).stat = (y.node id).stat) :
    x.times = y.times := by
  rw [← (node_stat x id).2, ← (node_stat y id).2, h]

/-- The file is a version of its inode ever after, and the only one with its identity. -/
theorem HashedAt.bound {h h' : History} {f : VerifiedFile} {data : Bytes}
    (hf : HashedAt sha256 sha1 h f data) (hlater : Later h h') (hh' : h'.Distinct) :
    Bound sha256 sha1 h' f := by
  have hfile : h.isFile (f.stat.dev, f.stat.inode) = true := by
    rw [History.isFile, hf.body]
  have hmem := mem_versions_of_later hlater hfile
  refine ⟨⟨_, hmem, hf.stat⟩, ?_⟩
  intro v hv hstat
  obtain rfl := version_unique hh' hv hmem (times_of_stat (hstat.trans hf.stat.symm))
  exact ⟨data, hf.body, hf.sha256, hf.gitBlob⟩

theorem nodeOf_ok {fs : FileSystem} {r : Except WalkError InodeId} {node : Node}
    (h : nodeOf fs r = .ok node) : ∃ id, r = .ok id ∧ node = (fs.inode id).node id := by
  cases r with
  | error e => cases h
  | ok id => exact ⟨id, rfl, (Except.ok.inj h).symm⟩

/-- A path whose last component is a name is looked up in its directory. -/
theorem lstat_ok {fs : FileSystem} {id : InodeId} {name : String}
    (hlast : path.parts.getLast? = some name) (hname : name ≠ "..") (h : fs.lstat path = .ok id) :
    ∃ dir, fs.directoryOf path = .ok dir ∧ fs.entry dir name = some id := by
  unfold FileSystem.lstat at h
  rw [hlast] at h
  simp only [if_neg hname] at h
  split at h
  · next dir hdir =>
    split at h
    · next found hentry =>
      obtain rfl := Except.ok.inj h
      exact ⟨dir, hdir, hentry⟩
    · cases h
  · cases h

/-- Two looks at one identity, at a path that is held between them, are a window. -/
theorem window_of_looks {u : World} {log before between : List (Op × FileSystem)} {id id' : InodeId}
    {name : String} (hlast : path.parts.getLast? = some name) (hname : name ≠ "..")
    (hdistinct : w'.history.Distinct) (hfollows : Follows u w')
    (hfirst : u.history.fs.lstat path = .ok id) (hsecond : w'.history.fs.lstat path = .ok id')
    (hstat : ((u.history.fs.inode id).node id).stat = ((w'.history.fs.inode id').node id').stat)
    (hu : u.log = before ++ [(.lstat .first path, u.history.fs)])
    (hw' : w'.log = u.log ++ between ++ [(.lstat .second path, w'.history.fs)])
    (hlog : w'.log <+: log) (hheld : Held log path) :
    id' = id ∧ ∃ data dir, Window path u w' id data name dir := by
  obtain ⟨rest, hrest⟩ := hlog
  have hsplit : log = before ++ (.lstat .first path, u.history.fs) ::
      (between ++ (.lstat .second path, w'.history.fs) :: rest) := by
    rw [← hrest, hw', hu]
    simp
  have hid : id' = id := by rw [← (node_stat _ id).1, hstat, (node_stat _ id').1]
  subst hid
  obtain ⟨seen, data, hseen, hbody⟩ := hheld.regular _ _ _ hsplit
  obtain rfl : id' = seen := Except.ok.inj (hfirst.symm.trans hseen)
  have hfile : u.history.isFile id' = true := by rw [History.isFile, hbody]
  have hsame : ∀ v, Later u.history v → Later v w'.history →
      SameFile u.history v id' ∧ SameFile v w'.history id' :=
    fun v huv hvw => same_between huv hvw hdistinct hfile (times_of_stat hstat)
  obtain ⟨dir, hdir, hentry⟩ := lstat_ok hlast hname hsecond
  refine ⟨rfl, data, dir, hlast, hname, ?_, hentry, fun v huv hvw => (hsame v huv hvw).2, ?_⟩
  · rw [(hsame u.history (Later.refl _) hfollows.later).2.inode]
    exact hbody
  · intro calls call hstart hstop
    rw [hw', List.prefix_concat_iff] at hstop
    cases hstop with
    | inl hall =>
      -- the second look itself
      obtain ⟨-, hcall⟩ := List.append_inj' hall rfl
      rw [List.singleton_inj.mp hcall]
      exact hdir
    | inr hinner =>
      obtain ⟨more, rfl⟩ := hstart
      rw [List.append_assoc, List.prefix_append_right_inj] at hinner
      have hmem : call ∈ between := hinner.subset (by simp)
      rw [hheld.directory _ _ _ _ _ hsplit call hmem]
      exact hdir

/-- From the first `lstat` to the second. -/
theorem hashFile_value {rel : Json} {want : Want} {size : Nat} {r : Hex 64 × Option (Hex 40) × Stat}
    {log : List (Op × FileSystem)} {name : String} (hlast : path.parts.getLast? = some name)
    (hname : name ≠ "..") (hw : w.history.Distinct) (hlog : w'.log <+: log) (hheld : Held log path)
    (h : Run semantics (hashFile sha256 sha1 rounds path rel want size) w (.value r) w')
    {f : VerifiedFile} (hsha : f.sha256 = r.1) (hblob : f.gitBlob = r.2.1)
    (hstat : f.stat = r.2.2) : ∃ data, HashedAt sha256 sha1 w'.history f data := by
  have hdistinct := distinct_run h hw
  obtain ⟨st, _, hfirst, h₁⟩ := run_bind_value.mp h
  obtain ⟨_, u, hsize, h₂⟩ := run_bind_value.mp h₁
  obtain ⟨-, rfl⟩ := run_require_value.mp hsize
  obtain ⟨gotSha, v, hhash, h₃⟩ := run_bind_value.mp h₂
  obtain ⟨blob, x, hgot, h₄⟩ := run_bind_value.mp h₃
  obtain ⟨st2, _, hsecond, h₅⟩ := run_bind_value.mp h₄
  obtain ⟨_, y, hcheck, h₆⟩ := run_bind_value.mp h₅
  obtain ⟨hsame, rfl⟩ := run_require_value.mp hcheck
  obtain ⟨hvalue, rfl⟩ := h₆
  obtain rfl := Outcome.value.inj hvalue
  have hhashed := follows_run hhash
  have hblobbed := follows_run hgot
  have hlooked := follows_run hsecond
  obtain ⟨i, -, hlogFirst, hanswer⟩ := run_ask (run_attempt hfirst)
  obtain ⟨id, hlstat, rfl⟩ := nodeOf_ok hanswer.symm
  obtain ⟨j, -, hlogSecond, hanswer'⟩ := run_ask (run_attempt hsecond)
  obtain ⟨id', hlstat', rfl⟩ := nodeOf_ok hanswer'.symm
  obtain ⟨between, hbetween⟩ := (hhashed.trans hblobbed).log
  obtain ⟨rfl, data, dir, hwindow⟩ := window_of_looks hlast hname hdistinct
    ((hhashed.trans hblobbed).trans hlooked) hlstat hlstat' (of_decide_eq_true hsame) hlogFirst
    (hbetween ▸ hlogSecond) hlog hheld
  have hnode := node_stat (w'.history.fs.inode id') id'
  have hkey : (f.stat.dev, f.stat.inode) = id' := by
    rw [hstat]
    exact hnode.1
  refine ⟨data, ?_, ?_, ?_, ?_⟩
  · rw [hkey]
    exact hwindow.body
  · rw [hkey, hstat]
  · rw [hsha]
    exact hwindow.sha256File_value (Follows.refl u) (hblobbed.trans hlooked) hhash
  · intro digest hdigest
    rw [hblob] at hdigest
    cases hpin : want.gitBlob with
    | none =>
      rw [hpin] at hgot
      obtain ⟨hnone, -⟩ := hgot
      obtain rfl := Outcome.value.inj hnone
      cases hdigest
    | some pin =>
      rw [hpin] at hgot
      obtain ⟨found, z, hrun, hreturn⟩ := run_bind_value.mp hgot
      obtain ⟨hvalue, rfl⟩ := hreturn
      obtain rfl := Outcome.value.inj hvalue
      obtain rfl := Option.some.inj hdigest
      exact hwindow.gitBlobSha1_value hhashed hlooked hrun

/-! ## All rows -/

theorem run_mapM {g : α → LiveM β} {xs : List α} : ∀ {w : World} {ys : List β},
    w.history.Distinct → Run semantics (xs.mapM g) w (.value ys) w' → ∀ y ∈ ys, ∃ x ∈ xs, ∃ u u',
      u.history.Distinct ∧ Run semantics (g x) u (.value y) u' ∧ Follows u' w' := by
  induction xs with
  | nil =>
    intro w ys _ h y hy
    rw [List.mapM_nil] at h
    obtain ⟨hvalue, -⟩ := h
    obtain rfl := Outcome.value.inj hvalue
    cases hy
  | cons x xs ih =>
    intro w ys hw h y hy
    rw [List.mapM_cons] at h
    obtain ⟨z, u, hx, h₁⟩ := run_bind_value.mp h
    obtain ⟨zs, v, hxs, h₂⟩ := run_bind_value.mp h₁
    obtain ⟨hvalue, rfl⟩ := h₂
    obtain rfl := Outcome.value.inj hvalue
    cases List.mem_cons.mp hy with
    | inl heq =>
      subst heq
      exact ⟨x, by simp, w, u, hw, hx, follows_run hxs⟩
    | inr hrest =>
      obtain ⟨x', hx', hrun⟩ := ih (distinct_run hx hw) hxs y hrest
      exact ⟨x', List.mem_cons_of_mem _ hx', hrun⟩

/-- One round of the loop. -/
theorem verifyFile_value {root : PurePath} {expected : Want × Nat} {f : VerifiedFile}
    {log : List (Op × FileSystem)} (hsafe : safeRelpath expected.1.rel = true)
    (hw : w.history.Distinct) (hlog : w'.log <+: log)
    (hheld : Held log (joinPath root f.path))
    (h : Run semantics (verifyFile maxLinks sha256 sha1 rounds root expected) w (.value f) w') :
    ∃ data v, Follows v w' ∧ HashedAt sha256 sha1 v.history f data := by
  obtain ⟨want, size⟩ := expected
  obtain ⟨before, u₁, hbefore, h₁⟩ := run_bind_value.mp h
  obtain ⟨_, u₂, hcheck, h₂⟩ := run_bind_value.mp h₁
  obtain ⟨-, rfl⟩ := run_require_value.mp hcheck
  obtain ⟨regular, u₃, hregular, h₃⟩ := run_bind_value.mp h₂
  obtain ⟨_, u₄, hcheck', h₄⟩ := run_bind_value.mp h₃
  obtain ⟨-, rfl⟩ := run_require_value.mp hcheck'
  obtain ⟨r, v, hhash, h₅⟩ := run_bind_value.mp h₄
  obtain ⟨gotSha, blob, stat⟩ := r
  have hfollows := follows_run h₅
  obtain ⟨afterwards, u₅, hafter, h₆⟩ := run_bind_value.mp h₅
  obtain ⟨_, u₆, hcheck₁, h₇⟩ := run_bind_value.mp h₆
  obtain ⟨_, u₇, hcheck₂, h₈⟩ := run_bind_value.mp h₇
  obtain ⟨_, u₈, hcheck₃, h₉⟩ := run_bind_value.mp h₈
  obtain ⟨hvalue, -⟩ := h₉
  obtain rfl := Outcome.value.inj hvalue
  obtain ⟨name, hlast, hname⟩ := joinPath_last root hsafe
  have hdistinct := distinct_run hregular (distinct_run hbefore hw)
  obtain ⟨data, hdata⟩ := hashFile_value hlast hname hdistinct (hfollows.log.trans hlog) hheld hhash
    (f := ⟨want.rel, gotSha, blob, want.sourceGitBlob, want.sha256, want.gitBlob, stat⟩) rfl rfl rfl
  exact ⟨data, v, hfollows, hdata⟩

/-- The names of an admitted lock are safe. -/
theorem readLock_safe {inventory : Json} {id sha : String} {ordered : List (Want × Nat)}
    (h : readLock inventory = .ok (id, sha, ordered)) :
    ∀ expected ∈ ordered, safeRelpath expected.1.rel = true := by
  simp only [readLock, bind_ok, pure_ok, Prod.mk.injEq] at h
  obtain ⟨lock, -, model, -, id', -, -, -, sha', -, -, -, wants, hwants, sized, hsized, -, -,
    rfl⟩ := h
  intro expected hexpected
  have hmem : expected ∈ sized := (List.mem_insertionSort _).mp hexpected
  obtain ⟨want, hwant, hsize⟩ := forall₂_exists_left (mapM_ok.mp hsized) expected hmem
  obtain ⟨read, hread, hrows⟩ := foldlM_append (f := wantRow) (fun ws => ws)
    (fun _ _ _ hrow => wantRow_ok hrow) hwants
  rw [List.nil_append] at hread
  obtain ⟨row, -, hreads⟩ := forall₂_exists_left hrows want (hread ▸ hwant)
  rw [(wantSize_ok hsize).1]
  exact hreads.safe

/-- In every run, whatever others write and rename between the calls: a row of the receipt is bound
to the file it names, if its path is held from its first `lstat` to its second. -/
theorem receipt_bound {cwd : List String} {root inventoryPath : PurePath} {receipt : Receipt}
    (hstart : ∀ id, w.history.past id = [])
    (h : Run semantics (verifyFiles maxLinks sha256 sha1 rounds cwd root inventoryPath) w
      (.value receipt) w') :
    ∀ f ∈ receipt.files, Held w'.log (joinPath receipt.root f.path) →
      Bound sha256 sha1 w'.history f := by
  have hdistinct : w.history.Distinct := by
    intro id
    rw [History.versions, hstart id]
    simp
  have hend := distinct_run h hdistinct
  obtain ⟨directory, u₁, hdirectory, h₁⟩ := run_bind_value.mp h
  obtain ⟨_, u₂, hcheck, h₂⟩ := run_bind_value.mp h₁
  obtain ⟨-, rfl⟩ := run_require_value.mp hcheck
  obtain ⟨realRoot, u₃, hreal, h₃⟩ := run_bind_value.mp h₂
  obtain ⟨_, u₄, hcheck', h₄⟩ := run_bind_value.mp h₃
  obtain ⟨-, rfl⟩ := run_require_value.mp hcheck'
  obtain ⟨lock, u₅, hlock, h₅⟩ := run_bind_value.mp h₄
  obtain ⟨document, u₆, hdocument, h₆⟩ := run_bind_value.mp h₅
  obtain ⟨-, rfl⟩ := run_ofExcept_value.mp hdocument
  obtain ⟨inventory, lockBytes⟩ := document
  obtain ⟨names, u₇, hnames, h₇⟩ := run_bind_value.mp h₆
  obtain ⟨hnamesOk, rfl⟩ := run_ofExcept_value.mp hnames
  obtain ⟨lockId, lockSha, ordered⟩ := names
  obtain ⟨verified, v, hverified, h₈⟩ := run_bind_value.mp h₇
  have hfollows := follows_run h₈
  obtain ⟨rootNode, x, hroot, h₉⟩ := run_bind_value.mp h₈
  obtain ⟨hvalue, -⟩ := h₉
  obtain rfl := Outcome.value.inj hvalue
  intro f hf hheld
  have hloop := distinct_run hlock (distinct_run hreal (distinct_run hdirectory hdistinct))
  obtain ⟨expected, hexpected, y, z, hy, hrun, hz⟩ := run_mapM hloop hverified f hf
  obtain ⟨data, t, ht, hdata⟩ := verifyFile_value (readLock_safe hnamesOk expected hexpected) hy
    (hz.trans hfollows).log hheld hrun
  exact hdata.bound ((ht.trans hz).trans hfollows).later hend

end

/-! ## Runs -/

/-- `/m/a/f` and `/e/f`, each with one byte. -/
def twoFiles : FileSystem where
  inode id :=
    if id = (0, 10) then ⟨⟨5, 5⟩, .file [1]⟩
    else if id = (0, 11) then ⟨⟨6, 6⟩, .file [2]⟩
    else ⟨⟨1, 1⟩, .directory 4096⟩
  entry id name :=
    if id = (0, 0) ∧ name = "m" then some (0, 1)
    else if id = (0, 0) ∧ name = "e" then some (0, 3)
    else if id = (0, 1) ∧ name = "a" then some (0, 2)
    else if id = (0, 2) ∧ name = "f" then some (0, 10)
    else if id = (0, 3) ∧ name = "f" then some (0, 11)
    else none
  root := (0, 0)
  maxLinks := 8

def twoFilesWorld : World := ⟨⟨twoFiles, fun _ => []⟩, []⟩

def digestOf (c : Char) : String := String.ofList (List.replicate 64 c)

/-- A digest that tells the two bytes apart. -/
def byteSha256 (data : Bytes) : Hex 64 :=
  if data = [1] then ⟨digestOf '1', by decide⟩
  else if data = [2] then ⟨digestOf '2', by decide⟩
  else ⟨digestOf '0', by decide⟩

def noSha1 (_ : Bytes) : Hex 40 := ⟨String.ofList (List.replicate 40 '0'), by decide⟩

/-- A lock with one file. -/
def oneFileLock (digest : String) : Json := .obj [("model", .obj [("id", .str "model"),
  ("sha", .str (String.ofList (List.replicate 40 'a'))),
  ("files", .arr [.obj [("path", .str "a/f"), ("size", .int 1), ("sha256", .str digest)]])])]

def verifyTwoFiles : LiveM Receipt :=
  verifyFiles 8 byteSha256 noSha1 8 [] ⟨.one, ["m"]⟩ ⟨.one, ["lock"]⟩

/-- Nobody changes anything. -/
def quietInput (_ : Nat) (op : Op) : In op := ⟨[], 1, .ok (oneFileLock (digestOf '1'), [])⟩

/-- The path leads to a regular file in the directory `/m/a`. -/
def leadsThrough (path : PurePath) (fs : FileSystem) : Bool :=
  (match fs.directoryOf path with
    | .ok dir => dir = (0, 2)
    | .error _ => false) &&
  match fs.lstat path with
  | .ok id =>
    match (fs.inode id).body with
    | .file _ => true
    | _ => false
  | .error _ => false

theorem held_of_leadsThrough {log : List (Op × FileSystem)} {path : PurePath}
    (h : ∀ call ∈ log, leadsThrough path call.2 = true) : Held log path := by
  have hdir : ∀ call ∈ log, call.2.directoryOf path = .ok (0, 2) := by
    intro call hcall
    have hleads := (Bool.and_eq_true_iff.mp (h call hcall)).1
    split at hleads
    · next dir hfound =>
      rw [hfound, of_decide_eq_true hleads]
    · cases hleads
  refine ⟨?_, ?_⟩
  · intro before after fs hlog
    have hleads := (Bool.and_eq_true_iff.mp (h (.lstat .first path, fs) (by simp [hlog]))).2
    split at hleads
    · next id hid =>
      split at hleads
      · next data hbody => exact ⟨id, data, hid, hbody⟩
      · cases hleads
    · cases hleads
  · intro before between after atFirst atSecond hlog call hcall
    rw [hdir call (by simp [hlog, hcall]), hdir (.lstat .second path, atSecond) (by simp [hlog])]

/-- The rows of the receipt, each with its path. -/
def rowsOf (o : Outcome Exn Receipt) : List (PurePath × VerifiedFile) :=
  match o with
  | .value receipt => receipt.files.map fun f => (joinPath receipt.root f.path, f)
  | _ => []

theorem quiet_run : ((exec semantics quietInput verifyTwoFiles 0 twoFilesWorld).map fun r =>
    ((rowsOf r.1).map fun row => (row.1, row.2.sha256.text),
      r.2.log.all fun call => leadsThrough ⟨.one, ["m", "a", "f"]⟩ call.2)) =
    some ([(⟨.one, ["m", "a", "f"]⟩, digestOf '1')], true) := by
  decide +kernel

/-- A run with one such row ended with a receipt that has it. -/
theorem receipt_of_row {o : Outcome Exn Receipt} {β : Type} {g : PurePath × VerifiedFile → β}
    {b : β} (h : (rowsOf o).map g = [b]) : ∃ receipt f, o = .value receipt ∧ f ∈ receipt.files ∧
      g (joinPath receipt.root f.path, f) = b := by
  obtain ⟨row, hrow, hb⟩ := List.map_eq_singleton_iff.mp h
  cases o with
  | value receipt =>
    have hmem : row ∈ rowsOf (.value receipt) := by
      rw [hrow]
      exact List.mem_singleton_self row
    obtain ⟨f, hf, heq⟩ := List.mem_map.mp hmem
    subst heq
    exact ⟨receipt, f, rfl, hf, hb⟩
  | raised e => cases hrow
  | cut => cases hrow

theorem receipt_bound_quiet : ∃ receipt w', Run semantics verifyTwoFiles twoFilesWorld
      (.value receipt) w' ∧ ∃ f ∈ receipt.files, f.sha256.text = digestOf '1' ∧
        Bound byteSha256 noSha1 w'.history f := by
  obtain ⟨r, hexec, heq⟩ := Option.map_eq_some_iff.mp quiet_run
  rw [Prod.mk.injEq] at heq
  obtain ⟨receipt, f, ho, hf, hrow⟩ := receipt_of_row heq.1
  rw [Prod.mk.injEq] at hrow
  have hrun := run_of_exec hexec
  rw [ho] at hrun
  refine ⟨receipt, r.2, hrun, f, hf, hrow.2, ?_⟩
  have hpath : joinPath receipt.root f.path = ⟨.one, ["m", "a", "f"]⟩ := hrow.1
  refine receipt_bound (fun _ => rfl) hrun f hf ?_
  rw [hpath]
  exact held_of_leadsThrough (List.all_eq_true.mp heq.2)

/-- Before the file is opened the directory above it is exchanged, and before the second `lstat` it
is put back. -/
def exchangeInput (n : Nat) (op : Op) : In op where
  changes :=
    if n = 8 then [.rename (0, 1) "a" (0, 0) "away" ⟨0, 0⟩, .rename (0, 0) "e" (0, 1) "a" ⟨0, 0⟩]
    else if n = 11 then
      [.rename (0, 1) "a" (0, 0) "e" ⟨0, 0⟩, .rename (0, 0) "away" (0, 1) "a" ⟨0, 0⟩]
    else []
  count := 1
  lock := .ok (oneFileLock (digestOf '2'), [])

/-- A row with the identity of a file that has another digest. -/
def misstates (h : History) (f : VerifiedFile) : Bool :=
  ((h.fs.inode (f.stat.dev, f.stat.inode)).node (f.stat.dev, f.stat.inode)).stat = f.stat &&
    match (h.fs.inode (f.stat.dev, f.stat.inode)).body with
    | .file data => f.sha256 ≠ byteSha256 data
    | _ => false

theorem not_bound_of_misstates {h : History} {f : VerifiedFile} {sha1 : Bytes → Hex 40}
    (hf : misstates h f = true) : ¬ Bound byteSha256 sha1 h f := by
  intro hbound
  obtain ⟨hstat, hdigest⟩ := Bool.and_eq_true_iff.mp hf
  obtain ⟨data, hbody, hsha, -⟩ := hbound.bytes _ List.mem_cons_self (of_decide_eq_true hstat)
  rw [hbody] at hdigest
  simp [hsha] at hdigest

theorem exchange_run : ((exec semantics exchangeInput verifyTwoFiles 0 twoFilesWorld).map
    fun r => (rowsOf r.1).map fun row => misstates r.2.history row.2) = some [true] := by
  decide +kernel

theorem exchanged_directory :
    ¬ ∀ (maxLinks rounds : Nat) (sha256 : Bytes → Hex 64) (sha1 : Bytes → Hex 40)
      (cwd : List String) (root inventoryPath : PurePath) (w w' : World) (receipt : Receipt),
      (∀ id, w.history.past id = []) →
      Run semantics (verifyFiles maxLinks sha256 sha1 rounds cwd root inventoryPath) w
        (.value receipt) w' →
      ∀ f ∈ receipt.files, Bound sha256 sha1 w'.history f := by
  intro hall
  obtain ⟨r, hexec, heq⟩ := Option.map_eq_some_iff.mp exchange_run
  obtain ⟨receipt, f, ho, hf, hmisstates⟩ := receipt_of_row heq
  have hrun := run_of_exec hexec
  rw [ho] at hrun
  exact not_bound_of_misstates hmisstates
    (hall 8 8 byteSha256 noSha1 [] _ _ twoFilesWorld r.2 receipt (fun _ => rfl) hrun f hf)

end Live
end Checkpoint
end FlashNext
