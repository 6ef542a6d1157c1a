import FlashNext.Checkpoint.Agreement
import FlashNext.Checkpoint.Live

/-!
# What the verifier hashed

Between two moments at which a file shows the same identity nothing happened to it, and it stayed
where it is: a file that comes back by a rename comes back with other times.  So as long as the path
runs through one directory, what is opened by it between the two is the file that both saw.
-/

namespace FlashNext
namespace Checkpoint
namespace Live

open Effect Posix Text

/-! ## Runs -/

section

variable {α β : Type} {w w' : World}

/-- A later world, whose calls come after those of the first one. -/
structure Follows (a b : World) : Prop where
  later : Later a.history b.history
  log : a.log <+: b.log

theorem Follows.refl (a : World) : Follows a a := ⟨Later.refl _, List.prefix_refl _⟩

theorem Follows.trans {a b c : World} (hab : Follows a b) (hbc : Follows b c) : Follows a c :=
  ⟨hab.later.trans hbc.later, hab.log.trans hbc.log⟩

/-- The world after a call. -/
def after (w : World) (op : Op) (i : In op) : World :=
  ⟨w.history.play i.changes, w.log ++ [(op, (w.history.play i.changes).fs)]⟩

theorem follows_after {op : Op} {i : In op} (h : w.history.playable i.changes = true) :
    Follows w (after w op i) :=
  ⟨later_play h, List.prefix_append _ _⟩

theorem follows_run {p : LiveM α} {o : Outcome Exn α} (h : Run semantics p w o w') :
    Follows w w' := by
  refine Run.keeps_all (I := fun v => Follows w v) ?_ h (Follows.refl w)
  intro op i v hallowed hv
  exact hv.trans (follows_after hallowed.1)

theorem distinct_run {p : LiveM α} {o : Outcome Exn α} (h : Run semantics p w o w')
    (hw : w.history.Distinct) : w'.history.Distinct := by
  refine Run.keeps_all (I := fun v : World => v.history.Distinct) ?_ h hw
  intro op i v hallowed hv
  exact hv.play hallowed.1

/-- What a call answers is what the file system shows after it. -/
theorem run_ask {op : Op} {r : Ans op} (h : Run semantics (ask op) w (.value r) w') :
    ∃ i : In op, 0 < i.count ∧ w'.log = w.log ++ [(op, w'.history.fs)] ∧
      r = answer w'.history.fs op i := by
  obtain ⟨i, hallowed, hvalue, rfl⟩ := h
  exact ⟨i, hallowed.2, rfl, Outcome.value.inj hvalue⟩

theorem run_attempt {x : LiveM (Except WalkError α)} {a : α}
    (h : Run semantics (attempt x) w (.value a) w') : Run semantics x w (.value (.ok a)) w' := by
  obtain ⟨r, v, hx, hr⟩ := run_bind_value.mp h
  obtain ⟨hok, rfl⟩ := run_ofExcept_value.mp hr
  rw [ofWalk_ok] at hok
  exact hok ▸ hx

end

/-! ## Between the two looks -/

/-- At the second look the path leads to a file that shows the times of the first one; the calls
between find one directory for it. -/
structure Window (path : PurePath) (start stop : World) (id : InodeId) (data : Bytes)
    (name : String) (dir : InodeId) : Prop where
  last : path.parts.getLast? = some name
  plain : name ≠ ".."
  body : (stop.history.fs.inode id).body = .file data
  entry : stop.history.fs.entry dir name = some id
  /-- The file is the same at every moment between, and where it stands at the end it stood. -/
  same : ∀ u, Later start.history u → Later u stop.history → SameFile u stop.history id
  directory : ∀ calls call, start.log <+: calls → calls ++ [call] <+: stop.log →
    call.2.directoryOf path = .ok dir

section

variable {path : PurePath} {start stop w w' : World} {id : InodeId} {data : Bytes} {name : String}
  {dir : InodeId} {sha256 : Bytes → Hex 64} {sha1 : Bytes → Hex 40}

theorem Window.body_at (h : Window path start stop id data name dir) (hstart : Follows start w)
    (hstop : Follows w stop) : (w.history.fs.inode id).body = .file data := by
  rw [← (h.same w.history hstart.later hstop.later).inode]
  exact h.body

/-- At every call the path leads to the file. -/
theorem Window.stat_at (h : Window path start stop id data name dir) (hstart : Follows start w)
    {op : Op} (hlog : w'.log = w.log ++ [(op, w'.history.fs)]) (hfollows : Follows w w')
    (hstop : Follows w' stop) : w'.history.fs.stat path = .ok id := by
  have hdir := h.directory w.log (op, w'.history.fs) hstart.log (hlog ▸ hstop.log)
  have hsame := h.same w'.history (hstart.trans hfollows).later hstop.later
  exact FileSystem.stat_of_entry h.last h.plain hdir (hsame.entry dir name h.entry)
    ⟨data, h.body_at (hstart.trans hfollows) hstop⟩

theorem Window.openAt_value (h : Window path start stop id data name dir)
    (hstart : Follows start w) (hstop : Follows w' stop) {opened : InodeId}
    (hrun : Run semantics (attempt (ask (.openAt path))) w (.value opened) w') : opened = id := by
  have hfollows := follows_run hrun
  obtain ⟨i, -, hlog, hanswer⟩ := run_ask (run_attempt hrun)
  have hopen := FileSystem.openAt_of_stat (h.stat_at hstart hlog hfollows hstop)
    ⟨data, h.body_at (hstart.trans hfollows) hstop⟩
  change _ = w'.history.fs.openAt path at hanswer
  rw [hopen, Except.ok.injEq] at hanswer
  exact hanswer

theorem Window.read_value (h : Window path start stop id data name dir)
    (hstart : Follows start w) (hstop : Follows w' stop) {offset count : Nat} {chunk : Bytes}
    (hrun : Run semantics (ask (.read id offset count)) w (.value chunk) w') :
    ∃ n, 0 < n ∧ chunk = (data.drop offset).take (min n count) := by
  have hfollows := follows_run hrun
  obtain ⟨i, hcount, -, hanswer⟩ := run_ask hrun
  refine ⟨i.count, hcount, ?_⟩
  change _ = w'.history.fs.read id offset (min i.count count) at hanswer
  rw [hanswer, FileSystem.read, h.body_at (hstart.trans hfollows) hstop]

/-- What was read so far and the next chunk are what is read then. -/
theorem take_append_chunk {offset n : Nat} {chunk : Bytes} (h : chunk = (data.drop offset).take n) :
    data.take offset ++ chunk = data.take (offset + chunk.length) := by
  have hprefix : chunk <+: data.drop offset := h ▸ List.take_prefix _ _
  rw [List.take_add, ← List.prefix_iff_eq_take.mp hprefix]

theorem take_of_drop_nil {offset n : Nat} (hn : 0 < n) (h : (data.drop offset).take n = []) :
    data.take offset = data := by
  cases List.take_eq_nil_iff.mp h with
  | inl hzero => omega
  | inr hdrop => exact List.take_of_length_le (List.drop_eq_nil_iff.mp hdrop)

/-- The loop hashes the file from its beginning to the size it was given. -/
theorem Window.hashLoop_value (h : Window path start stop id data name dir) {rounds : Nat} :
    ∀ {w : World} {offset remaining : Nat} {r : Bytes × Nat}, Follows start w →
      Follows w' stop → remaining ≤ rounds →
      Run semantics (hashLoop path id rounds offset remaining (data.take offset)) w (.value r) w' →
      r = (data.take (offset + remaining), offset + remaining) := by
  induction rounds with
  | zero =>
    intro w offset remaining r _ _ hremaining hrun
    obtain ⟨hvalue, -⟩ := hrun
    rw [Outcome.value.injEq] at hvalue
    rw [hvalue, show remaining = 0 by omega, Nat.add_zero]
  | succ rounds ih =>
    intro w offset remaining r hstart hstop hremaining hrun
    rw [hashLoop] at hrun
    by_cases hzero : remaining = 0
    · rw [if_pos hzero] at hrun
      obtain ⟨hvalue, -⟩ := hrun
      rw [Outcome.value.injEq] at hvalue
      rw [hvalue, hzero, Nat.add_zero]
    · rw [if_neg hzero] at hrun
      obtain ⟨chunk, u, hread, hrun⟩ := run_bind_value.mp hrun
      obtain ⟨_, v, hcheck, hloop⟩ := run_bind_value.mp hrun
      obtain ⟨hsome, rfl⟩ := run_require_value.mp hcheck
      have hfollows := follows_run hread
      have hrest := follows_run hrun
      obtain ⟨n, hn, hchunk⟩ := h.read_value hstart (hrest.trans hstop) hread
      have hpos : 0 < chunk.length := List.length_pos_iff.mpr (by simpa using hsome)
      have hle : chunk.length ≤ remaining := by
        rw [hchunk, List.length_take]
        omega
      rw [take_append_chunk hchunk] at hloop
      have hresult := ih (hstart.trans hfollows) hstop (by omega) hloop
      rw [hresult, show offset + chunk.length + (remaining - chunk.length) = offset + remaining by
        omega]

/-- The digest is that of the whole file. -/
theorem Window.sha256File_value (h : Window path start stop id data name dir) {size : Nat}
    {digest : Hex 64} (hstart : Follows start w) (hstop : Follows w' stop)
    (hrun : Run semantics (sha256File sha256 path size) w (.value digest) w') :
    digest = sha256 data := by
  obtain ⟨opened, u, hopen, hrun⟩ := run_bind_value.mp hrun
  have hfollows := follows_run hopen
  have hrest := follows_run hrun
  obtain rfl := h.openAt_value hstart (hrest.trans hstop) hopen
  obtain ⟨r, v, hloop, hrun⟩ := run_bind_value.mp hrun
  have hfollows' := follows_run hloop
  have hrest' := follows_run hrun
  have hresult := h.hashLoop_value (hstart.trans hfollows) (hrest'.trans hstop) le_rfl hloop
  rw [Nat.zero_add] at hresult
  subst hresult
  obtain ⟨more, x, hread, hrun⟩ := run_bind_value.mp hrun
  obtain ⟨n, hn, hmore⟩ := h.read_value ((hstart.trans hfollows).trans hfollows')
    ((follows_run hrun).trans hstop) hread
  obtain ⟨_, y, hcheck, hreturn⟩ := run_bind_value.mp hrun
  obtain ⟨hnone, rfl⟩ := run_require_value.mp hcheck
  obtain ⟨hvalue, -⟩ := hreturn
  rw [Outcome.value.injEq] at hvalue
  have hempty : (data.drop size).take (min n 1) = [] := by
    rw [← hmore]
    simpa using hnone
  rw [hvalue, take_of_drop_nil (by omega) hempty]

theorem Window.blobLoop_value (h : Window path start stop id data name dir) {header : Bytes}
    {rounds : Nat} : ∀ {w : World} {offset : Nat} {r : Bytes}, Follows start w → Follows w' stop →
      Run semantics (blobLoop id rounds offset (header ++ data.take offset)) w (.value r) w' →
      r = header ++ data := by
  induction rounds with
  | zero =>
    intro w offset r _ _ hrun
    obtain ⟨hvalue, -⟩ := hrun
    cases hvalue
  | succ rounds ih =>
    intro w offset r hstart hstop hrun
    obtain ⟨chunk, u, hread, hrun⟩ := run_bind_value.mp hrun
    have hfollows := follows_run hread
    have hrest := follows_run hrun
    obtain ⟨n, hn, hchunk⟩ := h.read_value hstart (hrest.trans hstop) hread
    by_cases hempty : chunk = []
    · rw [if_pos hempty] at hrun
      obtain ⟨hvalue, -⟩ := hrun
      rw [Outcome.value.injEq] at hvalue
      have hsome : 0 < min n chunkSize := by
        have hsize : 0 < chunkSize := by decide
        omega
      rw [hvalue, take_of_drop_nil hsome (hchunk ▸ hempty)]
    · rw [if_neg hempty, List.append_assoc, take_append_chunk hchunk] at hrun
      exact ih (hstart.trans hfollows) hstop hrun

theorem node_of_body {x : Inode} (hbody : x.body = .file data) :
    (x.node id).stat = ⟨id.1, id.2, data.length, x.times.mtimeNs, x.times.ctimeNs⟩ := by
  rw [Inode.node, hbody]
  rfl

theorem Window.gitBlobSha1_value (h : Window path start stop id data name dir) {rounds : Nat}
    {digest : Hex 40} (hstart : Follows start w) (hstop : Follows w' stop)
    (hrun : Run semantics (gitBlobSha1 sha1 rounds path) w (.value digest) w') :
    digest = sha1 (blobHeader data.length ++ data) := by
  obtain ⟨node, u, hstat, hrun⟩ := run_bind_value.mp hrun
  have hfollows := follows_run hstat
  have hrest := follows_run hrun
  have hsize : node.stat.size = data.length := by
    obtain ⟨i, -, hlog, hanswer⟩ := run_ask (run_attempt hstat)
    change _ = nodeOf u.history.fs (u.history.fs.stat path) at hanswer
    rw [h.stat_at hstart hlog hfollows (hrest.trans hstop)] at hanswer
    obtain rfl := Except.ok.inj hanswer
    rw [node_of_body (h.body_at (hstart.trans hfollows) (hrest.trans hstop))]
  obtain ⟨opened, v, hopen, hrun⟩ := run_bind_value.mp hrun
  have hfollows' := follows_run hopen
  have hrest' := follows_run hrun
  obtain rfl := h.openAt_value (hstart.trans hfollows) (hrest'.trans hstop) hopen
  obtain ⟨hashed, x, hloop, hrun⟩ := run_bind_value.mp hrun
  obtain ⟨hvalue, rfl⟩ := hrun
  rw [Outcome.value.injEq] at hvalue
  have hloop' : Run semantics (blobLoop opened rounds 0 (blobHeader node.stat.size ++
      data.take 0)) v (.value hashed) w' := by
    rw [List.take_zero, List.append_nil]
    exact hloop
  rw [hvalue, h.blobLoop_value ((hstart.trans hfollows).trans hfollows') hstop hloop', hsize]

end

end Live
end Checkpoint
end FlashNext
