import FlashNext.Checkpoint.Agreement

/-!
# From the verifier to the launcher

A receipt the verifier returned, written and read back, is accepted by the launcher and by
the verifier's own recheck, as long as the checkpoint stays as it was.
-/

namespace FlashNext
namespace Checkpoint

open Effect Posix Text

/-! ## The checks accept what they look for -/

theorem checkRow_of_verified {view : View} {root : PurePath} {inv : Inventory} {e : Entry}
    {row : List (String × Json)} (he : e ∈ inv.files.list) (h : RowVerified view root e row) :
    checkRow view root inv row = .ok (e.size : Int) := by
  have hfind : inv.files.list.find? (fun e' => (Json.field row "path").isText e'.path) = some e := by
    cases hf : inv.files.list.find? fun e' => (Json.field row "path").isText e'.path with
    | none =>
      have hnone := List.find?_eq_none.mp hf e he
      exact absurd (Json.isText_iff.mpr h.path) hnone
    | some e' =>
      have hp := List.find?_some hf
      rw [Json.isText_iff, h.path, Json.str.injEq] at hp
      rw [Entries.eq_of_path (List.mem_of_find?_eq_some hf) he hp.symm]
  obtain ⟨real, hreal, hin⟩ := h.inside
  obtain ⟨st, hst, hfields⟩ := h.stat
  obtain ⟨observed, hobserved⟩ := h.observed
  simp only [checkRow, bind_ok, orRaise_ok, reject_ok, pure_ok, requireHex_ok]
  refine ⟨e, hfind, false, h.notLink, (), rfl, real, hreal, (), ?_, true, h.regular, (), rfl, st,
    hst, (), ?_, (), ?_, observed, hobserved, (), checkPin_ok.mpr h.pinned, rfl⟩
  · rw [hin]
    rfl
  · rw [List.any_eq_false]
    intro f hf
    rw [bne_iff_ne, not_not, Json.asInt?_eq_some]
    exact hfields f hf
  · rw [bne_eq_false_iff_eq, Json.asInt?_eq_some]
    exact h.size

theorem checkRows_of_verified {view : View} {root : PurePath} {inv : Inventory}
    {es : List Entry} {rows : List (List (String × Json))}
    (h : List.Forall₂ (RowVerified view root) es rows) (hmem : ∀ e ∈ es, e ∈ inv.files.list) :
    rows.mapM (checkRow view root inv) = .ok (es.map fun e => (e.size : Int)) := by
  rw [mapM_ok]
  induction h with
  | nil => exact .nil
  | cons hv _ ih =>
    rw [List.forall_mem_cons] at hmem
    exact .cons (checkRow_of_verified hmem.1 hv) (ih hmem.2)

/-- What the launcher looks for in a receipt's fields. -/
structure Complete (root : PurePath) (inv : Inventory) (view : View)
    (fields : List (String × Json)) : Prop where
  kind : Json.field fields "kind" = .str "CHECKPOINT_VERIFIED"
  rootText : Json.field fields "root" = .str root.str
  model : ∃ m, Json.field fields "model" = .obj m ∧ m.length = 2 ∧
    Json.field m "id" = .str modelId ∧ Json.field m "sha" = .str inv.revision.text
  count : Json.field fields "file_count" = .int inv.files.list.length
  rows : ∃ rows es, Json.field fields "files" = .arr (rows.map .obj) ∧
    es.Perm inv.files.list ∧ List.Forall₂ (RowVerified view root) es rows
  total : Json.field fields "total_bytes" = .int (inv.files.list.map fun e => (e.size : Int)).sum

theorem samePaths_of_perm {view : View} {root : PurePath} {inv : Inventory} {es : List Entry}
    {rows : List (List (String × Json))} (hperm : es.Perm inv.files.list)
    (h : List.Forall₂ (RowVerified view root) es rows) :
    samePaths (rows.map fun row => Json.field row "path") inv = true := by
  have hpaths : (rows.map fun row => Json.field row "path") = es.map fun e => Json.str e.path := by
    clear hperm
    induction h with
    | nil => rfl
    | cons hv _ ih => rw [List.map_cons, List.map_cons, hv.path, ih]
  rw [hpaths, samePaths, Bool.and_eq_true, List.all_eq_true, List.all_eq_true]
  constructor
  · intro j hj
    obtain ⟨e, he, rfl⟩ := List.mem_map.mp hj
    exact List.any_eq_true.mpr ⟨e, hperm.mem_iff.mp he, Json.isText_iff.mpr rfl⟩
  · intro e he
    refine List.any_eq_true.mpr ⟨.str e.path, ?_, Json.isText_iff.mpr rfl⟩
    exact List.mem_map.mpr ⟨e, hperm.mem_iff.mpr he, rfl⟩

theorem checkReceipt_accepts {loads : Bytes → Except Exn Json} {sha256 : Bytes → Hex 64}
    {view : View} {path root : PurePath} {sources : Json} {inv : Inventory} {raw : Bytes}
    {fields : List (String × Json)} (hread : view.read path = .ok raw)
    (hlen : raw.length ≤ jsonLimit) (hloads : loads raw = .ok (.obj fields))
    (hinv : sourceInventory sources = .ok inv) (h : Complete root inv view fields) :
    checkReceipt loads sha256 view path (sha256 raw).text root sources = .ok (.obj fields) := by
  obtain ⟨m, hm, hmlen, hid, hsha⟩ := h.model
  obtain ⟨rows, es, hrows, hperm, hverified⟩ := h.rows
  have hcount : rows.length = inv.files.list.length := by
    rw [← hverified.length_eq, hperm.length_eq]
  have htake : raw.take (jsonLimit + 1) = raw := List.take_of_length_le (by omega)
  have hobjs : (rows.map Json.obj).mapM
      (fun row => orRaise row.asObj? (Exn.launch "receipt entries must be objects")) =
        .ok rows := by
    rw [mapM_ok, List.forall₂_map_left_iff]
    exact List.forall₂_same.mpr fun row _ => rfl
  have hpaths : rows.mapM (fun row => hashable (Json.field row "path")) =
      .ok (rows.map fun row => Json.field row "path") := by
    rw [mapM_ok, List.forall₂_map_right_iff, List.forall₂_same]
    intro row hrow
    obtain ⟨e, -, hv⟩ := Effect.forall₂_exists_left hverified row hrow
    rw [hv.path]
    rfl
  have hsizes := checkRows_of_verified hverified fun e he => hperm.mem_iff.mp he
  have hsum : (es.map fun e => (e.size : Int)).sum =
      (inv.files.list.map fun e => (e.size : Int)).sum := (hperm.map _).sum_eq
  simp only [checkReceipt, readJson, bind_ok, orRaise_ok, reject_ok, pure_ok, requireHex_ok]
  refine ⟨sha256 raw, rfl, (.obj fields, raw), ⟨raw, hread, (), ?_, .obj fields, ?_, ?_⟩, (), ?_,
    inv, hinv, fields, rfl, (), ?_, m, ?_, (), ?_, rows.map .obj, ?_, (), ?_, rows, hobjs, (), ?_,
    _, hpaths, (), ?_, _, hsizes, (), ?_, rfl⟩
  · rw [htake, decide_eq_false_iff_not]
    omega
  · rw [htake]
    exact hloads
  · rw [htake]
  · exact bne_self_eq_false _
  · rw [Json.isText_iff.mpr h.kind, Json.isText_iff.mpr h.rootText]
    rfl
  · rw [hm]
    rfl
  · rw [hmlen, Json.isText_iff.mpr hid, Json.isText_iff.mpr hsha]
    rfl
  · rw [hrows]
    rfl
  · rw [bne_eq_false_iff_eq, Json.asInt?_eq_some]
    exact h.count
  · rw [hcount]
    exact bne_self_eq_false _
  · rw [samePaths_of_perm hperm hverified]
    rfl
  · rw [bne_eq_false_iff_eq, Json.asInt?_eq_some, hsum]
    exact h.total

/-! ## The receipt as it is read back -/

theorem nodup_fields (v : VerifiedFile) : (v.fields.map (·.1)).Nodup := by
  show ["path", "sha256", "git_blob", "source_git_blob", "expected_sha256", "expected_git_blob",
    "inode", "size", "mtime_ns", "ctime_ns", "dev"].Nodup
  decide

theorem nodup_receipt_fields (r : Receipt) : (r.fields.map (·.1)).Nodup := by
  show ["kind", "model", "root", "root_stat", "file_count", "total_bytes", "locks_sha256",
    "verification", "files"].Nodup
  decide

theorem nodup_identity (r : Receipt) :
    (([("id", .str r.id), ("sha", .str r.sha)] : List (String × Json)).map (·.1)).Nodup := by
  show ["id", "sha"].Nodup
  decide

/-- Sorting the keys of an object sorts what each key holds, and no more. -/
theorem field_sorted {fs : List (String × Json)} (hn : (fs.map (·.1)).Nodup) (key : String) :
    Json.field (Json.sortKeysFields fs) key = Json.sortKeys (Json.field fs key) := by
  rw [Json.field, Json.field, Json.lookup_sortKeysFields hn]
  cases Json.lookup fs key with
  | none => rw [Option.map_none, Option.getD_none, Json.sortKeys_null]
  | some v => rfl

variable {T T' : Tree} {sha256 : Bytes → Hex 64} {sha1 : Bytes → Hex 40} {root : PurePath}

theorem prefix_child {e : Entry} (hs : safeRelpath e.path = true) :
    root.parts <+: (root.child e.path).parts := by
  rw [child_eq_joinPath hs]
  exact List.prefix_append _ _

theorem Hashed.rowVerified {e : Entry} {v : VerifiedFile} (h : Hashed T sha256 sha1 root e v)
    (hsame : Tree.AgreeAt T T' root.parts) :
    RowVerified (treeView T') root e (Json.sortKeysFields v.fields) := by
  obtain ⟨f, hplain, hlen, hsha, hstat, -⟩ := h.file
  have hplain' : T'.PlainFile (root.child e.path) f :=
    hsame.plainFile (prefix_child h.safe) hplain
  have hrel : (root.child e.path).isRelativeTo root = true := by
    rw [PurePath.isRelativeTo_iff, child_eq_joinPath h.safe]
    exact ⟨rfl, List.prefix_append _ _⟩
  have hfield := field_sorted (nodup_fields v)
  refine
    { path := ?_
      notLink := congrArg Except.ok hplain'.isSymlink_eq
      inside := ⟨root.child e.path, ?_, hrel⟩
      regular := congrArg Except.ok hplain'.isFile_eq
      stat := ⟨f.stat, ?_, ?_⟩
      size := ?_
      observed := ⟨v.sha256, ?_⟩
      pinned := ?_ }
  · rw [hfield]
    show Json.sortKeys (.str v.path) = _
    rw [Json.sortKeys_str, h.path]
  · show ofWalk (T'.resolve (root.child e.path)) = _
    rw [hplain'.resolve_eq]
    rfl
  · show (ofWalk (T'.stat (root.child e.path))).map (·.stat) = _
    rw [hplain'.stat_eq]
    rfl
  · intro g hg
    rw [hfield]
    simp only [statFields, ← hstat, List.mem_cons, List.not_mem_nil, or_false] at hg
    rcases hg with rfl | rfl | rfl | rfl | rfl
    · exact Json.sortKeys_int _
    · exact Json.sortKeys_int _
    · exact Json.sortKeys_int _
    · exact Json.sortKeys_int _
    · exact Json.sortKeys_int _
  · rw [hfield]
    show Json.sortKeys (.int v.stat.size) = _
    rw [Json.sortKeys_int, hstat, ← hlen]
    rfl
  · rw [hfield]
    exact Json.sortKeys_str _
  · have hrec := h.recorded
    cases hk : e.pin with
    | sha256 d =>
      rw [hk] at hrec
      show Json.field _ "sha256" = _
      rw [hfield, show Json.field v.fields "sha256" = .str d.text from hrec, Json.sortKeys_str]
    | gitBlob d =>
      rw [hk] at hrec
      show Json.field _ "git_blob" = _
      rw [hfield, show Json.field v.fields "git_blob" = .str d.text from hrec, Json.sortKeys_str]

/-- What the verifier recorded adds up to what the lock announces. -/
theorem Hashed.sum_size {es : List Entry} {vs : List VerifiedFile}
    (h : List.Forall₂ (Hashed T sha256 sha1 root) es vs) :
    (vs.map fun v => v.stat.size).sum = (es.map fun e => (e.size : Int)).sum := by
  induction h with
  | nil => rfl
  | cons hv _ ih =>
    obtain ⟨f, -, hlen, -, hstat, -⟩ := hv.file
    rw [List.map_cons, List.map_cons, List.sum_cons, List.sum_cons, ih, hstat, ← hlen]
    rfl

theorem Covers.complete {inv : Inventory} {r : Receipt} (h : Covers T sha256 sha1 root inv r)
    (hsame : Tree.AgreeAt T T' root.parts) :
    Complete root inv (treeView T') (Json.sortKeysFields r.fields) := by
  obtain ⟨es, hperm, hfiles⟩ := h.files
  have hfield := field_sorted (nodup_receipt_fields r)
  have hlen : r.files.length = inv.files.list.length := by
    rw [← hfiles.length_eq, hperm.length_eq]
  refine
    { kind := ?_
      rootText := ?_
      model := ⟨Json.sortKeysFields [("id", .str r.id), ("sha", .str r.sha)], ?_, ?_, ?_, ?_⟩
      count := ?_
      rows := ⟨r.files.map fun v => Json.sortKeysFields v.fields, es, ?_, hperm, ?_⟩
      total := ?_ }
  · rw [hfield]
    exact Json.sortKeys_str _
  · rw [hfield]
    show Json.sortKeys (.str r.root.str) = _
    rw [Json.sortKeys_str, h.rootEq]
  · rw [hfield]
    exact Json.sortKeys_obj _
  · exact (Json.sortKeysFields_perm _).length_eq
  · rw [field_sorted (nodup_identity r)]
    show Json.sortKeys (.str r.id) = _
    rw [Json.sortKeys_str, h.idEq]
  · rw [field_sorted (nodup_identity r)]
    show Json.sortKeys (.str r.sha) = _
    rw [Json.sortKeys_str, h.shaEq]
  · rw [hfield]
    show Json.sortKeys (.int r.files.length) = _
    rw [Json.sortKeys_int, hlen]
  · rw [hfield]
    show Json.sortKeys (.arr (r.files.map fun v => .obj v.fields)) = _
    rw [Json.sortKeys_arr, List.map_map, List.map_map, Json.arr.injEq]
    exact List.map_congr_left fun v _ => Json.sortKeys_obj v.fields
  · rw [List.forall₂_map_right_iff]
    exact hfiles.imp fun e v hv => hv.rowVerified hsame
  · rw [hfield]
    show Json.sortKeys (.int (r.files.map fun v => v.stat.size).sum) = _
    rw [Json.sortKeys_int, Hashed.sum_size hfiles, (hperm.map fun e => (e.size : Int)).sum_eq]

/-! ## The verifier's own recheck -/

theorem recheckStat_ok {rel : Json} {v : VerifiedFile} {f : RegularFile} (h : v.stat = f.stat) :
    (statValues (Node.file f).stat).forM (recheckStat rel v.fields) = .ok () := by
  rw [show (Node.file f).stat = v.stat from h.symm]
  have hrow : ∀ g ∈ statValues v.stat, recheckStat rel v.fields g = .ok () := by
    intro g hg
    rw [recheckStat, reject_ok]
    simp only [statValues, List.mem_cons, List.not_mem_nil, or_false] at hg
    rcases hg with rfl | rfl | rfl | rfl | rfl
    all_goals exact bne_self_eq_false _
  generalize statValues v.stat = gs at hrow
  induction gs with
  | nil => rfl
  | cons g gs ih =>
    rw [List.forall_mem_cons] at hrow
    rw [List.forM_eq_forM, List.forM_cons, hrow.1]
    exact ih hrow.2

theorem recheckBlob_ok {rel : String} {p : PurePath} {v : VerifiedFile} {f : RegularFile}
    (hf : T.PlainFile p f) (h : ∀ b, v.gitBlob = some b → b = gitBlobOf sha1 f.data) :
    recheckBlob T sha1 rel p (Json.field v.fields "git_blob") = .ok () := by
  show recheckBlob T sha1 rel p (optText (v.gitBlob.map (·.text))) = .ok ()
  cases hg : v.gitBlob with
  | none => rfl
  | some b =>
    rw [h b hg]
    show recheckBlob T sha1 rel p (.str (gitBlobOf sha1 f.data).text) = .ok ()
    rw [recheckBlob, gitBlobSha1_plain hf, bind_ok]
    · refine ⟨_, rfl, ?_⟩
      rw [reject_ok, Json.isText_iff.mpr rfl]
      rfl
    · intro he
      cases he

theorem recheckRow_ok {e : Entry} {v : VerifiedFile} {seen : List String}
    (h : Hashed T sha256 sha1 root e v) (hsame : Tree.AgreeAt T T' root.parts)
    (hnew : e.path ∉ seen) :
    recheckRow T' sha256 sha1 root seen (.obj v.fields) = .ok (seen ++ [e.path]) := by
  obtain ⟨f, hplain, hlen, hsha, hstat, hblob⟩ := h.file
  have hplain' : T'.PlainFile (joinPath root e.path) f := by
    rw [← child_eq_joinPath h.safe]
    exact hsame.plainFile (prefix_child h.safe) hplain
  simp only [recheckRow, bind_ok, orRaise_ok, reject_ok, pure_ok, ofWalk_ok]
  refine ⟨v.fields, rfl, e.path, ?_, (), ?_, v.sha256, ?_, (), ?_, .file f, hplain'.lstat_eq, (),
    recheckStat_ok hstat, sha256 f.data, ?_, (), ?_, (), recheckBlob_ok hplain' hblob, .file f,
    hplain'.lstat_eq, (), ?_, rfl⟩
  · show some v.path = _
    rw [h.path]
  · rw [h.safe, Bool.not_true, Bool.false_or]
    simpa using hnew
  · show Hex.ofText? 64 v.sha256.text = _
    rw [Hex.ofText?_text]
  · rw [hplain'.realpath_eq, hplain'.isFile_eq]
    simp
  · show sha256File T' sha256 _ (f.data.length : Int).toNat = _
    rw [Int.toNat_natCast, sha256File_plain hplain']
  · rw [hsha]
    simp
  · simp

theorem recheckRows_ok {es : List Entry} {vs : List VerifiedFile}
    (h : List.Forall₂ (Hashed T sha256 sha1 root) es vs)
    (hsame : Tree.AgreeAt T T' root.parts) :
    ∀ {seen : List String}, (seen ++ es.map (·.path)).Nodup →
      (vs.map fun v => Json.obj v.fields).foldlM (recheckRow T' sha256 sha1 root) seen =
        .ok (seen ++ es.map (·.path)) := by
  induction h with
  | nil =>
    intro seen _
    rw [List.map_nil, List.map_nil, List.append_nil]
    rfl
  | @cons e v es vs hv _ ih =>
    intro seen hn
    have hn' : (seen ++ [e.path] ++ es.map (·.path)).Nodup := by
      rw [List.append_assoc]
      exact hn
    have hnew : e.path ∉ seen := by
      intro hmem
      exact (List.nodup_append.mp hn).2.2 _ hmem _ List.mem_cons_self rfl
    rw [List.map_cons, List.foldlM_cons, recheckRow_ok hv hsame hnew, bind_ok]
    refine ⟨_, rfl, ?_⟩
    rw [ih hn', List.append_assoc]
    rfl

theorem Covers.recheck {inv : Inventory} {r : Receipt} (h : Covers T sha256 sha1 root inv r)
    (hroot : T'.abspath root = root) (hsame : Tree.AgreeAt T T' root.parts) :
    checkReceiptAgainstTree T' sha256 sha1 r.fields root = .ok () := by
  obtain ⟨es, hperm, hfiles⟩ := h.files
  have hn : (es.map (·.path)).Nodup := (hperm.map (·.path)).nodup_iff.mpr inv.files.nodup
  have hn' : (([] : List String) ++ es.map (·.path)).Nodup := hn
  have hloop := recheckRows_ok hfiles hsame hn'
  simp only [checkReceiptAgainstTree, hroot, bind_ok, orRaise_ok, reject_ok]
  refine ⟨(), ?_, r.files.map fun v => .obj v.fields, rfl, (), ?_, (), rfl, _, hloop, (), ?_,
    [("id", .str r.id), ("sha", .str r.sha)], rfl, ?_⟩
  · show (!(Json.str r.root.str).isText root.str) = false
    rw [h.rootEq, Json.isText_iff.mpr rfl]
    rfl
  · rw [List.isEmpty_eq_false_iff]
    intro hnil
    exact h.nonempty (List.map_eq_nil_iff.mp hnil)
  · rw [List.length_map]
    exact bne_self_eq_false _
  · show (!(Json.str r.sha).truthy || !(Json.str r.id).truthy) = false
    have hsha : (Json.str r.sha).truthy = true := by
      rw [h.shaEq]
      exact decide_eq_true (Hex.text_ne_empty inv.revision)
    have hid : (Json.str r.id).truthy = true := by
      rw [h.idEq]
      rfl
    rw [hsha, hid]
    rfl

/-- A receipt the verifier returned is accepted by the launcher under the digest that
writing it returned, and by the verifier's recheck, as long as the checkpoint stays as it
was and the written text reads back as the receipt. -/
theorem verifyFiles_accepted {loads : Bytes → Except Exn Json} (dumps : Json → Bytes)
    {lockPath path : PurePath} {lock : Json} {lockRaw raw : Bytes} {inv : Inventory}
    {r : Receipt} {h : Hex 64} {written : RegularFile} (hroot : T.abspath root = root)
    (hlock : readJson loads (treeView T) lockPath = .ok (lock, lockRaw))
    (hinv : sourceInventory lock = .ok inv)
    (hverify : verifyFiles T loads sha256 sha1 root lockPath = .ok r)
    (hwrite : writeReceipt sha256 dumps r = (raw, h)) (hlen : raw.length ≤ jsonLimit)
    (hfile : T'.fileAt path = .ok written) (hdata : written.data = raw)
    (hsame : Tree.AgreeAt T T' root.parts)
    (hjson : loads raw = .ok (Json.sortKeys (.obj r.fields))) :
    checkReceipt loads sha256 (treeView T') path h.text root lock =
        .ok (Json.sortKeys (.obj r.fields)) ∧
      checkReceiptAgainstTree T' sha256 sha1 r.fields root = .ok () := by
  have hcovers : Covers T sha256 sha1 root inv r := verifyFiles_covers hroot hlock hinv hverify
  have hread : (treeView T').read path = .ok raw := by
    show (ofWalk (T'.fileAt path)).map (·.data) = .ok raw
    rw [hfile, ← hdata]
    rfl
  have hroot' : T'.abspath root = root := by
    rw [Tree.abspath, Tree.base_absolute hcovers.absolute] at hroot ⊢
    exact hroot
  rw [Json.sortKeys_obj] at hjson ⊢
  unfold writeReceipt at hwrite
  rw [Prod.mk.injEq] at hwrite
  obtain ⟨hraw, rfl⟩ := hwrite
  refine ⟨?_, hcovers.recheck hroot' hsame⟩
  rw [hraw]
  exact checkReceipt_accepts hread hlen hjson hinv (hcovers.complete hsame)

def sampleSha1 (_ : Bytes) : Hex 40 :=
  ⟨"0967ef424bce6791893e9a57bb952f80fd536e93", by decide⟩

/-- What the verifier returns on the sample. -/
def sampleReceipt : Receipt where
  id := modelId
  sha := "aaaaaaaaaaaaaaaaaaaaaaaaaaaaaaaaaaaaaaa1"
  root := sampleRoot
  rootStat := sampleStat
  locksSha256 := sampleSha256 (encode sampleLockText)
  files :=
    [⟨"config.json", sampleSha256 sampleConfig, some (sampleSha1 []), some (sampleSha1 []).text,
        none, some (sampleSha1 []).text, (sampleFile 11 1 sampleConfig).stat⟩,
      ⟨"weights/a.bin", sampleSha256 sampleWeights, none,
        some "cccccccccccccccccccccccccccccccccccccccc", some (sampleSha256 sampleWeights).text,
        none, (sampleFile 12 3 sampleWeights).stat⟩]

theorem sample_verified : verifyFiles (sampleTree none) sampleLoads sampleSha256 sampleSha1
    sampleRoot (.ofString "/sources.json") = .ok sampleReceipt := by
  decide +kernel

theorem sample_read_back :
    sampleLoads sampleRaw = .ok (Json.sortKeys (.obj sampleReceipt.fields)) := by
  decide +kernel

theorem sample_lock_read : readJson sampleLoads (treeView (sampleTree none))
    (.ofString "/sources.json") = .ok (sampleLock, encode sampleLockText) := by
  decide +kernel

theorem sample_lock_admitted : (sourceInventory sampleLock).toOption.isSome = true := by
  decide

theorem sample_same : Tree.AgreeAt (sampleTree none) sampleLive sampleRoot.parts := by
  have hroot : sampleRoot.parts = ["model"] := by decide
  intro parts hparts
  have hne : parts ≠ ["receipt.json"] := by
    intro he
    rw [hroot, he] at hparts
    revert hparts
    decide
  show (if parts = ["receipt.json"] then _ else sampleNode parts) =
    if parts = ["receipt.json"] then _ else sampleNode parts
  rw [if_neg hne, if_neg hne]

theorem verifyFiles_accepted_sample :
    checkReceipt sampleLoads sampleSha256 (treeView sampleLive) (.ofString "/receipt.json")
        (sampleSha256 sampleRaw).text sampleRoot sampleLock =
          .ok (Json.sortKeys (.obj sampleReceipt.fields)) ∧
      checkReceiptAgainstTree sampleLive sampleSha256 sampleSha1 sampleReceipt.fields
        sampleRoot = .ok () := by
  obtain ⟨inv, hinv⟩ : ∃ inv, sourceInventory sampleLock = .ok inv := by
    have hs := sample_lock_admitted
    cases hc : sourceInventory sampleLock with
    | ok inv => exact ⟨inv, rfl⟩
    | error e =>
      rw [hc] at hs
      cases hs
  exact verifyFiles_accepted (fun _ => encode sampleReceiptText) (by decide)
    sample_lock_read hinv sample_verified rfl (by decide +kernel) rfl rfl sample_same
    sample_read_back

end Checkpoint
end FlashNext
