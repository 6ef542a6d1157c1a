import FlashNext.Checkpoint.Receipt
import FlashNext.Json.Load

/-!
# What an accepted receipt says

Every accepted receipt has its rows in one-to-one correspondence with the inventory, and
every row describes the file that now stands at its path.
-/

namespace FlashNext
namespace Checkpoint

open Effect Posix Text

/-- A row of the receipt carries the digest the lock pins its file by. -/
def Pin.RecordedIn (row : List (String × Json)) : Pin → Prop
  | .sha256 h => Json.field row "sha256" = .str h.text
  | .gitBlob h => Json.field row "git_blob" = .str h.text

/-- What the calls said about one row and its entry. -/
structure RowVerified (view : View) (root : PurePath) (e : Entry)
    (row : List (String × Json)) : Prop where
  path : Json.field row "path" = .str e.path
  notLink : view.isSymlink (root.child e.path) = .ok false
  inside : ∃ real, view.resolve (root.child e.path) = .ok real ∧ real.isRelativeTo root = true
  regular : view.isFile (root.child e.path) = .ok true
  stat : ∃ st, view.stat (root.child e.path) = .ok st ∧
    ∀ f ∈ statFields st, Json.field row f.1 = .int f.2
  size : Json.field row "size" = .int e.size
  observed : ∃ h : Hex 64, Json.field row "sha256" = .str h.text
  pinned : e.pin.RecordedIn row

theorem checkPin_ok {pin : Pin} {row : List (String × Json)} {u : Unit} :
    checkPin pin row = .ok u ↔ pin.RecordedIn row := by
  cases pin with
  | sha256 h =>
    rw [checkPin, reject_ok, Bool.not_eq_false', Json.isText_iff]
    exact Iff.rfl
  | gitBlob h =>
    rw [checkPin, reject_ok, Bool.not_eq_false', Json.isText_iff]
    exact Iff.rfl

theorem checkRow_ok {view : View} {root : PurePath} {inv : Inventory}
    {row : List (String × Json)} {n : Int} (h : checkRow view root inv row = .ok n) :
    ∃ e ∈ inv.files.list, RowVerified view root e row ∧ n = (e.size : Int) := by
  simp only [checkRow, bind_ok, orRaise_ok, reject_ok, pure_ok, requireHex_ok] at h
  obtain ⟨e, he, link, hlink, -, rfl, real, hreal, -, hin, regular, hreg, -, hregular, st, hst,
    -, hstat, -, hsize, hex, hhex, _, hpin, hn⟩ := h
  have hpath := List.find?_some he
  rw [Json.isText_iff] at hpath
  refine ⟨e, List.mem_of_find?_eq_some he, ?_, hn.symm⟩
  rw [Bool.not_eq_false'] at hin hregular
  rw [bne_eq_false_iff_eq, Json.asInt?_eq_some] at hsize
  rw [List.any_eq_false] at hstat
  refine
    { path := hpath
      notLink := hlink
      inside := ⟨real, hreal, hin⟩
      regular := hregular ▸ hreg
      stat := ⟨st, hst, ?_⟩
      size := hsize
      observed := ⟨hex, hhex⟩
      pinned := checkPin_ok.mp hpin }
  intro f hf
  have hne := hstat f hf
  rw [bne_iff_ne, not_not, Json.asInt?_eq_some] at hne
  exact hne

theorem checkRow_size {view : View} {root : PurePath} {inv : Inventory}
    {rows : List (List (String × Json))} {sizes : List Int}
    (h : List.Forall₂ (fun row n => checkRow view root inv row = .ok n) rows sizes) :
    ∃ es : List Entry, (∀ e ∈ es, e ∈ inv.files.list) ∧
      List.Forall₂ (RowVerified view root) es rows ∧ sizes = es.map fun e => (e.size : Int) := by
  induction h with
  | nil => exact ⟨[], by simp, .nil, rfl⟩
  | cons hn _ ih =>
    obtain ⟨e, he, hrow, rfl⟩ := checkRow_ok hn
    obtain ⟨es, hes, hrows, rfl⟩ := ih
    exact ⟨e :: es, List.forall_mem_cons.mpr ⟨he, hes⟩, .cons hrow hrows, rfl⟩

theorem hashable_ok {j k : Json} (h : hashable j = .ok k) : k = j := by
  cases j with
  | arr xs => cases h
  | obj fs => cases h
  | _ => exact (Except.ok.inj h).symm

theorem eq_map_of_forall₂ {α β : Type} {f : α → β} {xs : List α} {ys : List β}
    (h : List.Forall₂ (fun x y => y = f x) xs ys) : ys = xs.map f := by
  induction h with
  | nil => rfl
  | cons hy _ ih => rw [List.map_cons, hy, ih]

/-- Names are distinct, so entries of one name are one entry. -/
theorem Entries.eq_of_path {es : Entries} {a b : Entry} (ha : a ∈ es.list) (hb : b ∈ es.list)
    (h : a.path = b.path) : a = b := List.inj_on_of_nodup_map es.nodup ha hb h

/-- As many entries as the inventory has, and every name of it among them: counting
leaves no room for a repetition. -/
theorem perm_of_covers {inv : Inventory} {es : List Entry}
    (hmem : ∀ e ∈ es, e ∈ inv.files.list)
    (hcover : ∀ e ∈ inv.files.list, ∃ e' ∈ es, e'.path = e.path)
    (hlen : es.length = inv.files.list.length) : es.Perm inv.files.list := by
  have hnodup : inv.files.list.Nodup := inv.files.nodup.of_map
  have hsub : inv.files.list ⊆ es := by
    intro e he
    obtain ⟨e', he', hpath⟩ := hcover e he
    have heq : e' = e := Entries.eq_of_path (hmem e' he') he hpath
    exact heq ▸ he'
  have hperm : inv.files.list.Perm es :=
    (List.subperm_of_subset hnodup hsub).perm_of_length_le (by omega)
  exact hperm.symm

/-- What acceptance says, in terms of the calls. -/
structure Attested (loads : Bytes → Except Exn Json) (sha256 : Bytes → Hex 64) (view : View)
    (path : PurePath) (expectedHash : String) (root : PurePath) (sources receipt : Json) :
    Prop where
  digest : ∃ raw, view.read path = .ok raw ∧ loads raw = .ok receipt ∧
    (sha256 raw).text = expectedHash
  rows : ∃ inv fields rows es, sourceInventory sources = .ok inv ∧ receipt = .obj fields ∧
    Json.field fields "files" = .arr (rows.map .obj) ∧
    es.Perm inv.files.list ∧ List.Forall₂ (RowVerified view root) es rows ∧
    Json.field fields "total_bytes" = .int (inv.files.list.map fun e => (e.size : Int)).sum

theorem checkReceipt_attested {loads : Bytes → Except Exn Json} {sha256 : Bytes → Hex 64}
    {view : View} {path root : PurePath} {expectedHash : String} {sources receipt : Json}
    (h : checkReceipt loads sha256 view path expectedHash root sources = .ok receipt) :
    Attested loads sha256 view path expectedHash root sources receipt := by
  simp only [checkReceipt, readJson, bind_ok, orRaise_ok, reject_ok, pure_ok] at h
  obtain ⟨_, -, _, ⟨content, hread, -, hlen, doc, hloads, rfl⟩, -, hdigest, inv, hinv,
    fields, hfields, -, -, model, -, -, -, files, hfiles, -, -, rows, hrows, -, hcount, paths,
    hpaths, -, hsame, sizes, hsizes, -, htotal, rfl⟩ := h
  have hrows' : List.Forall₂ (fun row j => j = Json.obj row) rows files := by
    refine (List.Forall₂.flip (mapM_ok.mp hrows)).imp fun row j hj => ?_
    rw [orRaise_ok, Json.asObj?_eq_some] at hj
    exact hj
  have hpaths' : paths = rows.map fun row => Json.field row "path" :=
    eq_map_of_forall₂ ((mapM_ok.mp hpaths).imp fun _ _ hj => hashable_ok hj)
  rw [Json.asObj?_eq_some] at hfields
  rw [Json.asArr?_eq_some, eq_map_of_forall₂ hrows'] at hfiles
  rw [hpaths'] at hsame
  rw [bne_eq_false_iff_eq] at hdigest hcount htotal
  obtain ⟨es, hmem, hverified, rfl⟩ := checkRow_size (mapM_ok.mp hsizes)
  have hperm : es.Perm inv.files.list := by
    refine perm_of_covers hmem ?_ (by rw [hverified.length_eq, hcount])
    intro e he
    rw [Bool.not_eq_false', samePaths, Bool.and_eq_true, List.all_eq_true, List.all_eq_true]
      at hsame
    have hany := hsame.2 e he
    rw [List.any_map, List.any_eq_true] at hany
    obtain ⟨row, hrow, htext⟩ := hany
    obtain ⟨e', he', hv⟩ := Effect.forall₂_exists_left hverified row hrow
    have hp : Json.field row "path" = .str e.path := Json.isText_iff.mp htext
    rw [hv.path, Json.str.injEq] at hp
    exact ⟨e', he', hp⟩
  have hraw : content.take (jsonLimit + 1) = content := by
    rw [decide_eq_false_iff_not, Nat.not_lt, List.length_take] at hlen
    exact List.take_of_length_le (by omega)
  refine ⟨⟨content, hread, hraw ▸ hloads, hraw ▸ hdigest⟩, inv, fields, rows, es, hinv, hfields,
    hfiles, hperm, hverified, ?_⟩
  rw [Json.asInt?_eq_some] at htotal
  rw [htotal, (hperm.map fun e => (e.size : Int)).sum_eq]

/-! ## On a tree -/

/-- The regular file behind a path that is no link and stays inside the root. -/
def Holds (T : Tree) (root : PurePath) (path : PurePath) (f : RegularFile) : Prop :=
  T.isSymlink path = false ∧
    ∃ real, T.resolve path = .ok real ∧ real.isRelativeTo root = true ∧
      T.node real.parts = some (.file f)

/-- What a verified row records of the file at its path and of the lock. -/
structure RowAttests (T : Tree) (root : PurePath) (e : Entry)
    (row : List (String × Json)) : Prop where
  path : Json.field row "path" = .str e.path
  live : ∃ f, Holds T root (root.child e.path) f ∧
    ∀ g ∈ statFields f.stat, Json.field row g.1 = .int g.2
  size : Json.field row "size" = .int e.size
  pinned : e.pin.RecordedIn row

theorem RowVerified.attests {T : Tree} {root : PurePath} {e : Entry}
    {row : List (String × Json)} (h : RowVerified (treeView T) root e row) :
    RowAttests T root e row := by
  obtain ⟨real, hreal, hin⟩ := h.inside
  obtain ⟨st, hst, hfields⟩ := h.stat
  have hfile : T.isFile (root.child e.path) = true := Except.ok.inj h.regular
  have hresolve : T.resolve (root.child e.path) = .ok real := ofWalk_ok.mp hreal
  obtain ⟨node, hnode, rfl⟩ := map_ok.mp hst
  have hstat : T.stat (root.child e.path) = .ok node := ofWalk_ok.mp hnode
  unfold Tree.isFile at hfile
  rw [hstat] at hfile
  unfold Tree.resolve at hresolve
  unfold Tree.stat at hstat
  cases hw : T.walk T.maxLinks (Tree.base (root.child e.path) T.cwd) (root.child e.path).parts with
  | error err =>
    rw [hw] at hresolve
    cases hresolve
  | ok parts =>
    rw [hw] at hresolve hstat
    rw [Except.ok.injEq] at hresolve
    cases node with
    | file f =>
      refine ⟨h.path, ⟨f, ⟨Except.ok.inj h.notLink, real, ?_, hin, ?_⟩, hfields⟩, h.size, h.pinned⟩
      · exact ofWalk_ok.mp hreal
      · cases hn : T.node parts with
        | none =>
          simp only [hn] at hstat
          cases hstat
        | some node =>
          simp only [hn, Except.ok.injEq] at hstat
          rw [← hresolve]
          exact hstat ▸ hn
    | directory st => cases hfile
    | symlink st target => cases hfile
    | special st => cases hfile

/-- An accepted receipt: its bytes have the supplied digest, its rows are the inventory in
some order, each with the identity of the file now standing at its path, its locked size
and its pinned digest, and the total is the sum of the locked sizes. -/
theorem checkReceipt_sound {loads : Bytes → Except Exn Json} {sha256 : Bytes → Hex 64} {T : Tree}
    {path root : PurePath} {expectedHash : String} {sources receipt : Json}
    (h : checkReceipt loads sha256 (treeView T) path expectedHash root sources = .ok receipt) :
    ∃ file inv fields rows es,
      T.fileAt path = .ok file ∧ loads file.data = .ok receipt ∧
      (sha256 file.data).text = expectedHash ∧
      sourceInventory sources = .ok inv ∧ (inv.files.list.map (·.path)).Nodup ∧
      receipt = .obj fields ∧ Json.field fields "files" = .arr (rows.map .obj) ∧
      es.Perm inv.files.list ∧ List.Forall₂ (RowAttests T root) es rows ∧
      Json.field fields "total_bytes" = .int (inv.files.list.map fun e => (e.size : Int)).sum := by
  obtain ⟨⟨raw, hread, hloads, hdigest⟩, inv, fields, rows, es, hinv, hfields, hfiles, hperm,
    hverified, htotal⟩ := checkReceipt_attested h
  obtain ⟨file, hfile, rfl⟩ := map_ok.mp hread
  have hrows : List.Forall₂ (RowAttests T root) es rows :=
    hverified.imp fun _ _ hv => hv.attests
  exact ⟨file, inv, fields, rows, es, ofWalk_ok.mp hfile, hloads, hdigest, hinv, inv.files.nodup,
    hfields, hfiles, hperm, hrows, htotal⟩

/-! ## A small checkpoint -/

def sampleConfig : Bytes := encode "\x7b\x7d\n"

def sampleWeights : Bytes := [0, 1, 2]

def sampleStat : Stat where
  dev := 64
  inode := 10
  size := 4096
  mtimeNs := 1
  ctimeNs := 2

def sampleFile (inode stamp : Int) (data : Bytes) : Node :=
  .file ⟨64, inode, 1700000000000000000 + stamp, 1700000000000000001 + stamp, data⟩

/-- A lock of two files, one pinned by each kind of digest. -/
def sampleLockText : String := "\n".intercalate [
  "\x7b",
  " \"model\": \x7b",
  "  \"id\": \"nvidia/Qwen3.8-Flash-Next-NVFP4\",",
  "  \"sha\": \"aaaaaaaaaaaaaaaaaaaaaaaaaaaaaaaaaaaaaaa1\",",
  "  \"files\": [",
  "   \x7b",
  "    \"path\": \"weights/a.bin\",",
  "    \"size\": 3,",
  "    \"sha256\": \"ae4b3280e56e2faf83f414a6e3dabe9d5fbe18976544c05fed121accb85b53fc\",",
  "    \"git_blob\": \"cccccccccccccccccccccccccccccccccccccccc\"",
  "   \x7d,",
  "   \x7b",
  "    \"path\": \"config.json\",",
  "    \"size\": 3,",
  "    \"sha256\": null,",
  "    \"git_blob\": \"0967ef424bce6791893e9a57bb952f80fd536e93\"",
  "   \x7d",
  "  ]",
  " \x7d",
  "\x7d"]

/-- The receipt of the two files. -/
def sampleReceiptText : String := "\n".intercalate [
  "\x7b",
  "  \"file_count\": 2,",
  "  \"files\": [",
  "    \x7b",
  "      \"ctime_ns\": 1700000000000000002,",
  "      \"dev\": 64,",
  "      \"expected_git_blob\": \"0967ef424bce6791893e9a57bb952f80fd536e93\",",
  "      \"expected_sha256\": null,",
  "      \"git_blob\": \"0967ef424bce6791893e9a57bb952f80fd536e93\",",
  "      \"inode\": 11,",
  "      \"mtime_ns\": 1700000000000000001,",
  "      \"path\": \"config.json\",",
  "      \"sha256\": \"ca3d163bab055381827226140568f3bef7eaac187cebd76878e0b63e9e442356\",",
  "      \"size\": 3,",
  "      \"source_git_blob\": \"0967ef424bce6791893e9a57bb952f80fd536e93\"",
  "    \x7d,",
  "    \x7b",
  "      \"ctime_ns\": 1700000000000000004,",
  "      \"dev\": 64,",
  "      \"expected_git_blob\": null,",
  "      \"expected_sha256\": " ++
    "\"ae4b3280e56e2faf83f414a6e3dabe9d5fbe18976544c05fed121accb85b53fc\",",
  "      \"git_blob\": null,",
  "      \"inode\": 12,",
  "      \"mtime_ns\": 1700000000000000003,",
  "      \"path\": \"weights/a.bin\",",
  "      \"sha256\": \"ae4b3280e56e2faf83f414a6e3dabe9d5fbe18976544c05fed121accb85b53fc\",",
  "      \"size\": 3,",
  "      \"source_git_blob\": \"cccccccccccccccccccccccccccccccccccccccc\"",
  "    \x7d",
  "  ],",
  "  \"kind\": \"CHECKPOINT_VERIFIED\",",
  "  \"locks_sha256\": \"35887cc373e442d62baa3ef2ec4ca9f407f3b161f5a7fbfdf5ada79aa8bcbaf8\",",
  "  \"model\": \x7b",
  "    \"id\": \"nvidia/Qwen3.8-Flash-Next-NVFP4\",",
  "    \"sha\": \"aaaaaaaaaaaaaaaaaaaaaaaaaaaaaaaaaaaaaaa1\"",
  "  \x7d,",
  "  \"root\": \"/model\",",
  "  \"root_stat\": \x7b",
  "    \"ctime_ns\": 2,",
  "    \"dev\": 64,",
  "    \"inode\": 10,",
  "    \"mtime_ns\": 1,",
  "    \"size\": 4096",
  "  \x7d,",
  "  \"total_bytes\": 6,",
  "  \"verification\": \"FULL\"",
  "\x7d"]

/-- The checkpoint under `/model` and the lock beside it. -/
def sampleNode : List String → Option Node
  | [] => some (.directory sampleStat)
  | ["model"] => some (.directory sampleStat)
  | ["model", "config.json"] => some (sampleFile 11 1 sampleConfig)
  | ["model", "weights"] => some (.directory sampleStat)
  | ["model", "weights", "a.bin"] => some (sampleFile 12 3 sampleWeights)
  | ["sources.json"] => some (sampleFile 13 5 (encode sampleLockText))
  | _ => none

/-- The same with the receipt, once it is written. -/
def sampleTree (receipt : Option Bytes) : Tree where
  node parts := if parts = ["receipt.json"] then receipt.map (sampleFile 14 7) else sampleNode parts
  cwd := []
  maxLinks := 40

/-- Strict reading of ASCII text. -/
def sampleLoads (raw : Bytes) : Except Exn Json :=
  orRaise (Json.loadsStrict (asciiChars raw)) (.value "JSONDecodeError")

/-- The SHA-256 digests of the four contents of the sample. -/
def sampleSha256 (data : Bytes) : Hex 64 :=
  if data = sampleConfig then
    ⟨"ca3d163bab055381827226140568f3bef7eaac187cebd76878e0b63e9e442356", by decide⟩
  else if data = sampleWeights then
    ⟨"ae4b3280e56e2faf83f414a6e3dabe9d5fbe18976544c05fed121accb85b53fc", by decide⟩
  else if data = encode sampleLockText then
    ⟨"35887cc373e442d62baa3ef2ec4ca9f407f3b161f5a7fbfdf5ada79aa8bcbaf8", by decide⟩
  else
    ⟨"d72d07a30235f8fb1f89b225f179ae0968a2a6fd24f78abf698dbdc65b1165a3", by decide⟩

def sampleReceiptSha256 : String :=
  "d72d07a30235f8fb1f89b225f179ae0968a2a6fd24f78abf698dbdc65b1165a3"

def sampleRoot : PurePath := .ofString "/model"

/-- The lock as it is read. -/
def sampleLock : Json := .obj
  [("model", .obj
    [("id", .str modelId), ("sha", .str "aaaaaaaaaaaaaaaaaaaaaaaaaaaaaaaaaaaaaaa1"),
      ("files", .arr
        [.obj [("path", .str "weights/a.bin"), ("size", .int 3),
            ("sha256", .str "ae4b3280e56e2faf83f414a6e3dabe9d5fbe18976544c05fed121accb85b53fc"),
            ("git_blob", .str "cccccccccccccccccccccccccccccccccccccccc")],
          .obj [("path", .str "config.json"), ("size", .int 3), ("sha256", .null),
            ("git_blob", .str "0967ef424bce6791893e9a57bb952f80fd536e93")]])])]

def sampleRaw : Bytes := encode sampleReceiptText ++ encode "\n"

def sampleLive : Tree := sampleTree (some sampleRaw)

theorem sample_accepted : (checkReceipt sampleLoads sampleSha256 (treeView sampleLive)
    (.ofString "/receipt.json") sampleReceiptSha256 sampleRoot sampleLock).toOption.isSome =
      true := by
  decide +kernel

theorem checkReceipt_sound_sample :
    ∃ receipt inv rows es, checkReceipt sampleLoads sampleSha256 (treeView sampleLive)
        (.ofString "/receipt.json") sampleReceiptSha256 sampleRoot sampleLock = .ok receipt ∧
      sourceInventory sampleLock = .ok inv ∧ es.Perm inv.files.list ∧
      List.Forall₂ (RowAttests sampleLive sampleRoot) es rows := by
  obtain ⟨receipt, h⟩ : ∃ receipt, checkReceipt sampleLoads sampleSha256 (treeView sampleLive)
      (.ofString "/receipt.json") sampleReceiptSha256 sampleRoot sampleLock = .ok receipt := by
    have hs := sample_accepted
    cases hc : checkReceipt sampleLoads sampleSha256 (treeView sampleLive)
        (.ofString "/receipt.json") sampleReceiptSha256 sampleRoot sampleLock with
    | ok receipt => exact ⟨receipt, rfl⟩
    | error e =>
      rw [hc] at hs
      cases hs
  obtain ⟨file, inv, fields, rows, es, -, -, -, hinv, -, -, -, hperm, hrows, -⟩ :=
    checkReceipt_sound h
  exact ⟨receipt, inv, rows, es, h, hinv, hperm, hrows⟩

end Checkpoint
end FlashNext
