import FlashNext.Checkpoint.ReceiptSound
import FlashNext.Checkpoint.Verify

/-!
# The verifier's receipts are accepted

The verifier and the launcher read one lock with two sets of rules.  Row by row the two
readings agree, so what the verifier recorded is what the launcher looks for.
-/

namespace FlashNext
namespace Checkpoint

open Effect Posix Text

/-! ## Two readings of a row -/

/-- A row of the lock pins its file by this digest. -/
def Pin.PinnedIn (row : List (String × Json)) : Pin → Prop
  | .sha256 h => Json.field row "sha256" = .str h.text
  | .gitBlob h => Json.field row "sha256" = .null ∧ Json.field row "git_blob" = .str h.text

/-- How the launcher reads a row of the lock. -/
structure ReadsEntry (row : List (String × Json)) (e : Entry) : Prop where
  path : Json.field row "path" = .str e.path
  size : Json.field row "size" = .int e.size
  pin : e.pin.PinnedIn row

theorem rowPin_ok {row : List (String × Json)} {pin : Pin} (h : rowPin row = .ok pin) :
    pin.PinnedIn row := by
  unfold rowPin at h
  split at h
  · next hnull =>
    simp only [bind_ok, requireHex_ok, pure_ok] at h
    obtain ⟨blob, hblob, rfl⟩ := h
    exact ⟨hnull, hblob⟩
  · simp only [bind_ok, requireHex_ok, pure_ok] at h
    obtain ⟨sha, hsha, rfl⟩ := h
    exact hsha

theorem sourceRow_ok {es es' : Entries} {row : Json} (h : sourceRow es row = .ok es') :
    ∃ e, es'.list = es.list ++ [e] ∧ ∃ fields, row = .obj fields ∧ ReadsEntry fields e := by
  simp only [sourceRow, bind_ok, orRaise_ok, Json.asObj?_eq_some, Json.asStr?_eq_some] at h
  obtain ⟨fields, rfl, name, hname, h⟩ := h
  split at h
  · next hsafe =>
    split at h
    · cases h
    · next hnew =>
      simp only [bind_ok, orRaise_ok, Json.asInt?_eq_some, reject_ok, pure_ok,
        decide_eq_false_iff_not, not_lt] at h
      obtain ⟨size, hsize, -, hpos, pin, hpin, rfl⟩ := h
      refine ⟨⟨name, size.toNat, pin, hsafe⟩, rfl, fields, rfl, hname, ?_, rowPin_ok hpin⟩
      rw [hsize, Int.toNat_of_nonneg hpos]
  · cases h

/-- How the verifier reads a row of the lock. -/
structure ReadsWant (row : List (String × Json)) (w : Want) : Prop where
  path : Json.field row "path" = .str w.rel
  safe : safeRelpath w.rel = true
  sha256 : lockDigest (Json.field row "sha256") 64
    (.verify "inventory entry %r sha256 malformed" [.str w.rel]) = .ok w.sha256
  blob : lockDigest (Json.field row "git_blob") 40
    (.verify "inventory entry %r git_blob malformed" [.str w.rel]) = .ok w.sourceGitBlob
  gitBlob : w.gitBlob = if w.sha256 = none then w.sourceGitBlob else none
  size : w.size = Json.field row "size"

theorem wantRow_ok {ws ws' : List Want} {row : List (String × Json)}
    (h : wantRow ws row = .ok ws') : ∃ w, ws' = ws ++ [w] ∧ ReadsWant row w := by
  simp only [wantRow, bind_ok, orRaise_ok, Json.asStr?_eq_some, reject_ok, pure_ok] at h
  obtain ⟨rel, hrel, -, hsafe, -, -, -, -, sha, hsha, blob, hblob, rfl⟩ := h
  rw [Bool.not_eq_false'] at hsafe
  exact ⟨_, rfl, hrel, hsafe, hsha, hblob, rfl, rfl⟩

/-- What the verifier expects of a file pinned by this digest. -/
def Pin.WantedBy (w : Want) : Pin → Prop
  | .sha256 h => w.sha256 = some h.text ∧ w.gitBlob = none
  | .gitBlob h => w.sha256 = none ∧ w.gitBlob = some h.text

/-- The two readings of one row. -/
structure Agrees (e : Entry) (w : Want × Nat) : Prop where
  path : w.1.rel = e.path
  size : w.2 = e.size
  safe : safeRelpath e.path = true
  pin : e.pin.WantedBy w.1

theorem lockDigest_str {s : String} {length : Nat} {e : Exn} {d : Option String}
    (h : lockDigest (.str s) length e = .ok d) : d = some s := by
  rw [lockDigest] at h
  split at h
  · rw [Except.ok.injEq] at h
    exact h.symm
  · cases h

theorem wantSize_ok {w : Want} {p : Want × Nat} (h : wantSize w = .ok p) :
    p.1 = w ∧ w.size = .int p.2 := by
  simp only [wantSize, bind_ok, orRaise_ok, Json.asInt?_eq_some, reject_ok, pure_ok,
    decide_eq_false_iff_not, not_lt] at h
  obtain ⟨size, hsize, -, hpos, rfl⟩ := h
  refine ⟨rfl, ?_⟩
  rw [hsize, Int.toNat_of_nonneg hpos]

theorem agrees_of_reads {row : List (String × Json)} {e : Entry} {w : Want} {p : Want × Nat}
    (he : ReadsEntry row e) (hw : ReadsWant row w) (hp : wantSize w = .ok p) : Agrees e p := by
  obtain ⟨rfl, hsize⟩ := wantSize_ok hp
  have hrel : p.1.rel = e.path := by
    have h := hw.path
    rw [he.path, Json.str.injEq] at h
    exact h.symm
  refine ⟨hrel, ?_, hrel ▸ hw.safe, ?_⟩
  · have h := hw.size
    rw [hsize, he.size, Json.int.injEq] at h
    exact Int.ofNat_inj.mp h
  · have hpin := he.pin
    cases hk : e.pin with
    | sha256 h =>
      rw [hk] at hpin
      have hsha := hw.sha256
      rw [hpin] at hsha
      have hs : p.1.sha256 = some h.text := lockDigest_str hsha
      refine ⟨hs, ?_⟩
      rw [hw.gitBlob, hs]
      rfl
    | gitBlob h =>
      rw [hk] at hpin
      have hsha := hw.sha256
      have hblob := hw.blob
      rw [hpin.1] at hsha
      rw [hpin.2] at hblob
      have hs : p.1.sha256 = none := (Except.ok.inj hsha).symm
      refine ⟨hs, ?_⟩
      rw [hw.gitBlob, if_pos hs]
      exact lockDigest_str hblob

/-! ## Paths -/

theorem rootOf_ne_none {cs : List Char} (h : PurePath.rootOf cs ≠ .none) : cs.head? = some '/' := by
  cases cs with
  | nil => exact absurd rfl h
  | cons c cs =>
    by_cases hc : c = '/'
    · rw [hc]
      rfl
    · refine absurd ?_ h
      unfold PurePath.rootOf
      split
      · next heq => exact absurd (List.cons.inj heq).1 hc
      · next heq => exact absurd (List.cons.inj heq).1 hc
      · next heq => exact absurd (List.cons.inj heq).1 hc
      · rfl

/-- The two ways of joining a safe name to the root give the same path. -/
theorem child_eq_joinPath {root : PurePath} {rel : String} (h : safeRelpath rel = true) :
    root.child rel = joinPath root rel := by
  simp only [safeRelpath, Bool.and_eq_true, decide_eq_true_eq] at h
  obtain ⟨⟨⟨⟨⟨-, -⟩, hhead⟩, -⟩, -⟩, hparts⟩ := h
  have habs : (PurePath.ofString rel).isAbsolute = false := by
    unfold PurePath.isAbsolute
    rw [decide_eq_false_iff_not, not_not]
    by_contra hne
    exact hhead (rootOf_ne_none hne)
  have hfilter : (PurePath.ofString rel).parts = splitSlash rel := by
    unfold PurePath.ofString
    rw [List.filter_eq_self]
    intro part hpart
    have hp := List.all_eq_true.mp hparts part hpart
    rw [Bool.and_eq_true] at hp
    exact hp.1
  rw [PurePath.child, PurePath.join_relative habs, hfilter]
  rfl

/-! ## Hashing a file that stays as it is -/

theorem hashLoop_eq {path : PurePath} {data : Bytes} {rounds : Nat} :
    ∀ {offset remaining : Nat} {acc : Bytes}, remaining ≤ rounds →
      offset + remaining ≤ data.length →
      hashLoop path data rounds offset remaining acc =
        .ok (acc ++ (data.drop offset).take remaining, offset + remaining) := by
  induction rounds with
  | zero =>
    intro offset remaining acc hr _
    obtain rfl : remaining = 0 := by omega
    rw [hashLoop, List.take_zero, List.append_nil, Nat.add_zero]
  | succ rounds ih =>
    intro offset remaining acc hr hlen
    rw [hashLoop]
    by_cases h0 : remaining = 0
    · subst h0
      rw [if_pos rfl, List.take_zero, List.append_nil, Nat.add_zero]
    · have hchunk : ((data.drop offset).take (min chunkSize remaining)).length =
          min chunkSize remaining := by
        rw [List.length_take, List.length_drop]
        omega
      have hpos : 0 < min chunkSize remaining := by
        have : 0 < chunkSize := by decide
        omega
      have hne : (data.drop offset).take (min chunkSize remaining) ≠ [] := by
        intro he
        rw [he, List.length_nil] at hchunk
        omega
      rw [if_neg h0]
      simp only [if_neg hne]
      rw [hchunk, ih (by omega) (by omega)]
      have hsplit : (data.drop offset).take remaining =
          (data.drop offset).take (min chunkSize remaining) ++
            (data.drop (offset + min chunkSize remaining)).take
              (remaining - min chunkSize remaining) := by
        rw [← List.drop_drop, ← List.take_add]
        congr 1
        omega
      rw [hsplit, List.append_assoc]
      congr 2
      omega

theorem blobLoop_eq {data : Bytes} {rounds : Nat} :
    ∀ {offset : Nat} {acc : Bytes}, data.length < offset + rounds →
      blobLoop data rounds offset acc = acc ++ data.drop offset := by
  induction rounds with
  | zero =>
    intro offset acc h
    rw [blobLoop, List.drop_eq_nil_of_le (by omega), List.append_nil]
  | succ rounds ih =>
    intro offset acc h
    rw [blobLoop]
    by_cases he : (data.drop offset).take chunkSize = []
    · rw [if_pos he]
      have hdrop : data.drop offset = [] := by
        rcases List.take_eq_nil_iff.mp he with h0 | hd
        · exact absurd h0 (by decide)
        · exact hd
      rw [hdrop, List.append_nil]
    · have hpos : 0 < ((data.drop offset).take chunkSize).length :=
        List.length_pos_iff.mpr he
      have hsplit : data.drop (offset + ((data.drop offset).take chunkSize).length) =
          (data.drop offset).drop chunkSize := by
        rw [← List.drop_drop, List.length_take]
        rcases Nat.le_total chunkSize (data.drop offset).length with hle | hle
        · rw [Nat.min_eq_left hle]
        · rw [Nat.min_eq_right hle, List.drop_length, List.drop_eq_nil_of_le hle]
      simp only [if_neg he]
      rw [ih (by omega), List.append_assoc, hsplit, List.take_append_drop]

section

variable {T : Tree} {p : PurePath} {f : RegularFile} {sha256 : Bytes → Hex 64}
  {sha1 : Bytes → Hex 40}

theorem openFile_plain (h : T.PlainFile p f) : openFile T p = .ok f := by
  rw [openFile, h.fileAt_eq]
  rfl

theorem sha256File_plain (h : T.PlainFile p f) :
    sha256File T sha256 p f.data.length = .ok (sha256 f.data) := by
  unfold sha256File
  rw [openFile_plain h, bind_ok]
  refine ⟨f, rfl, ?_⟩
  rw [hashLoop_eq (Nat.le_refl _) (by omega), bind_ok]
  refine ⟨_, rfl, ?_⟩
  rw [bind_ok]
  refine ⟨(), ?_, ?_⟩
  · rw [reject_ok]
    simp
  · rw [pure_ok]
    simp

/-- The Git blob identifier of a content. -/
def gitBlobOf (sha1 : Bytes → Hex 40) (data : Bytes) : Hex 40 :=
  sha1 (encode ("blob " ++ toString (data.length : Int)) ++ [0] ++ data)

theorem gitBlobSha1_plain (h : T.PlainFile p f) :
    gitBlobSha1 T sha1 p = .ok (gitBlobOf sha1 f.data) := by
  unfold gitBlobSha1
  rw [h.stat_eq, openFile_plain h, bind_ok]
  refine ⟨_, rfl, ?_⟩
  rw [bind_ok]
  refine ⟨f, rfl, ?_⟩
  rw [blobLoop_eq (by omega), List.drop_zero]
  rfl

end

/-! ## The two readings of the lock -/

/-- What acceptance by the launcher says of the lock's text. -/
structure Readable (lock : Json) (inv : Inventory) (top model : List (String × Json))
    (rows : List Json) : Prop where
  lockEq : lock = .obj top
  modelEq : Json.field top "model" = .obj model
  idEq : Json.field model "id" = .str modelId
  shaEq : Json.field model "sha" = .str inv.revision.text
  filesEq : Json.field model "files" = .arr rows
  nonempty : rows ≠ []
  entries : List.Forall₂ (fun row e => ∃ fields, row = .obj fields ∧ ReadsEntry fields e) rows
    inv.files.list

theorem sourceInventory_ok {lock : Json} {inv : Inventory} (h : sourceInventory lock = .ok inv) :
    ∃ top model rows, Readable lock inv top model rows := by
  simp only [sourceInventory, bind_ok, orRaise_ok, Json.asObj?_eq_some, Json.asArr?_eq_some, reject_ok,
    requireHex_ok, pure_ok, Bool.not_eq_false', Json.isText_iff] at h
  obtain ⟨top, htop, model, hmodel, -, hid, revision, hsha, rows, hrows, -, hne, files, hfiles,
    rfl⟩ := h
  obtain ⟨es, hes, hall⟩ := foldlM_append Entries.list (f := sourceRow)
    (fun _ _ _ => sourceRow_ok) hfiles
  have hlist : files.list = es := hes
  refine ⟨top, model, rows, htop, hmodel, hid, hsha, hrows, ?_, hlist ▸ hall⟩
  intro hnil
  rw [hnil] at hne
  cases hne

theorem lookup_isSome_of_field {fs : List (String × Json)} {key : String} {v : Json}
    (h : Json.field fs key = v) (hv : v ≠ .null) : (Json.lookup fs key).isSome = true := by
  cases hl : Json.lookup fs key with
  | some w => rfl
  | none =>
    rw [Json.field, hl] at h
    exact absurd h.symm hv

/-- On such a lock the verifier finds the same rows. -/
theorem Readable.iterInventory {lock : Json} {inv : Inventory} {top model : List (String × Json)}
    {rows : List Json} (hl : Readable lock inv top model rows)
    {entries : List (List (String × Json))} {m : Json}
    (h : iterInventory lock = .ok (entries, m)) :
    m = .obj model ∧ List.Forall₂ (fun row entry => row = Json.obj entry) rows entries := by
  have hnested : (Json.lookup model "files").isSome = true :=
    lookup_isSome_of_field hl.filesEq Json.noConfusion
  simp only [Checkpoint.iterInventory, hl.lockEq, inventoryFiles, hl.modelEq, Json.asObj?,
    Option.bind_some, hnested, Bool.and_true, bind_ok, reject_ok, orRaise_ok, Json.asArr?_eq_some,
    pure_ok] at h
  obtain ⟨⟨files, m'⟩, ⟨-, hnone, hfiles⟩, rows', hrows', -, -, entries', hentries, hout⟩ := h
  have htop : Json.field top "files" = .null := by
    rw [Option.isSome_eq_false_iff, Option.isNone_iff_eq_none] at hnone
    rw [Json.field, hnone]
    rfl
  rw [htop] at hfiles
  simp only [pure_ok, Prod.mk.injEq, hl.filesEq] at hfiles
  obtain ⟨rfl, rfl⟩ := hfiles
  rw [Prod.mk.injEq] at hout
  obtain ⟨rfl, rfl⟩ := hout
  rw [Json.arr.injEq] at hrows'
  subst hrows'
  refine ⟨rfl, (mapM_ok.mp hentries).imp fun row entry hrow => ?_⟩
  simp only [bind_ok, orRaise_ok, pure_ok] at hrow
  obtain ⟨e, he, -, -, -, -, rfl⟩ := hrow
  cases row with
  | obj fs => rw [Option.some.inj he]
  | _ => cases he

theorem agrees_all {rows : List Json} {es : List Entry} {entries : List (List (String × Json))}
    {ws : List Want} {ps : List (Want × Nat)}
    (hes : List.Forall₂ (fun row e => ∃ fields, row = .obj fields ∧ ReadsEntry fields e) rows es)
    (hentries : List.Forall₂ (fun row entry => row = Json.obj entry) rows entries)
    (hws : List.Forall₂ ReadsWant entries ws)
    (hps : List.Forall₂ (fun w p => wantSize w = .ok p) ws ps) :
    List.Forall₂ Agrees es ps := by
  induction hes generalizing entries ws ps with
  | nil =>
    cases hentries
    cases hws
    cases hps
    exact .nil
  | cons he _ ih =>
    obtain ⟨fields, rfl, he⟩ := he
    cases hentries with
    | cons hrow hentries =>
      rw [Json.obj.injEq] at hrow
      subst hrow
      cases hws with
      | cons hw hws =>
        cases hps with
        | cons hp hps => exact .cons (agrees_of_reads he hw hp) (ih hentries hws hps)

/-! ## What the verifier records -/

/-- The record of an entry's file. -/
structure Hashed (T : Tree) (sha256 : Bytes → Hex 64) (sha1 : Bytes → Hex 40)
    (root : PurePath) (e : Entry) (v : VerifiedFile) : Prop where
  path : v.path = e.path
  safe : safeRelpath e.path = true
  recorded : e.pin.RecordedIn v.fields
  file : ∃ f, T.PlainFile (root.child e.path) f ∧ f.data.length = e.size ∧
    v.sha256 = sha256 f.data ∧ v.stat = f.stat ∧
    ∀ b, v.gitBlob = some b → b = gitBlobOf sha1 f.data

theorem verifyFile_ok {T : Tree} {sha256 : Bytes → Hex 64} {sha1 : Bytes → Hex 40}
    {root : PurePath} {e : Entry} {p : Want × Nat} {v : VerifiedFile} (ha : Agrees e p)
    (h : verifyFile T sha256 sha1 root p = .ok v) : Hashed T sha256 sha1 root e v := by
  obtain ⟨w, size⟩ := p
  simp only [verifyFile, bind_ok, reject_ok, pure_ok, ofWalk_ok, decide_eq_false_iff_not,
    not_not, Bool.not_eq_false'] at h
  obtain ⟨-, hreal, -, hfile, st, hst, -, hsize, gotSha, hsha, gotBlob, hblob, st2, hst2, -, -,
    -, hshaOk, -, hblobOk, rfl⟩ := h
  obtain ⟨f, hf⟩ := Tree.plainFile_of_realpath hreal hfile
  rw [hf.lstat_eq, Except.ok.injEq] at hst hst2
  subst hst
  subst hst2
  have hlen : f.data.length = size := Int.ofNat_inj.mp hsize
  subst hlen
  rw [sha256File_plain hf, Except.ok.injEq] at hsha
  subst hsha
  have hpath : joinPath root w.rel = root.child e.path := by
    rw [ha.path, child_eq_joinPath ha.safe]
  have hgit : ∀ b, gotBlob = some b → b = gitBlobOf sha1 f.data := by
    intro b hb
    cases hw : w.gitBlob with
    | none =>
      rw [hw, Except.ok.injEq] at hblob
      rw [hb] at hblob
      cases hblob
    | some s =>
      rw [hw] at hblob
      obtain ⟨b', hb', rfl⟩ := map_ok.mp hblob
      rw [gitBlobSha1_plain hf, Except.ok.injEq] at hb'
      rw [Option.some.injEq] at hb
      rw [← hb, hb']
  refine ⟨ha.path, ha.safe, ?_, f, hpath ▸ hf, ha.size, rfl, rfl, hgit⟩
  have hpin := ha.pin
  cases hk : e.pin with
  | sha256 d =>
    rw [hk] at hpin
    have hw : w.sha256 = some d.text := hpin.1
    rw [hw, Option.any_some, decide_eq_false_iff_not, not_not] at hshaOk
    show Json.str (sha256 f.data).text = .str d.text
    rw [hshaOk]
  | gitBlob d =>
    rw [hk] at hpin
    have hw : w.gitBlob = some d.text := hpin.2
    rw [hw, Option.any_some, decide_eq_false_iff_not, not_not] at hblobOk
    show optText (gotBlob.map (·.text)) = .str d.text
    rw [hblobOk]
    rfl

theorem hashed_all {T : Tree} {sha256 : Bytes → Hex 64} {sha1 : Bytes → Hex 40}
    {root : PurePath} {es : List Entry} {ps : List (Want × Nat)} {vs : List VerifiedFile}
    (hes : List.Forall₂ Agrees es ps)
    (hvs : List.Forall₂ (fun p v => verifyFile T sha256 sha1 root p = .ok v) ps vs) :
    List.Forall₂ (Hashed T sha256 sha1 root) es vs := by
  induction hes generalizing vs with
  | nil =>
    cases hvs
    exact .nil
  | cons ha _ ih =>
    cases hvs with
    | cons hv hvs => exact .cons (verifyFile_ok ha hv) (ih hvs)

/-- The files of a receipt are the inventory in some order. -/
structure Covers (T : Tree) (sha256 : Bytes → Hex 64) (sha1 : Bytes → Hex 40) (root : PurePath)
    (inv : Inventory) (r : Receipt) : Prop where
  idEq : r.id = modelId
  shaEq : r.sha = inv.revision.text
  rootEq : r.root = root
  absolute : root.root = .one
  nonempty : r.files ≠ []
  files : ∃ es : List Entry, es.Perm inv.files.list ∧
    List.Forall₂ (Hashed T sha256 sha1 root) es r.files

theorem verifyFiles_covers {T : Tree} {loads : Bytes → Except Exn Json}
    {sha256 : Bytes → Hex 64} {sha1 : Bytes → Hex 40} {root lockPath : PurePath} {lock : Json}
    {lockRaw : Bytes} {inv : Inventory} {r : Receipt} (hroot : T.abspath root = root)
    (hlock : readJson loads (treeView T) lockPath = .ok (lock, lockRaw))
    (hinv : sourceInventory lock = .ok inv)
    (h : verifyFiles T loads sha256 sha1 root lockPath = .ok r) :
    Covers T sha256 sha1 root inv r := by
  obtain ⟨top, model, rows, hl⟩ := sourceInventory_ok hinv
  simp only [verifyFiles, hroot, bind_ok, reject_ok, orRaise_ok, pure_ok, Json.asObj?_eq_some,
    Json.asStr?_eq_some, decide_eq_false_iff_not, not_not] at h
  obtain ⟨-, -, -, hreal, ⟨lock', raw'⟩, hread, ⟨entries, m⟩, hentries, model', hm, id, hid, -, -,
    sha, hsha, -, -, ws, hws, ps, hps, verified, hverified, rootNode, -, rfl⟩ := h
  rw [readJsonStrict, hlock, Except.ok.injEq, Prod.mk.injEq] at hread
  obtain ⟨rfl, rfl⟩ := hread
  obtain ⟨rfl, hrows⟩ := hl.iterInventory hentries
  rw [Json.obj.injEq] at hm
  subst hm
  rw [hl.idEq, Json.str.injEq] at hid
  rw [hl.shaEq, Json.str.injEq] at hsha
  obtain ⟨ws', hws', hreads⟩ :=
    foldlM_append (fun ws => ws) (f := wantRow) (R := ReadsWant)
      (fun _ _ _ h => (wantRow_ok h).imp fun _ hw => ⟨hw.1, hw.2⟩) hws
  rw [List.nil_append] at hws'
  subst hws'
  have hagree : List.Forall₂ Agrees inv.files.list ps :=
    agrees_all hl.entries hrows hreads (mapM_ok.mp hps)
  have hsorted : (ps.insertionSort fun a b => a.1.rel ≤ b.1.rel).Perm ps :=
    List.perm_insertionSort _ ps
  obtain ⟨es, hes, hperm⟩ : Relation.Comp (List.Forall₂ (flip Agrees)) List.Perm
      (ps.insertionSort fun a b => a.1.rel ≤ b.1.rel) inv.files.list :=
    List.perm_comp_forall₂ hsorted hagree.flip
  have hhashed := hashed_all hes.flip (mapM_ok.mp hverified)
  refine ⟨hid.symm, hsha.symm, rfl, (congrArg PurePath.root hreal).symm, ?_, es, hperm, hhashed⟩
  intro hnil
  have hverified' : verified = [] := hnil
  have hlen : rows.length = 0 := by
    rw [hl.entries.length_eq, ← hperm.length_eq, hhashed.length_eq, hverified', List.length_nil]
  exact hl.nonempty (List.length_eq_zero_iff.mp hlen)

end Checkpoint
end FlashNext
