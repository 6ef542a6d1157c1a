import FlashNext.Checkpoint.Accepted

/-!
# What the recheck of a receipt compares

`recheck_ok_iff` says of every receipt and tree what the recheck compares before it lets the
receipt pass.  The identity of the root directory, which every receipt records, is not among it.
-/

namespace FlashNext
namespace Checkpoint

open Effect Posix Text

section

variable {T : Tree} {sha256 : Bytes → Hex 64} {sha1 : Bytes → Hex 40} {root : PurePath}

/-- The row repeats the identity and the digests of the file that stands at its path. -/
structure RowLive (T : Tree) (sha256 : Bytes → Hex 64) (sha1 : Bytes → Hex 40) (root : PurePath)
    (item : List (String × Json)) (rel : String) (f : RegularFile) : Prop where
  path : Json.field item "path" = .str rel
  safe : safeRelpath rel = true
  file : T.PlainFile (joinPath root rel) f
  stat : ∀ s ∈ statValues f.stat, Json.field item s.1 = .int s.2
  sha256 : Json.field item "sha256" = .str (sha256 f.data).text
  blob : Json.field item "git_blob" = .null ∨
    Json.field item "git_blob" = .str (gitBlobOf sha1 f.data).text

theorem recheckStats_ok {rel : Json} {item : List (String × Json)} {st : Stat} {u : Unit} :
    (statValues st).forM (recheckStat rel item) = .ok u ↔
      ∀ s ∈ statValues st, Json.field item s.1 = .int s.2 := by
  rw [forM_ok]
  refine forall_congr' fun s => imp_congr_right fun _ => ?_
  rw [recheckStat, reject_ok, bne_eq_false_iff_eq, Json.asInt?_eq_some]

theorem recheckBlob_ok_iff {rel : String} {p : PurePath} {blob : Json} {f : RegularFile} {u : Unit}
    (hf : T.PlainFile p f) : recheckBlob T sha1 rel p blob = .ok u ↔
      blob = .null ∨ blob = .str (gitBlobOf sha1 f.data).text := by
  have hlive : ∀ blob : Json, (do
      let live ← gitBlobSha1 T sha1 p
      reject (!blob.isText live.text) (.verify
        "content drift on %s (live git_blob != verified git_blob)" [.str rel]) : Except Exn Unit) =
      .ok u ↔ blob = .str (gitBlobOf sha1 f.data).text := by
    intro blob
    rw [gitBlobSha1_plain hf, bind_ok]
    constructor
    · rintro ⟨live, hlive, h⟩
      obtain rfl := Except.ok.inj hlive
      rw [reject_ok, Bool.not_eq_false', Json.isText_iff] at h
      exact h
    · intro h
      refine ⟨_, rfl, ?_⟩
      rw [reject_ok, Bool.not_eq_false', Json.isText_iff]
      exact h
  cases blob with
  | null => exact iff_of_true rfl (.inl rfl)
  | _ =>
    rw [recheckBlob]
    · rw [hlive]
      exact ⟨.inr, fun h => h.resolve_left Json.noConfusion⟩
    · exact Json.noConfusion

theorem recheckRow_ok_iff {seen seen' : List String} {item : Json} :
    recheckRow T sha256 sha1 root seen item = .ok seen' ↔
      ∃ rel fields f, item = .obj fields ∧ RowLive T sha256 sha1 root fields rel f ∧ rel ∉ seen ∧
        seen' = seen ++ [rel] := by
  simp only [recheckRow, bind_ok, orRaise_ok, reject_ok, pure_ok, ofWalk_ok, Json.asObj?_eq_some,
    Json.asStr?_eq_some, Option.bind_eq_some_iff, Hex.ofText?_eq_some, recheckStats_ok]
  constructor
  · rintro ⟨fields, hitem, rel, hpath, _, hsafe, recorded, ⟨digest, hdigest, hrecorded⟩, _, htree,
      node, hnode, _, hstat, live, hlive, _, hsame, _, hblob, _, _, _, _, hseen⟩
    rw [Bool.or_eq_false_iff, Bool.not_eq_false', decide_eq_false_iff_not, not_not] at htree
    rw [Bool.or_eq_false_iff, Bool.not_eq_false', List.contains_eq_mem,
      decide_eq_false_iff_not] at hsafe
    rw [decide_eq_false_iff_not, not_not] at hsame
    obtain ⟨f, hplain⟩ := Tree.plainFile_of_realpath htree.1 htree.2
    obtain rfl : node = .file f := Except.ok.inj (hnode.symm.trans hplain.lstat_eq)
    have hsha : sha256File T sha256 (joinPath root rel) f.data.length = .ok live := hlive
    rw [sha256File_plain hplain, Except.ok.injEq] at hsha
    refine ⟨rel, fields, f, hitem, ⟨hpath, hsafe.1, hplain, hstat, ?_,
      (recheckBlob_ok_iff hplain).mp hblob⟩, hsafe.2, hseen.symm⟩
    rw [hdigest, hrecorded, ← hsame, ← hsha]
  · rintro ⟨rel, fields, f, rfl, h, hnew, rfl⟩
    refine ⟨fields, rfl, rel, h.path, (), ?_, sha256 f.data, ⟨_, h.sha256, rfl⟩, (), ?_, .file f,
      h.file.lstat_eq, (), h.stat, sha256 f.data, sha256File_plain h.file, (), ?_, (),
      (recheckBlob_ok_iff h.file).mpr h.blob, .file f, h.file.lstat_eq, (), ?_, rfl⟩
    · rw [h.safe, Bool.not_true, Bool.false_or, List.contains_eq_mem, decide_eq_false_iff_not]
      exact hnew
    · rw [h.file.realpath_eq, h.file.isFile_eq]
      simp
    · simp
    · simp

/-- The rows in their order, with the distinct paths of their live files. -/
structure RowsLive (T : Tree) (sha256 : Bytes → Hex 64) (sha1 : Bytes → Hex 40) (root : PurePath)
    (items : List Json) (rels : List String) : Prop where
  distinct : rels.Nodup
  rows : List.Forall₂ (fun item rel => ∃ fields f, item = .obj fields ∧
    RowLive T sha256 sha1 root fields rel f) items rels

theorem recheckRows_ok_iff {items : List Json} : ∀ {seen seen' : List String}, seen.Nodup →
    (items.foldlM (recheckRow T sha256 sha1 root) seen = .ok seen' ↔
      ∃ rels, seen' = seen ++ rels ∧ (seen ++ rels).Nodup ∧
        List.Forall₂ (fun item rel => ∃ fields f, item = .obj fields ∧
          RowLive T sha256 sha1 root fields rel f) items rels) := by
  induction items with
  | nil =>
    intro seen seen' hseen
    rw [List.foldlM_nil, pure_ok]
    constructor
    · rintro rfl
      exact ⟨[], (List.append_nil _).symm, by rwa [List.append_nil], .nil⟩
    · rintro ⟨rels, rfl, -, hrows⟩
      rw [List.forall₂_nil_left_iff.mp hrows, List.append_nil]
  | cons item items ih =>
    intro seen seen' hseen
    rw [List.foldlM_cons, bind_ok]
    constructor
    · rintro ⟨next, hrow, hrest⟩
      obtain ⟨rel, fields, f, hitem, hlive, hnew, rfl⟩ := recheckRow_ok_iff.mp hrow
      have hnodup : (seen ++ [rel]).Nodup := by
        rw [List.nodup_append]
        refine ⟨hseen, List.nodup_singleton rel, fun a ha b hb => ?_⟩
        rw [List.mem_singleton.mp hb]
        exact fun hab => hnew (hab ▸ ha)
      obtain ⟨rels, rfl, hall, hrows⟩ := (ih hnodup).mp hrest
      refine ⟨rel :: rels, ?_, ?_, .cons ⟨fields, f, hitem, hlive⟩ hrows⟩
      · rw [List.append_assoc]
        rfl
      · rw [List.append_assoc] at hall
        exact hall
    · rintro ⟨rels, rfl, hall, hrows⟩
      obtain ⟨rel, rels', ⟨fields, f, hitem, hlive⟩, hrows', rfl⟩ := List.forall₂_cons_left_iff.mp hrows
      have hsplit : seen ++ rel :: rels' = (seen ++ [rel]) ++ rels' := by
        rw [List.append_assoc]
        rfl
      have hnodup : (seen ++ [rel]).Nodup := (List.nodup_append.mp (hsplit ▸ hall)).1
      have hnew : rel ∉ seen := fun hmem =>
        (List.nodup_append.mp hnodup).2.2 rel hmem rel (List.mem_singleton.mpr rfl) rfl
      refine ⟨seen ++ [rel], recheckRow_ok_iff.mpr ⟨rel, fields, f, hitem, hlive, hnew, rfl⟩, ?_⟩
      rw [hsplit]
      exact (ih hnodup).mpr ⟨rels', rfl, hsplit ▸ hall, hrows'⟩

end

/-! ## The receipt -/

/-- What the recheck compares. -/
structure Compared (T : Tree) (sha256 : Bytes → Hex 64) (sha1 : Bytes → Hex 40)
    (receipt : List (String × Json)) (root : PurePath) : Prop where
  mounted : Json.field receipt "root" = .str (T.abspath root).str
  kind : Json.field receipt "kind" = .str receiptKind
  full : Json.field receipt "verification" = .str "FULL"
  rows : ∃ items rels, Json.field receipt "files" = .arr items ∧ items ≠ [] ∧
    RowsLive T sha256 sha1 (T.abspath root) items rels ∧
    Json.field receipt "file_count" = .int items.length
  model : ∃ model, Json.field receipt "model" = .obj model ∧
    (Json.field model "sha").truthy = true ∧ (Json.field model "id").truthy = true

/-- The receipt records the identity that the root directory has. -/
def RootLive (T : Tree) (receipt : List (String × Json)) (root : PurePath) : Prop :=
  ∃ node fields, T.stat (T.abspath root) = .ok node ∧
    Json.field receipt "root_stat" = .obj fields ∧ fields.Perm (statIdentity node.stat)

/-- No documented drift: the root and its identity, the count, the paths, the identities and the
digests of the receipt are those of the tree. -/
structure Undrifted (T : Tree) (sha256 : Bytes → Hex 64) (sha1 : Bytes → Hex 40)
    (receipt : List (String × Json)) (root : PurePath) : Prop where
  mounted : Json.field receipt "root" = .str (T.abspath root).str
  rootStat : RootLive T receipt root
  rows : ∃ items rels, Json.field receipt "files" = .arr items ∧
    Json.field receipt "file_count" = .int items.length ∧
    RowsLive T sha256 sha1 (T.abspath root) items rels

theorem recheck_ok_iff {T : Tree} {sha256 : Bytes → Hex 64} {sha1 : Bytes → Hex 40}
    {receipt : List (String × Json)} {root : PurePath} {u : Unit} :
    checkReceiptAgainstTree T sha256 sha1 receipt root = .ok u ↔
      Compared T sha256 sha1 receipt root := by
  simp only [checkReceiptAgainstTree, bind_ok, orRaise_ok, reject_ok, Json.asObj?_eq_some,
    Json.asArr?_eq_some, Bool.or_eq_false_iff, Bool.not_eq_false', Json.isText_iff,
    List.isEmpty_eq_false_iff, bne_eq_false_iff_eq, Json.asInt?_eq_some]
  constructor
  · rintro ⟨_, hroot, items, hitems, _, hne, _, hkind, seen, hloop, _, hcount, model, hmodel,
      hidentity⟩
    obtain ⟨rels, -, hnodup, hrows⟩ := (recheckRows_ok_iff List.nodup_nil).mp hloop
    exact ⟨hroot, hkind.1, hkind.2, ⟨items, rels, hitems, hne, ⟨hnodup, hrows⟩, hcount⟩,
      ⟨model, hmodel, hidentity⟩⟩
  · intro h
    obtain ⟨items, rels, hitems, hne, hrows, hcount⟩ := h.rows
    obtain ⟨model, hmodel, hidentity⟩ := h.model
    exact ⟨(), h.mounted, items, hitems, (), hne, (), ⟨h.kind, h.full⟩, rels,
      (recheckRows_ok_iff List.nodup_nil).mpr ⟨rels, rfl, hrows.distinct, hrows.rows⟩, (), hcount,
      model, hmodel, hidentity⟩

/-- A receipt that passes is free of drift exactly when its root has the recorded identity. -/
theorem recheck_undrifted_iff (T : Tree) (sha256 : Bytes → Hex 64) (sha1 : Bytes → Hex 40)
    (receipt : List (String × Json)) (root : PurePath) :
    (checkReceiptAgainstTree T sha256 sha1 receipt root = .ok () →
      Undrifted T sha256 sha1 receipt root) ↔
      (Compared T sha256 sha1 receipt root → RootLive T receipt root) := by
  rw [recheck_ok_iff]
  refine imp_congr_right fun h => ⟨fun hu => hu.rootStat, fun hlive => ?_⟩
  obtain ⟨items, rels, hitems, -, hrows, hcount⟩ := h.rows
  exact ⟨h.mounted, hlive, items, rels, hitems, hcount, hrows⟩

/-! ## A root that was replaced -/

/-- The sample's receipt with the identity of another root directory. -/
def replacedReceipt : Receipt :=
  { sampleReceipt with rootStat := { sampleStat with inode := 11 } }

theorem replaced_root_passes : ¬ ∀ (T : Tree) (sha256 : Bytes → Hex 64) (sha1 : Bytes → Hex 40)
    (receipt : List (String × Json)) (root : PurePath),
    checkReceiptAgainstTree T sha256 sha1 receipt root = .ok () →
      Undrifted T sha256 sha1 receipt root := by
  intro h
  have hpasses : checkReceiptAgainstTree sampleLive sampleSha256 sampleSha1 replacedReceipt.fields
      sampleRoot = .ok () := by
    decide
  obtain ⟨node, fields, hnode, hrecorded, hperm⟩ := (h _ _ _ _ _ hpasses).rootStat
  have hroot : sampleLive.stat (sampleLive.abspath sampleRoot) = .ok (.directory sampleStat) := by
    rw [show sampleLive.abspath sampleRoot = ⟨.one, ["model"]⟩ by decide]
    rfl
  obtain rfl : Node.directory sampleStat = node := Except.ok.inj (hroot.symm.trans hnode)
  obtain rfl : statIdentity { sampleStat with inode := 11 } = fields := Json.obj.inj hrecorded
  have hmem := hperm.mem_iff.mp (show ("inode", Json.int 11) ∈
    statIdentity { sampleStat with inode := 11 } from List.mem_cons_self)
  simp [statIdentity, sampleStat, Node.stat] at hmem

end Checkpoint
end FlashNext
