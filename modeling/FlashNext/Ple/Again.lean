import FlashNext.Ple.Agree
import FlashNext.Ple.Warm

/-!
# A preparation, again, and an opening

From a directory in which the table lies with its receipt, one process can prepare the table again
and another can open it, each to its end, and the directory is what it was (`prepared_and_opened`).
-/

namespace FlashNext
namespace Ple

open Effect
open Py (Str Value str)
open Text (Bytes)

section

variable {ι : Type} [DecidableEq ι] {S : Site ι} {src : SourceFile} {α : Type}

/-- A run in the quiet world is a run. -/
theorem run_of_undisturbed {root : List Str} {pid : ι → Nat} {euid : Nat} {me : ι}
    {p : CacheM α} {w w' : Cache ι} {o : Outcome Exc α}
    (h : Run (undisturbed root pid euid me src) p w o w') :
    Run (calls root pid euid me) p w o w' := by
  induction p generalizing w with
  | ret a => exact h
  | throw e => exact h
  | cut => exact h
  | call op k ih =>
    obtain ⟨x, hx, hk⟩ := h
    exact ⟨x, hx.1, ih _ hk⟩

theorem Party.Does.exists_run {Y : Party ι} {V : α → Cache ι → Prop} {p : CacheM α} {w : Cache ι}
    (h : Y.Does src V p w) :
    ∃ a w', Run (calls Y.root Y.pid Y.euid Y.me) p w (.value a) w' ∧ V a w' := by
  obtain ⟨o, w', hrun⟩ := h.guarded.exists_run
  have hends := h.ends hrun
  cases o with
  | value a => exact ⟨a, w', run_of_undisturbed hrun, hends⟩
  | raised e => exact hends.elim
  | cut => exact hends.elim

namespace Site

/-- A process that is started can run to its end where its program can. -/
theorem leads_of_does {s : State ι} {i : ι} {q : Request} {V : Answer → Cache ι → Prop}
    (hi : s.member i = none) (hasked : S.asked q)
    (h : (S.party i q).Does src V (q.run S.reader S.sha256) ⟨s.shared, fun _ => none⟩) :
    ∃ s' a l, S.pool.system.Leads S.allowed s s' ∧
      s'.member = Function.update s.member i (some ⟨q, l, .ret a⟩) ∧ V a ⟨s'.shared, l⟩ := by
  obtain ⟨a, w, hrun, hV⟩ := h.exists_run
  let s₁ : State ι := ⟨s.shared, Function.update s.member i
    (some ⟨q, fun _ => none, q.run S.reader S.sha256⟩)⟩
  have hs₁ : S.pool.system.step s (.start i q) s₁ := ⟨hi, rfl, rfl⟩
  have hcall : ∀ s, S.allowed s (.call i) := fun _ => trivial
  obtain ⟨s', hl, hshared, hmember⟩ := Pool.leads_of_run (P := S.pool) (s := s₁) hcall
    (Function.update_self i _ _) hrun
  have hallowed : S.allowed s (.start i q) := hasked
  have hstart : S.pool.system.Leads S.allowed s s₁ := .step .refl hallowed hs₁
  refine ⟨s', a, w.own, hstart.trans hl, ?_, ?_⟩
  · rw [hmember, Function.update_idem]
  · rw [hshared]
    exact hV

/-- A table lies in the directory with its receipt, nobody holds its lock, and it is asked for. -/
structure Ready (S : Site ι) (src : SourceFile) (modelRoot cacheDir : Str) (plan : Value) (p : Plan)
    (raw : Bytes) (args : OpenArgs) (v : Volume ι) : Prop where
  prepare : S.asked (.prepare modelRoot cacheDir plan)
  serve : S.asked (.serve args)
  valid : validatePlan S.reader.toInterp plan = .ok p
  model : ∃ ms, pathComponents modelRoot (str "model_root") = .ok ms
  cache : pathComponents cacheDir (str "cache_dir") = .ok S.root
  apart : checkApart modelRoot cacheDir = .ok ()
  unlocked : ∃ id, Unlocked S.euid v p.table.name id
  place : ∃ r, InPlace S.reader S.sha256 S.euid src plan p v raw r
  digest : HexOf 64 (S.sha256 raw)
  args : args.For cacheDir (S.sha256 raw) p

variable (S) in
/-- A preparation answers with the receipt that is there, and an opening with the table. -/
def Finds (cacheDir : Str) (p : Plan) (raw : Bytes) (v : Volume ι) : Request → Answer → Fds → Prop
  | .prepare _ _ _, .prepared res, _ =>
    Reused S.sha256 (rstripSlash cacheDir ++ str "/" ++ receiptName) raw res
  | .serve _, .opened fd, l => ∃ id f, l fd = some (.file id) ∧ v.names p.table.name = some id ∧
      v.files id = some f ∧ f.content.length = p.table.size ∧
      S.sha256 f.content = p.table.sha256
  | _, _, _ => False

section

variable {s : State ι} {i j : ι} {modelRoot cacheDir : Str} {plan : Value} {p : Plan} {raw : Bytes}
  {args : OpenArgs} {q : Request}

/-- A process that is asked for the table can run to its end, and all that changes is what it has
open. -/
theorem leads_answered (h : S.Ready src modelRoot cacheDir plan p raw args s.shared)
    (hi : s.member i = none) (hq : q = .prepare modelRoot cacheDir plan ∨ q = .serve args) :
    ∃ s' a l, S.pool.system.Leads S.allowed s s' ∧
      s'.member = Function.update s.member i (some ⟨q, l, .ret a⟩) ∧ s'.shared = s.shared ∧
      S.Finds cacheDir p raw s.shared q a l := by
  obtain ⟨ms, hmodel⟩ := h.model
  obtain ⟨id, hlock⟩ := h.unlocked
  obtain ⟨r, hplace⟩ := h.place
  have hroot : S.root ≠ [] := (checkApart_parts h.apart hmodel h.cache).1
  rcases hq with rfl | rfl
  · obtain ⟨s', a, l, hl, hmember, res, rfl, hw, hres⟩ := leads_of_does hi h.prepare
      (V := fun a w => ∃ res, a = .prepared res ∧ w = ⟨s.shared, fun _ => none⟩ ∧
        Reused S.sha256 (rstripSlash cacheDir ++ str "/" ++ receiptName) raw res)
      (Meets.seq (Party.prepareCache_reuses (room_nothing _) h.valid hmodel h.cache h.apart hlock
        hplace) fun res w h => ⟨res, rfl, h⟩)
    exact ⟨s', .prepared res, l, hl, hmember, congrArg View.shared hw, hres⟩
  · obtain ⟨s', a, l, hl, hmember, fd, id, f, rfl, hw, hid, hf, hsize, hsha⟩ :=
      leads_of_does hi h.serve
        (V := fun a w => ∃ fd id f, a = .opened fd ∧
          w = opened ⟨s.shared, fun _ => none⟩ fd (.file id) ∧
          s.shared.names p.table.name = some id ∧ s.shared.files id = some f ∧
          f.content.length = p.table.size ∧ S.sha256 f.content = p.table.sha256)
        (Meets.seq (Party.openPreparedTable_opens (room_nothing _) h.valid h.cache hroot h.digest
          h.args hplace) fun fd w h => by
            obtain ⟨id, f, -, hw, h⟩ := h
            exact ⟨fd, id, f, rfl, hw, h⟩)
    refine ⟨s', .opened fd, l, hl, hmember, congrArg View.shared hw, id, f, ?_, hid, hf, hsize,
      hsha⟩
    have hown : l = (opened ⟨s.shared, fun _ => none⟩ fd (.file id)).own := congrArg View.own hw
    rw [hown]
    exact opened_self _ fd _

/-- A table that is there with its receipt can be prepared again and then be opened, and all that
changes is what the two processes have open. -/
theorem prepared_and_opened (h : S.Ready src modelRoot cacheDir plan p raw args s.shared)
    (hij : j ≠ i) (hi : s.member i = none) (hj : s.member j = none) :
    ∃ s₁ s₂ res fd l l', S.pool.system.Leads S.allowed s s₁ ∧
      s₁.member i = some ⟨.prepare modelRoot cacheDir plan, l, .ret (.prepared res)⟩ ∧
      Reused S.sha256 (rstripSlash cacheDir ++ str "/" ++ receiptName) raw res ∧
      S.pool.system.Leads S.allowed s₁ s₂ ∧
      s₂.member j = some ⟨.serve args, l', .ret (.opened fd)⟩ ∧ s₂.shared = s.shared := by
  obtain ⟨s₁, a, l, hl, hmember, hshared, hres⟩ := leads_answered h hi (.inl rfl)
  have hj₁ : s₁.member j = none := by
    rw [hmember, Function.update_of_ne hij, hj]
  obtain ⟨s₂, a', l', hl', hmember', hshared', hfd⟩ :=
    leads_answered (hshared.symm ▸ h) hj₁ (.inr rfl)
  cases a with
  | opened fd => exact hres.elim
  | prepared res =>
    cases a' with
    | prepared res => exact hfd.elim
    | opened fd =>
      refine ⟨s₁, s₂, res, fd, l, l', hl, ?_, hres, hl', ?_, hshared'.trans hshared⟩
      · rw [hmember, Function.update_self]
      · rw [hmember', Function.update_self]

end

end Site

end

/-! ## A directory with a table -/

/-- `json.loads` on the header of the sample and on receipts. -/
def directoryReader : Reader where
  toInterp := sampleReader.toInterp
  scan raw :=
    if raw = sampleHeader then sampleReader.scan raw
    else (jsonReader sampleReader.toInterp fun _ => none).scan raw

/-- SHA-256 of the receipt, of the plan and of what is hashed of the source. -/
def directorySha256 (data : Bytes) : Str :=
  if data.take 3 = [123, 34, 109] then
    str "9426d8afd7a1ddaa5275097325db281ca1dfd01348b4adc99bd78316690ae11e"
  else if data.take 3 = [123, 34, 100] then
    str "589782b367b937ef3cb4c27b9b20bd587f06045c330cc9340b0328a5d8ab7d5c"
  else sampleSha256 data

def sampleReceipt : Receipt where
  planSha256 := str "589782b367b937ef3cb4c27b9b20bd587f06045c330cc9340b0328a5d8ab7d5c"
  revision := List.replicate 40 48
  sourceName := str "elsewhere.safetensors"
  sourceSize := 153
  sourceSha256 := str "0e154476b5593bfdc0bdd58da30cfdfd34a0c7f97e022ca257b3a14c2ac94ca1"
  table := ⟨tableFilename 1 1 1, 1, 1, 1,
    str "2c624232cdd221771294dfbb310aca000a0df6ac8b66b696d90ef06fdefb64a3"⟩
  sourceStat := ⟨1, 2, 153, 3, 4⟩
  tableStat := ⟨1, 5, 1, 3, 4⟩

theorem payload_front (r : Receipt) : r.payload.take 3 = [123, 34, 109] := rfl

set_option maxRecDepth 100000 in
theorem length_samplePayload : sampleReceipt.payload.length ≤ maxMetaBytes := by decide

theorem sampleHeader_front : sampleHeader.take 3 = [123, 34, 112] := by decide +kernel

theorem directoryReader_readsBack : directoryReader.ReadsBack := by
  refine readsBack_of_scan fun r hchecked hsmall => ?_
  have hne : r.payload ≠ sampleHeader := by
    intro heq
    have hfront := payload_front r
    rw [heq, sampleHeader_front] at hfront
    cases hfront
  have hscan : directoryReader.scan r.payload =
      (jsonReader sampleReader.toInterp fun _ => none).scan r.payload := if_neg hne
  rw [hscan]
  exact jsonReader_scan _ _ hchecked hsmall

/-- The front of the sample, for a reader that scans its header. -/
theorem frontOf_sample {reader : Reader} (what : Str)
    (hscan : reader.scan sampleHeader = sampleReader.scan sampleHeader) :
    frontOf reader sampleContent what = .ok ⟨sampleFields, sampleHeader, 150⟩ := by
  have hlen : fromLittle (slice sampleContent 0 8) = 142 := by decide +kernel
  have hheader : slice sampleContent 8 142 = sampleHeader := by decide +kernel
  have hsample : sampleReader.scan sampleHeader =
      (.obj [sampleRaw "p.weight_scale" "BF16" [.int 1] 0 2,
        sampleRaw "p.shard_0.weight" "F8_E4M3" [.int 1, .int 1] 2 3], none) := if_pos rfl
  have hload : loadStrictJson reader (what ++ str " header JSON") sampleHeader =
      .ok (.dict sampleFields) := by
    rw [loadStrictJson, hscan, hsample]
    rfl
  have hlength : sampleContent.length = 153 := sampleSource.size_eq.symm
  simp only [frontOf, hlen, hheader, parseHeader, hload, hlength]
  rfl

theorem directorySha256_sampleHeader : directorySha256 sampleHeader = sampleSha256 sampleHeader := by
  rw [directorySha256, sampleHeader_front, if_neg (by decide), if_neg (by decide)]

theorem directorySha256_sampleContent :
    directorySha256 sampleContent = sampleSha256 sampleContent := by
  rw [directorySha256, if_neg (by decide), if_neg (by decide)]

theorem directorySha256_table : directorySha256 [0x38] = sampleSha256 [0x38] := by
  rw [directorySha256, if_neg (by decide), if_neg (by decide)]

theorem sourceAgrees_directory :
    sourceAgrees directoryReader directorySha256 sampleSource samplePlanOf =
      .ok sampleSource.stat.snapshot := by
  obtain ⟨hregular, ⟨front, entries, hfront, hfound⟩, hsnapshot⟩ :=
    sourceAgrees_ok.mp sampleSource_agrees
  obtain rfl := Except.ok.inj ((frontOf_sample _ rfl).symm.trans hfront)
  refine sourceAgrees_ok.mpr ⟨hregular, ⟨_, entries, frontOf_sample _ (if_pos rfl), { hfound with
    headerSha256 := ?_
    sha256 := ?_ }⟩, hsnapshot⟩
  · rw [directorySha256_sampleHeader]
    exact hfound.headerSha256
  · rw [show sampleSource.content = sampleContent from rfl, directorySha256_sampleContent]
    exact hfound.sha256

theorem validatePlan_directory :
    validatePlan directoryReader.toInterp samplePlanOf.document = .ok samplePlanOf :=
  validatePlan_document samplePlanOf_checked

theorem planSha256_directory :
    planSha256 directoryReader directorySha256 samplePlanOf.document =
      .ok sampleReceipt.planSha256 := by
  have hfront : (canonicalJson samplePlanOf.document).take 3 = [123, 34, 100] := rfl
  simp only [planSha256, bind_ok, pure_ok]
  refine ⟨_, validatePlan_directory, ?_⟩
  rw [directorySha256, hfront, if_neg (by decide), if_pos rfl]
  rfl

theorem sampleReceipt_eq : sampleReceipt =
    receiptOf samplePlanOf sampleReceipt.planSha256 ⟨1, 2, 153, 3, 4⟩ ⟨1, 5, 1, 3, 4⟩ := by
  have hcontent : sampleSha256 sampleContent =
      str "0e154476b5593bfdc0bdd58da30cfdfd34a0c7f97e022ca257b3a14c2ac94ca1" := by
    unfold sampleSha256
    rw [if_pos rfl]
  have htable : sampleSha256 [0x38] =
      str "2c624232cdd221771294dfbb310aca000a0df6ac8b66b696d90ef06fdefb64a3" := by
    unfold sampleSha256
    rw [if_neg (by decide +kernel), if_neg (by decide +kernel), if_pos rfl]
  rw [receiptOf, samplePlanOf, hcontent, htable]
  rfl

theorem sampleReceipt_checked : sampleReceipt.Checked where
  planSha256 := by unfold HexOf; decide
  revision := samplePlanOf_checked.revision
  sourceName := samplePlanOf_checked.source.name
  sourceSha256 := by unfold HexOf; decide
  tableName := by decide
  rows_pos := Nat.one_pos
  width_pos := Nat.one_pos
  size_eq := rfl
  tableSha256 := by unfold HexOf; decide
  sourceStat := rfl
  tableStat := rfl
  table_le := by decide
  source_le := by decide

theorem sampleReceipt_small : sampleReceipt.Small :=
  ⟨⟨by decide, by decide, by decide, by decide, by decide⟩,
    ⟨by decide, by decide, by decide, by decide, by decide⟩⟩

set_option maxRecDepth 10000 in
theorem sampleReceipt_valid :
    validateReceipt sampleReader.toInterp sampleReceipt.document = .ok sampleReceipt := rfl

theorem sampleReceipt_read :
    receiptOfPlan? directoryReader directorySha256 samplePlanOf.document samplePlanOf
      sampleReceipt.payload = some sampleReceipt := by
  have hmatch : sampleReceipt.Matches samplePlanOf sampleReceipt.planSha256 := by
    rw [sampleReceipt_eq]
    exact receiptOf_matches _ _ _ _
  rw [receiptOfPlan?, readReceipt_payload directoryReader_readsBack sampleReceipt_checked
    sampleReceipt_small, planSha256_directory]
  exact if_pos hmatch

/-- The files of the lock, of the table and of the receipt. -/
def directoryFiles : List File :=
  [⟨[], 1, 4, 3, 4, .regular, 1, 1000, 0o600⟩, ⟨[0x38], 1, 5, 3, 4, .regular, 1, 1000, 0o600⟩,
    ⟨sampleReceipt.payload, 1, 6, 3, 4, .regular, 1, 1000, 0o600⟩]

def directoryNames (n : Str) : Option FileId :=
  if n = lockName samplePlanOf.table.name then some 0
  else if n = samplePlanOf.table.name then some 1
  else if n = receiptName then some 2
  else none

theorem directoryNames_cases {n : Str} {id : FileId} (h : directoryNames n = some id) :
    n = lockName samplePlanOf.table.name ∧ id = 0 ∨ n = samplePlanOf.table.name ∧ id = 1 ∨
      n = receiptName ∧ id = 2 := by
  unfold directoryNames at h
  split at h
  · next hn => exact .inl ⟨hn, (Option.some.inj h).symm⟩
  split at h
  · next hn => exact .inr (.inl ⟨hn, (Option.some.inj h).symm⟩)
  split at h
  · next hn => exact .inr (.inr ⟨hn, (Option.some.inj h).symm⟩)
  · cases h

theorem directoryFiles_cases {id : FileId} {f : File} (h : directoryFiles[id]? = some f) :
    f.ino = id + 4 ∧ f.content.length ≤ maxMetaBytes ∧ f.dev = 1 ∧ f.mtimeNs = 3 ∧ f.ctimeNs = 4 ∧
      id < 3 := by
  rcases id with _ | _ | _ | id
  · obtain rfl := Option.some.inj h
    exact ⟨rfl, Nat.zero_le _, rfl, rfl, rfl, by decide⟩
  · obtain rfl := Option.some.inj h
    exact ⟨rfl, by decide, rfl, rfl, rfl, by decide⟩
  · obtain rfl := Option.some.inj h
    exact ⟨rfl, length_samplePayload, rfl, rfl, rfl, by decide⟩
  · cases h

/-- A directory in which the table lies with its receipt, and nobody holds the lock. -/
def directoryVolume (ι : Type) : Volume ι where
  names := directoryNames
  files id := directoryFiles[id]?
  locked _ := none
  seen s := (directoryFiles[s.ino - 4]?).map File.content
  bound {n id} h := by
    rcases directoryNames_cases h with ⟨-, rfl⟩ | ⟨-, rfl⟩ | ⟨-, rfl⟩ <;> exact ⟨_, rfl⟩
  known {id f} h := by
    have hino : f.snapshot.ino - 4 = id := by
      show f.ino - 4 = id
      rw [(directoryFiles_cases h).1]
      exact Nat.add_sub_cancel id 4
    rw [hino, h]
    rfl
  small {id f} h := by
    obtain ⟨hino, hlen, hdev, hmtime, hctime, hid⟩ := directoryFiles_cases h
    have hbound : maxMetaBytes < 2 ^ 64 := by decide
    refine ⟨?_, ?_, hlen.trans_lt hbound, ?_, ?_⟩
    · rw [show f.snapshot.dev = f.dev from rfl, hdev]
      decide
    · rw [show f.snapshot.ino = f.ino from rfl, hino]
      have : id + 4 < 7 := Nat.add_lt_add_right hid 4
      exact this.trans (by decide)
    · rw [show f.snapshot.mtimeNs = f.mtimeNs from rfl, hmtime]
      decide
    · rw [show f.snapshot.ctimeNs = f.ctimeNs from rfl, hctime]
      decide
  alone {pid n m id} htemp h _ := by
    rcases directoryNames_cases h with ⟨rfl, -⟩ | ⟨rfl, -⟩ | ⟨rfl, -⟩
    · exact absurd ⟨_, rfl⟩ htemp.not_lock
    · exact absurd htemp.head (validatePlan_isTable validatePlan_directory).head_ne
    · exact absurd htemp.head receiptName_head

def directoryArgs : OpenArgs where
  receiptPath := str "/cache/prepared.json"
  expectedSha256 := .str (directorySha256 sampleReceipt.payload)
  tableDir := str "/cache"
  shape := .list [.int 1, .int 1]
  dtype := .str tableDtype
  tag := .str (rowsTag 1)

def directoryPrepare : Request := .prepare (str "/models") (str "/cache") samplePlanOf.document

/-- Two processes over the directory, of which nothing else knows. -/
def directorySite : Site Bool where
  root := [str "cache"]
  pid b := if b then 1 else 2
  euid := 1000
  reader := directoryReader
  sha256 := directorySha256
  calm := True
  start v := v = directoryVolume Bool
  outside v v' := v' = v
  asked q := q = directoryPrepare ∨ q = .serve directoryArgs
  pid_injective b b' := by
    revert b b'
    decide
  readsBack := directoryReader_readsBack
  outside_rely h i := h ▸ Rely.refl _
  asked_at h := by
    rcases h with rfl | rfl
    · intro parts hparts
      exact (Except.ok.inj hparts).symm
    · intro parts hparts
      exact (Except.ok.inj hparts).symm

theorem directory_inPlace : InPlace directoryReader directorySha256 1000 sampleSource
    samplePlanOf.document samplePlanOf (directoryVolume Bool) sampleReceipt.payload
    sampleReceipt where
  table := ⟨1, _, rfl, rfl, ⟨rfl, rfl, rfl, rfl⟩, rfl, rfl, directorySha256_table⟩
  receipt := ⟨2, _, rfl, rfl, ⟨rfl, rfl, rfl, rfl⟩, rfl⟩
  read := sampleReceipt_read
  size := length_samplePayload
  source := rfl
  agrees := sourceAgrees_directory
  small := ⟨by decide, by decide, by decide, by decide, by decide⟩

theorem directory_ready : directorySite.Ready sampleSource (str "/models") (str "/cache")
    samplePlanOf.document samplePlanOf sampleReceipt.payload directoryArgs
    (directoryVolume Bool) where
  prepare := .inl rfl
  serve := .inr rfl
  valid := validatePlan_directory
  model := ⟨[str "models"], rfl⟩
  cache := rfl
  apart := rfl
  unlocked := ⟨0, _, rfl, rfl, ⟨rfl, rfl, rfl, rfl⟩, rfl⟩
  place := ⟨sampleReceipt, directory_inPlace⟩
  digest := by
    have hdigest : HexOf 64 (directorySha256 sampleReceipt.payload) := by
      rw [directorySha256, payload_front, if_pos rfl]
      unfold HexOf
      decide
    exact hdigest
  args := ⟨rfl, rfl, rfl, rfl, rfl, rfl⟩

/-- The first process prepares the table again, and then the second one opens it. -/
theorem directory_runs : ∃ (s s₁ s₂ : Site.State Bool) (res : Result) (fd : Fd) (l l' : Fds),
    directorySite.pool.system.start s ∧ directorySite.pool.system.Leads directorySite.allowed s s₁ ∧
      s₁.member true = some ⟨directoryPrepare, l, .ret (.prepared res)⟩ ∧
      res.receiptSha256 = directorySha256 sampleReceipt.payload ∧
      directorySite.pool.system.Leads directorySite.allowed s₁ s₂ ∧
      s₂.member false = some ⟨.serve directoryArgs, l', .ret (.opened fd)⟩ := by
  let s : Site.State Bool := ⟨directoryVolume Bool, fun _ => none⟩
  obtain ⟨s₁, s₂, res, fd, l, l', hl, hm, hres, hl', hm', -⟩ :=
    Site.prepared_and_opened (s := s) (i := true) (j := false) directory_ready
      Bool.false_ne_true rfl rfl
  exact ⟨s, s₁, s₂, res, fd, l, l', ⟨rfl, fun _ => rfl⟩, hl, hm, hres.digest, hl', hm'⟩

end Ple
end FlashNext
