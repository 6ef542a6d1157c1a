import FlashNext.Ple.Quiet

/-!
# A table that is prepared already

Where the table lies in the directory with its receipt, a preparation that nobody disturbs leaves
all as it is and answers with the digest of the receipt (`prepareCache_reuses`), and an opening
with that digest hands out the table (`openPreparedTable_opens`).
-/

namespace FlashNext
namespace Ple

open Effect
open Py (Str Value str)
open Text (Bytes)

/-- A regular file of one's own that has one name and that nobody else may write. -/
structure Tidy (euid : Nat) (f : File) : Prop where
  regular : f.kind = .regular
  single : f.nlink = 1
  owned : f.uid = euid
  closed : othersWrite f.stat = false

/-- The table and a receipt for it lie in the directory, and the source is as the receipt has it. -/
structure InPlace {ι : Type} (reader : Reader) (sha256 : Bytes → Str) (euid : Nat)
    (src : SourceFile) (plan : Value) (p : Plan) (v : Volume ι) (raw : Bytes) (r : Receipt) :
    Prop where
  table : ∃ id f, v.names p.table.name = some id ∧ v.files id = some f ∧ Tidy euid f ∧
    f.snapshot = r.tableStat ∧ f.content.length = p.table.size ∧ sha256 f.content = p.table.sha256
  receipt : ∃ id f, v.names receiptName = some id ∧ v.files id = some f ∧ Tidy euid f ∧
    f.content = raw
  read : receiptOfPlan? reader sha256 plan p raw = some r
  size : raw.length ≤ maxMetaBytes
  source : src.stat.snapshot = r.sourceStat
  agrees : sourceAgrees reader sha256 src p = .ok src.stat.snapshot
  small : src.stat.snapshot.Small

/-- The file of the lock is there and nobody holds it. -/
def Unlocked {ι : Type} (euid : Nat) (v : Volume ι) (t : Str) (id : FileId) : Prop :=
  ∃ f, v.names (lockName t) = some id ∧ v.files id = some f ∧ Tidy euid f ∧ v.locked id = none

/-- The answer of the warm path. -/
structure Reused (sha256 : Bytes → Str) (receiptPath : Str) (raw : Bytes) (res : Result) :
    Prop where
  mode : res.mode = .reuse
  copied : res.copiedBytes = 0
  digest : res.receiptSha256 = sha256 raw
  path : res.receiptPath = receiptPath

/-- The arguments that go with a table and its receipt. -/
structure OpenArgs.For (args : OpenArgs) (cacheDir : Str) (digest : Str) (p : Plan) : Prop where
  receiptPath : args.receiptPath = rstripSlash cacheDir ++ str "/" ++ receiptName
  expected : args.expectedSha256 = .str digest
  tableDir : args.tableDir = cacheDir
  shape : asShape? args.shape = some (p.table.rows, p.table.width)
  dtype : args.dtype = .str tableDtype
  tag : args.tag = .str (rowsTag p.table.rows)

theorem OpenArgs.For.valid {interp : Interp} {plan : Value} {p : Plan} {args : OpenArgs} {cacheDir digest : Str}
    (hplan : validatePlan interp plan = .ok p) (hargs : args.For cacheDir digest p) :
    validateOpenArgs interp args.shape args.dtype args.tag =
      .ok (p.table.rows, p.table.width) := by
  have hchecked := validatePlan_checked hplan
  simp only [validateOpenArgs, bind_ok, reject_ok, orRaise_ok, pure_ok, decide_eq_false_iff_not]
  refine ⟨_, hargs.shape, (), ?_, (), ?_, (), ?_, rfl⟩
  · rw [hchecked.table.rows_eq, hchecked.table.width_eq]
    exact Nat.not_lt.mpr hchecked.geometry
  · rw [not_not]
    exact hargs.dtype
  · rw [not_not]
    exact hargs.tag

theorem OpenArgs.For.attested {reader : Reader} {sha256 : Bytes → Str} {plan : Value} {p : Plan}
    {raw : Bytes} {r : Receipt} {args : OpenArgs} {cacheDir : Str}
    (hplan : validatePlan reader.toInterp plan = .ok p)
    (hargs : args.For cacheDir (sha256 raw) p)
    (hread : receiptOfPlan? reader sha256 plan p raw = some r) :
    checkAttested reader sha256 args (sha256 raw) (p.table.rows, p.table.width) raw = .ok r := by
  have htable := (validatePlan_checked hplan).table
  obtain ⟨hraw, planHash, -, hmatch⟩ := receiptOfPlan?_some reader sha256 hread
  simp only [checkAttested, bind_ok, reject_ok, pure_ok, decide_eq_false_iff_not, not_not,
    Bool.or_eq_false_iff]
  refine ⟨(), trivial, r, hraw, (), ?_, (), ⟨hargs.dtype, ?_⟩, (), ?_, rfl⟩
  · rw [hmatch.tableRows, hmatch.tableWidth]
  · rw [hmatch.tableRows]
    exact hargs.tag
  · rw [hmatch.tableName, htable.name_eq, htable.rows_eq, htable.width_eq]

namespace Party

variable {ι : Type} [DecidableEq ι] {Y : Party ι} {src file : SourceFile} {α β : Type}
  {w : Cache ι} {fd : Fd} {what : Str} {reader : Reader} {sha256 : Bytes → Str} {f : File}
  {id : FileId}

/-! ## Blocks that read one file -/

theorem pread_reads (count offset : Nat) : (ask (.pread fd count offset)).Calls (Reads fd) :=
  Prog.Calls.perform rfl

theorem orOs_reads {x : CacheM (Except OsError α)} (h : x.Calls (Reads fd)) :
    (orOs x).Calls (Reads fd) :=
  h.bind fun _ => Prog.Calls.ofExcept _

theorem orCache_reads {x : CacheM (Except OsError α)} (h : x.Calls (Reads fd)) :
    (orCache what x).Calls (Reads fd) :=
  h.bind fun _ => Prog.Calls.ofExcept _

theorem readRest_reads (size offset : Nat) (out : Bytes) :
    (readRest fd size offset what out).Calls (Reads fd) := by
  induction hleft : size - out.length using Nat.strong_induction_on generalizing out with
  | _ left ih =>
    rw [readRest]
    by_cases hlt : out.length < size
    · rw [if_pos hlt]
      refine (orOs_reads (pread_reads _ _)).bind fun chunk => ?_
      by_cases hchunk : chunk = []
      · rw [if_pos hchunk]
        trivial
      · rw [if_neg hchunk]
        have hpos := List.length_pos_iff.mpr hchunk
        exact ih (size - (out ++ chunk).length) (by rw [List.length_append]; omega) _ rfl
    · rw [if_neg hlt]
      trivial

theorem fadviseDontneed_reads (offset count : Nat) :
    (fadviseDontneed fd offset count).Calls (Reads fd) :=
  Prog.Calls.bind (Prog.Calls.perform rfl) fun _ => trivial

theorem hashRest_reads (size offset : Nat) (fed : Bytes) (advised : Nat) :
    (hashRest fd size offset what fed advised).Calls (Reads fd) := by
  induction hleft : size - fed.length using Nat.strong_induction_on generalizing fed advised with
  | _ left ih =>
    rw [hashRest]
    by_cases hlt : fed.length < size
    · rw [if_pos hlt]
      refine (orCache_reads (pread_reads _ _)).bind fun chunk => ?_
      by_cases hchunk : chunk = []
      · rw [if_pos hchunk]
        trivial
      · rw [if_neg hchunk]
        have hpos := List.length_pos_iff.mpr hchunk
        have hrest : ∀ advised,
            (hashRest fd size offset what (fed ++ chunk) advised).Calls (Reads fd) :=
          fun advised => ih (size - (fed ++ chunk).length)
            (by rw [List.length_append]; omega) _ _ rfl
        exact Prog.Calls.ite ((fadviseDontneed_reads _ _).bind fun _ => hrest _) (hrest _)
    · rw [if_neg hlt]
      exact Prog.Calls.ite ((fadviseDontneed_reads _ _).bind fun _ => trivial) trivial

theorem fstat_reads : (orOs (ask (.fstat fd))).Calls (Reads fd) := orOs_reads (Prog.Calls.perform rfl)

theorem orFail_reads (r : Except Str α) : (orFail r).Calls (Reads fd) := Prog.Calls.ofExcept _

theorem verifySource_reads (plan : Plan) :
    (verifySource reader sha256 fd plan).Calls (Reads fd) := by
  refine fstat_reads.bind fun st => (orFail_reads _).bind fun _ => (orFail_reads _).bind fun _ => ?_
  refine Prog.Calls.bind ?_ fun front => ?_
  · refine (orFail_reads _).bind fun _ => (readRest_reads _ _ _).bind fun _ => ?_
    refine (orFail_reads _).bind fun _ => (readRest_reads _ _ _).bind fun _ => ?_
    exact (orFail_reads _).bind fun _ => trivial
  · refine (orFail_reads _).bind fun _ => (orFail_reads _).bind fun _ => ?_
    refine (orFail_reads _).bind fun _ => (hashRest_reads _ _ _ _).bind fun _ => ?_
    exact fstat_reads.bind fun _ => (orFail_reads _).bind fun _ => (orFail_reads _).bind fun _ =>
      trivial

/-! ## What they read -/

omit [DecidableEq ι] in
theorem shown_file (hown : w.own fd = some (.file id)) (hf : w.shared.files id = some f) :
    shown src w fd = some f.source := by
  rw [shown, hown]
  show (w.shared.files id).map File.source = some f.source
  rw [hf]
  rfl

omit [DecidableEq ι] in
theorem shown_foreign (hown : w.own fd = some .foreign) : shown src w fd = some src := by
  rw [shown, hown]

theorem fstat_looks (hshown : shown src w fd = some file) (hsmall : file.stat.snapshot.Small) :
    Y.Looks src file.stat (orOs (ask (.fstat fd))) w :=
  reads_look fstat_reads hshown hsmall (fstat_computes fd)

theorem requireUnchanged_looks {text : Str} (hshown : shown src w fd = some file)
    (hsmall : file.stat.snapshot.Small) :
    Y.Looks src () (requireUnchanged fd file.stat.snapshot text) w := by
  refine (fstat_looks hshown hsmall).seq (orFail_looks ?_)
  rw [reject_ok, decide_eq_false_iff_not, not_not]

theorem geteuid_looks : Y.Looks src Y.euid (ask .geteuid) w :=
  ask_does ⟨Y.euid, w, ⟨rfl, rfl⟩, not_false⟩ fun _ _ hm _ => ⟨hm.2, hm.1⟩

theorem statLeaf_looks (hown : w.own fd = some (.file id)) (hf : w.shared.files id = some f)
    (htidy : Tidy Y.euid f) : Y.Looks src f.stat (statLeaf fd what) w := by
  have hshown : shown src w fd = some f.source := shown_file hown hf
  refine (fstat_looks hshown (w.shared.small hf)).seq ?_
  have hkind : f.source.stat.kind = .regular := htidy.regular
  have hlink : f.source.stat.nlink = 1 := htidy.single
  have huid : f.source.stat.uid = Y.euid := htidy.owned
  have hmode : othersWrite f.source.stat = false := htidy.closed
  refine (orFail_looks (a := ()) ?_).seq ?_
  · simp [requireRegularSingleLink, hkind, hlink, bind_ok, reject_ok]
  · refine Looks.seq (a := ()) (geteuid_looks.seq ((orFail_looks (a := ()) ?_).seq
      (orFail_looks ?_))) ⟨rfl, rfl⟩
    · rw [reject_ok, decide_eq_false_iff_not, not_not]
      exact huid
    · rw [reject_ok]
      exact hmode

/-- The table verifies. -/
theorem verifyTableContent_looks {table : Table} (hown : w.own fd = some (.file id))
    (hf : w.shared.files id = some f) (hsize : f.content.length = table.size)
    (hsha : sha256 f.content = table.sha256) :
    Y.Looks src true (verifyTableContent sha256 fd table) w := by
  have hshown : shown src w fd = some f.source := shown_file hown hf
  have hsmall : f.source.stat.snapshot.Small := w.shared.small hf
  have hstat : f.source.stat.size = f.source.content.length := rfl
  refine (fstat_looks hshown hsmall).seq ?_
  have heq : ¬ f.source.content.length ≠ table.size := not_not.mpr hsize
  simp only [if_neg heq, hstat]
  refine (reads_look (hashRest_reads _ _ _ _) hshown hsmall hashWhole_computes).seq ?_
  refine (requireUnchanged_looks hshown hsmall).seq ⟨?_, rfl⟩
  rw [decide_eq_true_eq]
  exact hsha

theorem readExact_looks (hown : w.own fd = some (.file id)) (hf : w.shared.files id = some f) :
    Y.Looks src f.content (readExact fd f.content.length 0 what) w := by
  have h : Computes f.source False (readExact fd f.source.content.length 0 what)
      (.ok (slice f.source.content 0 f.source.content.length)) := readExact_computes (by omega)
  rw [slice, List.drop_zero, List.take_length] at h
  exact reads_look (readRest_reads _ _ _) (shown_file hown hf) (w.shared.small hf) h

theorem verifySource_looks {p : Plan} (hown : w.own fd = some .foreign)
    (hsmall : src.stat.snapshot.Small)
    (hagrees : sourceAgrees reader sha256 src p = .ok src.stat.snapshot) :
    Y.Looks src src.stat.snapshot (verifySource reader sha256 fd p) w := by
  have h : Computes src False (verifySource reader sha256 fd p) (.ok src.stat.snapshot) :=
    hagrees ▸ verifySource_computes
  exact reads_look (verifySource_reads p) (shown_foreign hown) hsmall h

/-! ## Under the lock -/

variable {plan : Value} {p : Plan} {raw : Bytes} {r : Receipt} {l : Locked} {d : Fd}

theorem fileExists_looks {name : Str} (hd : w.own d = some (.dir Y.root))
    (hid : w.shared.names name = some id) (hf : w.shared.files id = some f) :
    Y.Looks src true (fileExists d name) w :=
  (lstat?_found hd hid hf).seq ⟨rfl, rfl⟩

theorem loadReceipt_looks (hroom : Room w) (hd : w.own d = some (.dir Y.root))
    (h : InPlace reader sha256 Y.euid src plan p w.shared raw r) :
    Y.Looks src (raw, some r) (loadReceipt reader sha256 d plan p) w := by
  obtain ⟨id, f, hid, hf, htidy, hcontent⟩ := h.receipt
  refine Meets.seq (openExisting_found hroom hd hid hf htidy.regular)
    fun o w' hgot => ?_
  obtain ⟨fd, ho, hfresh, hw'⟩ := hgot
  subst ho hw'
  have hread : Y.Does src (fun o w' => w' = opened w fd (.file id) ∧ o = some raw)
      (readReceiptFile fd) (opened w fd (.file id)) := by
    refine (statLeaf_looks (opened_self w fd _) hf htidy).seq ?_
    have hsize : ¬ maxMetaBytes < f.stat.size := by
      have := h.size
      rw [← hcontent] at this
      exact Nat.not_lt.mpr this
    rw [if_neg hsize]
    exact (readExact_looks (opened_self w fd _) hf).seq ⟨rfl, by rw [hcontent]⟩
  refine Meets.seq (closing_does hfresh (fun id h => by cases h) hread) fun o w' hgot => ?_
  obtain ⟨hw', ho⟩ := hgot
  subst hw' ho
  exact ⟨by rw [h.read], rfl⟩

theorem result_does {receiptPath : Str} {mode : Mode} {copied : Nat} {digest : Str}
    {started : ℚ} : Y.Does src (fun res w' => w' = w ∧ res.mode = mode ∧ res.copiedBytes = copied ∧
      res.receiptSha256 = digest ∧ res.receiptPath = receiptPath)
      (result receiptPath digest mode copied started) w :=
  Meets.seq (V := fun _ w' => w' = w) (ask_does ⟨0, w, rfl, not_false⟩ fun _ _ hm _ => hm)
    fun _ _ hw => ⟨hw, rfl, rfl, rfl, rfl⟩

theorem tryReuse_does {srcFd : Fd} (hroom : Room w) (hd : w.own l.cacheFd = some (.dir Y.root))
    (hsrc : w.own srcFd = some .foreign)
    (h : InPlace reader sha256 Y.euid src l.plan l.p w.shared raw r) :
    Y.Does src (fun o w' => w' = w ∧ ∃ res, o = some res ∧ Reused sha256 l.receiptPath raw res)
      (tryReuse reader sha256 l srcFd src.stat.snapshot raw (some r)) w := by
  obtain ⟨id, f, hid, hf, htidy, hstat, hsize, hsha⟩ := h.table
  refine Meets.seq (openExisting_found hroom hd hid hf htidy.regular)
    fun o w' hgot => ?_
  obtain ⟨fd, ho, hfresh, hw'⟩ := hgot
  subst ho hw'
  refine closing_does hfresh (fun id h => by cases h) ?_
  have hown := opened_self w fd (.file id)
  have hshown : shown src (opened w fd (.file id)) fd = some f.source := shown_file hown hf
  have hsmall : f.source.stat.snapshot.Small := w.shared.small hf
  refine (statLeaf_looks hown hf htidy).seq ?_
  have hvouches : Y.Looks src true
      (receiptVouches sha256 fd f.stat src.stat.snapshot r l.p.table)
      (opened w fd (.file id)) := by
    rw [receiptVouches, if_pos ?_]
    · exact verifyTableContent_looks hown hf hsize hsha
    · rw [← hstat]
      exact ⟨rfl, rfl, rfl, h.source⟩
  refine hvouches.seq ?_
  refine (requireUnchanged_looks (shown_foreign (opened_of_own hfresh hsrc)) h.small).seq ?_
  refine (requireUnchanged_looks hshown hsmall).seq ?_
  refine Looks.seq (a := raw) ?_ ?_
  · have hsame : ¬ f.stat.snapshot ≠ r.tableStat := fun hne => hne hstat
    rw [renewReceipt, if_neg hsame]
    exact ⟨rfl, rfl⟩
  · refine Meets.seq result_does fun res w' hgot => ?_
    obtain ⟨hw', hmode, hcopied, hdigest, hpath⟩ := hgot
    exact ⟨hw', res, rfl, hmode, hcopied, hdigest, hpath⟩

theorem prepareFrom_does {srcFd : Fd} (hroom : Room w)
    (hd : w.own l.cacheFd = some (.dir Y.root)) (hsrc : w.own srcFd = some .foreign)
    (h : InPlace reader sha256 Y.euid src l.plan l.p w.shared raw r) :
    Y.Does src (fun res w' => w' = w ∧ Reused sha256 l.receiptPath raw res)
      (prepareFrom reader sha256 l srcFd) w := by
  obtain ⟨id, f, hid, hf, -, -⟩ := h.receipt
  refine (verifySource_looks hsrc h.small h.agrees).seq ?_
  refine (fileExists_looks hd hid hf).seq ((loadReceipt_looks hroom hd h).seq ?_)
  refine Meets.seq (tryReuse_does hroom hd hsrc h) fun o w' hgot => ?_
  obtain ⟨hw', res, ho, hres⟩ := hgot
  subst ho
  exact ⟨hw', hres⟩

/-! ## The lock -/

/-- The cache while the process holds the lock. -/
def lockedBy (w : Cache ι) (id : FileId) (me : ι) : Cache ι :=
  ⟨w.shared.relock id (some me), w.own⟩

theorem relock_relock {v : Volume ι} {me : ι} (hfree : v.locked id = none) :
    (v.relock id (some me)).relock id none = v := by
  show { v with locked := Function.update (Function.update v.locked id (some me)) id none } = v
  rw [Function.update_idem, ← hfree, Function.update_eq_self]

theorem takeLock_does (hfree : w.shared.locked id = none) :
    Y.Does src (fun _ w' => w' = opened (lockedBy w id Y.me) fd (.lock id)) (takeLock fd)
      (opened w fd (.file id)) := by
  have hown : Function.update (opened w fd (.file id)).own fd (some (.lock id)) =
      (opened (lockedBy w id Y.me) fd (.lock id)).own := Function.update_idem _ _ _
  have hmoves : Moves Y.root Y.pid Y.euid Y.me (.flock fd) (opened w fd (.file id)) (.ok ())
      (opened (lockedBy w id Y.me) fd (.lock id)) := by
    simp only [Moves, Tried, opened_self]
    exact ⟨hfree, rfl, hown.symm⟩
  refine Meets.seq (V := fun a w' => a = .ok () ∧
    w' = opened (lockedBy w id Y.me) fd (.lock id)) (ask_does ⟨_, _, hmoves, ?_⟩
      fun a w' hm hgood => ?_) fun a w' hgot => ?_
  · rintro ⟨e, he⟩
    cases he
  · cases a with
    | error e => exact absurd ⟨e, rfl⟩ hgood
    | ok _ =>
      obtain ⟨-, hshared, hown'⟩ := hm.flock (opened_self w fd _)
      refine ⟨rfl, ?_⟩
      cases w'
      dsimp only at hshared hown'
      rw [hshared, hown', hown]
      rfl
  · obtain ⟨ha, hw'⟩ := hgot
    subst ha hw'
    rfl

theorem acquireLock_does (hroom : Room w) (hd : w.own d = some (.dir Y.root))
    (hlock : Unlocked Y.euid w.shared p.table.name id) :
    Y.Does src (fun fd w' => w.own fd = none ∧ w' = opened (lockedBy w id Y.me) fd (.lock id))
      (acquireLock d p) w := by
  obtain ⟨f, hid, hf, htidy, hfree⟩ := hlock
  refine Meets.seq (openLeaf_found hroom hd hid) fun fd w' hgot => ?_
  obtain ⟨hfresh, hw'⟩ := hgot
  subst hw'
  refine Meets.seq (V := fun _ w' => w' = opened (lockedBy w id Y.me) fd (.lock id))
    (Meets.handle (Meets.mono (R := fun _ _ => False) ?_ (fun _ _ h => h) fun _ _ h => h.elim))
    fun _ w' hw' => ⟨hfresh, hw'⟩
  exact (statLeaf_looks (opened_self w fd _) hf htidy).seq (takeLock_does hfree)

theorem unlock_does (hfresh : w.own fd = none) (hfree : w.shared.locked id = none) :
    Y.Does src (fun _ w' => w' = w) (orOs (ask (.close fd)))
      (opened (lockedBy w id Y.me) fd (.lock id)) := by
  have hgone : Function.update (opened (lockedBy w id Y.me) fd (.lock id)).own fd none = w.own := by
    show Function.update (Function.update w.own fd (some (.lock id))) fd none = w.own
    rw [Function.update_idem, ← hfresh, Function.update_eq_self]
  have hheld : (lockedBy w id Y.me).shared.locked id = some Y.me := Function.update_self id _ _
  have hback : (lockedBy w id Y.me).shared.relock id none = w.shared := relock_relock hfree
  have hmoves : Moves Y.root Y.pid Y.euid Y.me (.close fd)
      (opened (lockedBy w id Y.me) fd (.lock id)) (.ok ()) w := by
    refine ⟨hgone.symm, ?_⟩
    rw [opened_self, opened_shared]
    show w.shared = if _ then _ else _
    rw [if_pos hheld, hback]
  refine Meets.orOs (ask_does ⟨.ok (), w, hmoves, by rintro ⟨e, he⟩; cases he⟩ fun a w' hm hgood => ?_)
  cases a with
  | error e => exact hgood ⟨e, rfl⟩
  | ok _ =>
    obtain ⟨hown, hshared⟩ := hm
    rw [hgone] at hown
    rw [opened_self] at hshared
    have hshared : w'.shared = w.shared := by
      rw [hshared, opened_shared, if_pos hheld, hback]
    show w' = w
    cases w'
    cases w
    dsimp only at hown hshared
    rw [hown, hshared]

/-! ## The preparation -/

theorem checkCacheRoot_looks {cacheDir : Str} (hd : w.own d = some (.dir Y.root)) :
    Y.Looks src () (checkCacheRoot d cacheDir) w := by
  have hshown : shown src w d = none := by
    rw [shown, hd]
  have hat : fileAt w d = none := by
    rw [fileAt, hd]
    rfl
  have hzero : (⟨0, 0, 0, 0, 0⟩ : Snapshot).Small :=
    ⟨by decide, by decide, by decide, by decide, by decide⟩
  refine Meets.seq (V := fun st w' => (st.uid = Y.euid ∧ othersWrite st = false) ∧ w' = w)
    (Meets.orOs (ask_does ⟨.ok ⟨0, 0, 0, 0, 0, .directory, 0, Y.euid, 0⟩, w, ⟨rfl, fun st hst => ?_⟩,
      _, rfl, fun file hfile => ?_, fun _ => ⟨rfl, ?_⟩⟩ fun a w' hm hgood => ?_))
    fun st w' hgot => ?_
  · obtain rfl := Except.ok.inj hst
    exact ⟨hzero, fun id hid => by
      rw [hat] at hid
      cases hid⟩
  · rw [hshown] at hfile
    cases hfile
  · show (0 &&& 0o022 != 0) = false
    decide
  · obtain ⟨st, rfl, -, hst⟩ := hgood
    exact ⟨hst hd, hm.1⟩
  · obtain ⟨⟨huid, hmode⟩, hw'⟩ := hgot
    subst hw'
    refine geteuid_looks.seq ((orFail_looks (a := ()) ?_).seq (orFail_looks ?_))
    · rw [reject_ok, decide_eq_false_iff_not, not_not]
      exact huid
    · rw [reject_ok]
      exact hmode

theorem prepareLocked_does {modelRoot cacheDir : Str} {started : ℚ} {ms : List Str}
    (hroom : Room w) (hd : w.own d = some (.dir Y.root))
    (hplan : validatePlan reader.toInterp plan = .ok p)
    (hmodel : pathComponents modelRoot (str "model_root") = .ok ms) (hms : ms ≠ Y.root)
    (h : InPlace reader sha256 Y.euid src plan p w.shared raw r) :
    Y.Does src (fun res w' => w' = w ∧
      Reused sha256 (rstripSlash cacheDir ++ str "/" ++ receiptName) raw res)
      (prepareLocked reader sha256 d cacheDir
        (rstripSlash modelRoot ++ str "/" ++ p.source.name) plan p started) w := by
  obtain ⟨hpath, hnul, hplain⟩ := pathComponents_text hmodel
  have hname : 47 ∉ p.source.name := by
    have := (validatePlan_checked hplan).source.name
    simp only [safeName, Bool.and_eq_true, Bool.not_eq_true', decide_eq_false_iff_not,
      Bool.or_eq_false_iff] at this
    exact this.1.1.2
  have hsource : rstripSlash modelRoot ++ str "/" ++ p.source.name =
      Py.pathText (ms ++ [p.source.name]) := by
    rw [hpath, rstripSlash_pathText hplain, pathText_snoc]
    simp [str]
  rw [hsource]
  have hdir : pathComponents (dirnameOrRoot (Py.pathText (ms ++ [p.source.name])))
      (str "source directory") = .ok ms := by
    rw [dirnameOrRoot_pathText hname hplain]
    exact pathComponents_pathText _ (hpath ▸ hnul) hplain
  refine Meets.seq (openDir_does hroom hdir) fun srcDirFd w' hgot => ?_
  obtain ⟨hfresh, hw'⟩ := hgot
  subst hw'
  refine closing_does hfresh (fun id h => by cases h) ?_
  refine Meets.seq (openLeaf_elsewhere (hroom.opened _ _) (opened_self w srcDirFd _) hms)
    fun srcFd w' hgot => ?_
  obtain ⟨hfresh', hw'⟩ := hgot
  subst hw'
  refine closing_does hfresh' (fun id h => by cases h) ?_
  exact prepareFrom_does (l := ⟨d, _, plan, p, started⟩) ((hroom.opened _ _).opened _ _)
    (opened_of_own hfresh' (opened_of_own hfresh hd)) (opened_self _ srcFd _) h

/-- A preparation that finds its table with its receipt, and that nobody disturbs, ends; it leaves
the directory and its own descriptors as they were and answers with the digest of the receipt. -/
theorem prepareCache_reuses {modelRoot cacheDir : Str} {ms : List Str} (hroom : Room w)
    (hplan : validatePlan reader.toInterp plan = .ok p)
    (hmodel : pathComponents modelRoot (str "model_root") = .ok ms)
    (hcache : pathComponents cacheDir (str "cache_dir") = .ok Y.root)
    (hapart : checkApart modelRoot cacheDir = .ok ())
    (hlock : Unlocked Y.euid w.shared p.table.name id)
    (h : InPlace reader sha256 Y.euid src plan p w.shared raw r) :
    Y.Does src (fun res w' => w' = w ∧
      Reused sha256 (rstripSlash cacheDir ++ str "/" ++ receiptName) raw res)
      (prepareCache reader sha256 modelRoot cacheDir plan) w := by
  obtain ⟨-, hms⟩ := checkApart_parts hapart hmodel hcache
  refine Meets.seq (V := fun _ w' => w' = w) (ask_does ⟨0, w, rfl, not_false⟩ fun _ _ hm _ => hm)
    fun started w' hw' => ?_
  subst hw'
  refine (orFail_looks hplan).seq ((orFail_looks hapart).seq ?_)
  refine (resolveAnchored_looks hroom hmodel fun last hlast => absurd hlast (hms _)).seq ?_
  refine (ensureDirAnchored_looks hroom hcache).seq ?_
  refine Meets.seq (openDir_does hroom hcache) fun cacheFd w'' hgot => ?_
  obtain ⟨hfresh, hw''⟩ := hgot
  subst hw''
  refine closing_does hfresh (fun id h => by cases h) ?_
  have hd := opened_self w' cacheFd (.dir Y.root)
  refine (checkCacheRoot_looks hd).seq ?_
  refine Meets.seq (acquireLock_does (hroom.opened _ _) hd hlock) fun lockFd w'' hgot => ?_
  obtain ⟨hfresh', hw''⟩ := hgot
  subst hw''
  obtain ⟨-, -, -, -, hfree⟩ := hlock
  have hd' : (opened (lockedBy (opened w' cacheFd (.dir Y.root)) id Y.me) lockFd
      (.lock id)).own cacheFd = some (.dir Y.root) := opened_of_own hfresh' hd
  have hroom' : Room (opened (lockedBy (opened w' cacheFd (.dir Y.root)) id Y.me) lockFd
      (.lock id)) := Room.opened (hroom.opened cacheFd _) lockFd _
  have hms' : ms ≠ Y.root := fun heq => hms [] (by rw [heq, List.append_nil])
  refine Meets.finally_ ((prepareLocked_does hroom' hd' hplan hmodel hms' ⟨h.table, h.receipt,
    h.read, h.size, h.source, h.agrees, h.small⟩).mono (fun res v hv => ?_) fun _ _ e => e.elim)
  obtain ⟨rfl, hres⟩ := hv
  exact (unlock_does hfresh' hfree).mono (fun _ _ hv => ⟨hv, hres⟩) fun _ _ e => e

/-! ## The opening -/

theorem readAttested_looks (hown : w.own fd = some (.file id)) (hf : w.shared.files id = some f)
    (htidy : Tidy Y.euid f) (hsize : f.content.length ≤ maxMetaBytes) :
    Y.Looks src f.content (readAttested fd) w := by
  refine (statLeaf_looks hown hf htidy).seq ((orFail_looks (a := ()) ?_).seq ?_)
  · rw [reject_ok, decide_eq_false_iff_not]
    exact Nat.not_lt.mpr hsize
  · refine (readExact_looks hown hf).seq ?_
    have hshown : shown src w fd = some f.source := shown_file hown hf
    exact (requireUnchanged_looks hshown (w.shared.small hf)).seq ⟨rfl, rfl⟩

/-- An opening with the digest of the receipt that is there, which nobody disturbs, hands out the
table and changes nothing else. -/
theorem openPreparedTable_opens {args : OpenArgs} {cacheDir : Str} (hroom : Room w)
    (hplan : validatePlan reader.toInterp plan = .ok p)
    (hcache : pathComponents cacheDir (str "cache_dir") = .ok Y.root) (hroot : Y.root ≠ [])
    (hhex : HexOf 64 (sha256 raw)) (hargs : args.For cacheDir (sha256 raw) p)
    (h : InPlace reader sha256 Y.euid src plan p w.shared raw r) :
    Y.Does src (fun fd w' => ∃ id f, w.own fd = none ∧ w' = opened w fd (.file id) ∧
      w.shared.names p.table.name = some id ∧ w.shared.files id = some f ∧
      f.content.length = p.table.size ∧ sha256 f.content = p.table.sha256)
      (openPreparedTable reader sha256 args) w := by
  obtain ⟨hpath, hnul, hplain⟩ := pathComponents_text hcache
  obtain ⟨rid, rf, hrid, hrf, hrtidy, hcontent⟩ := h.receipt
  obtain ⟨tid, tf, htid, htf, httidy, hstat, hsize, hsha⟩ := h.table
  have hslash : 47 ∉ receiptName := by decide
  have hfront : front Y.root = Py.pathText Y.root := if_neg hroot
  have hreceipt : args.receiptPath = Py.pathText (Y.root ++ [receiptName]) := by
    rw [hargs.receiptPath, hpath, rstripSlash_pathText hplain, pathText_snoc]
    simp [str]
  have hdir : ∀ what, pathComponents args.tableDir what = .ok Y.root := by
    intro what
    rw [hargs.tableDir, hpath]
    exact pathComponents_pathText what (hpath ▸ hnul) hplain
  have hparts : pathComponents args.receiptPath (str "receipt_path") =
      .ok (Y.root ++ [receiptName]) := by
    rw [hreceipt]
    refine pathComponents_pathText _ ?_ fun part hpart => ?_
    · rw [pathText_snoc, hfront]
      intro h0
      rcases List.mem_append.mp h0 with h0 | h0
      · exact hnul (hpath ▸ h0)
      · revert h0
        decide
    · rcases List.mem_append.mp hpart with hpart | hpart
      · exact hplain part hpart
      · rw [List.mem_singleton.mp hpart]
        exact ⟨by decide, hslash, by decide, by decide⟩
  refine (orFail_looks (checkHash_ok.mpr ⟨hargs.expected, hhex⟩)).seq ?_
  refine (resolveAnchored_looks hroom hparts fun last hlast => ?_).seq ?_
  · have heq : last = receiptName := by
      have := List.append_cancel_left hlast
      exact (List.cons.inj this).1.symm
    rw [heq]
    exact ⟨rid, rf, hrid, hrf, hrtidy.regular⟩
  refine (resolveAnchored_looks hroom (hdir _) fun last hlast => ?_).seq ?_
  · have := congrArg List.length hlast
    rw [List.length_append, List.length_singleton] at this
    omega
  refine (orFail_looks (a := ()) ?_).seq ((orFail_looks (hargs.valid hplan)).seq ?_)
  · rw [reject_ok, decide_eq_false_iff_not, not_not, hargs.receiptPath, hargs.tableDir, hpath,
      rstripSlash_pathText hplain, hfront]
  have hrdir : pathComponents (dirnameOrRoot args.receiptPath) (str "receipt directory") =
      .ok Y.root := by
    rw [hreceipt, dirnameOrRoot_pathText hslash hplain, ← hpath, ← hargs.tableDir]
    exact hdir _
  have hbase : basename args.receiptPath = receiptName := by
    rw [hreceipt, basename_pathText hslash]
  refine Meets.seq (openDir_does hroom hrdir) fun rdFd w' hgot => ?_
  obtain ⟨hfresh, hw'⟩ := hgot
  subst hw'
  refine Meets.seq (V := fun a w' => w' = w ∧ a = raw)
    (closing_does hfresh (fun id h => by cases h) ?_) fun a w' hgot => ?_
  · rw [hbase]
    refine Meets.seq (openLeaf_found (hroom.opened _ _) (opened_self w rdFd _) hrid)
      fun fd w' hgot => ?_
    obtain ⟨hfresh', hw'⟩ := hgot
    subst hw'
    refine closing_does hfresh' (fun id h => by cases h) ?_
    have hlen : rf.content.length ≤ maxMetaBytes := hcontent ▸ h.size
    exact (readAttested_looks (w := opened (opened w rdFd (.dir Y.root)) fd (.file rid))
      (opened_self _ fd _) hrf hrtidy hlen).mono (fun a w' ha => ⟨ha.2, ha.1.trans hcontent⟩)
      fun _ _ e => e
  obtain ⟨hw', ha⟩ := hgot
  subst hw' ha
  refine (orFail_looks (hargs.attested hplan h.read)).seq ?_
  refine Meets.seq (openDir_does hroom (hdir _)) fun tdFd w'' hgot => ?_
  obtain ⟨hfresh, hw''⟩ := hgot
  subst hw''
  have hd := opened_self w' tdFd (.dir Y.root)
  obtain ⟨-, planHash, -, hmatch⟩ := receiptOfPlan?_some reader sha256 h.read
  have hopen : Y.Does src (fun fd v => (opened w' tdFd (.dir Y.root)).own fd = none ∧
      v = opened (opened w' tdFd (.dir Y.root)) fd (.file tid)) (openAttested tdFd r)
      (opened w' tdFd (.dir Y.root)) := by
    rw [openAttested, hmatch.tableName]
    refine Meets.seq (openExisting_found (hroom.opened _ _) hd htid htf httidy.regular)
      fun o v hgot => ?_
    obtain ⟨fd, ho, hfree, hv⟩ := hgot
    subst ho hv
    refine Meets.seq (V := fun _ v => v = opened (opened w' tdFd (.dir Y.root)) fd (.file tid))
      (Meets.handle (Meets.mono (R := fun _ _ => False) ?_ (fun _ _ h => h) fun _ _ e => e.elim))
      fun _ v hv => ⟨hfree, hv⟩
    refine (statLeaf_looks (w := opened (opened w' tdFd (.dir Y.root)) fd (.file tid))
      (opened_self _ fd _) htf httidy).seq (orFail_does (a := ()) ?_ rfl)
    rw [reject_ok, decide_eq_false_iff_not, not_not]
    exact hstat
  refine Meets.finally_ (((checkCacheRoot_looks hd).seq hopen).mono (fun fd v hv => ?_)
    fun _ _ e => e.elim)
  obtain ⟨hfree, rfl⟩ := hv
  exact (close_under_does hfresh hfree fun id h => by cases h).mono
    (fun _ v hv => ⟨tid, tf, hv.1, hv.2, htid, htf, hsize, hsha⟩) fun _ _ e => e

end Party

end Ple
end FlashNext
