import FlashNext.Ple.Published

/-!
# A prepared table

Under the lock of the table the warm path, the adoption of a table that has no receipt and the cold
path all end with a receipt whose stat stamps a table of the plan (`prepareCache_gives`).
-/

namespace FlashNext
namespace Ple

open Effect
open Py (Str Value str)
open Text (Bytes)

/-- What a preparation answers with. -/
structure Prepared {ι : Type} (reader : Reader) (sha256 : Bytes → Str) (receiptPath : Str)
    (plan : Value) (p : Plan) (v : Volume ι) (r : Result) : Prop where
  digest : ∃ raw, Attests reader sha256 plan p v raw ∧ r.receiptSha256 = sha256 raw
  copied : r.copiedBytes = if r.mode = .materialized then p.table.size else 0
  path : r.receiptPath = receiptPath

theorem Prepared.history {ι : Type} {reader : Reader} {sha256 : Bytes → Str} {receiptPath : Str}
    {plan : Value} {p : Plan} {v v' : Volume ι} {r : Result}
    (h : Prepared reader sha256 receiptPath plan p v r) (hv : History v v') :
    Prepared reader sha256 receiptPath plan p v' r := by
  obtain ⟨raw, hraw, hdigest⟩ := h.digest
  exact ⟨⟨raw, hraw.history hv, hdigest⟩, h.copied, h.path⟩

/-- The plan is one, and the answer is one to it. -/
def PreparedBy {ι : Type} (reader : Reader) (sha256 : Bytes → Str) (cacheDir : Str) (plan : Value)
    (v : Volume ι) (r : Result) : Prop :=
  ∃ p, validatePlan reader.toInterp plan = .ok p ∧
    Prepared reader sha256 (rstripSlash cacheDir ++ str "/" ++ receiptName) plan p v r

theorem PreparedBy.history {ι : Type} {reader : Reader} {sha256 : Bytes → Str} {cacheDir : Str}
    {plan : Value} {v v' : Volume ι} {r : Result} (h : PreparedBy reader sha256 cacheDir plan v r)
    (hv : History v v') : PreparedBy reader sha256 cacheDir plan v' r := by
  obtain ⟨p, hp, hr⟩ := h
  exact ⟨p, hp, hr.history hv⟩

theorem validatePlan_isTable {interp : Interp} {plan : Value} {p : Plan}
    (h : validatePlan interp plan = .ok p) : IsTable p.table.name :=
  ⟨_, _, _, (validatePlan_checked h).table.name_eq⟩

namespace Party

variable {ι : Type} {Y : Party ι} {α β : Type} {P : Str → Prop} {w w' : Cache ι} {fd : Fd}
  {n : Str} {c c' : Bytes} {reader : Reader} {sha256 : Bytes → Str} {l : Locked}
  {srcBaseline : Snapshot}

/-- The process may publish what the plan asks for, and the reader reads receipts back. -/
structure Licensed (Y : Party ι) (reader : Reader) (sha256 : Bytes → Str) (plan : Value)
    (p : Plan) : Prop where
  readsBack : reader.ReadsBack
  valid : p.Valid
  isTable : IsTable p.table.name
  table : ∀ c v, c.length = p.table.size → sha256 c = p.table.sha256 →
    Y.publish p.table.name c v
  receipt : ∀ raw v, Attests reader sha256 plan p v raw → Y.publish receiptName raw v

/-- The directory is open and the lock of the table is held. -/
structure Ready (Y : Party ι) (l : Locked) (w : Cache ι) : Prop where
  dir : w.own l.cacheFd = some (.dir Y.root)
  lock : HoldsLock Y.me w.shared l.p.table.name

theorem Ready.still (h : Ready Y l w) (hs : Y.Still P w w') : Ready Y l w' :=
  ⟨hs.own _ _ h.dir, h.lock.keep hs.keep⟩

theorem Pinned.not_lock (h : Pinned Y w n fd c) (hs : Y.Still P w w') (id : FileId) :
    w'.own fd ≠ some (.lock id) := by
  obtain ⟨id', f, ho, -⟩ := h.file
  rw [hs.own fd _ ho]
  intro heq
  cases heq

theorem Pinned.content_eq (h : Pinned Y w n fd c) (hc : Contains w.shared n c') : c' = c := by
  obtain ⟨id, f, -, hn, hf, rfl⟩ := h.file
  obtain ⟨id', f', hn', hf', rfl⟩ := hc
  obtain rfl := Option.some.inj (hn.symm.trans hn')
  rw [Option.some.inj (hf'.symm.trans hf)]

variable [DecidableEq ι]

/-! ## Closing on the way out -/

theorem close_history : Y.Gives (fun _ w' => History w.shared w'.shared)
    (orOs (ask (.close fd))) w := by
  refine Meets.orOs (ask_spec fun u a w' hu _ hm => ⟨close_acts hm, ?_⟩)
  cases a with
  | ok _ => exact hu.keep.history.trans (close_acts (Y := Y) hm).history
  | error e => trivial

/-- A close does not change what the history of the directory says. -/
theorem finally_history {V : α → Volume ι → Prop} {p : CacheM α}
    (hV : ∀ a v v', V a v → History v v' → V a v')
    (hp : Y.Gives (fun a w' => V a w'.shared) p w) :
    Y.Gives (fun a w' => V a w'.shared) (p.finally_ (orOs (ask (.close fd)))) w := by
  refine Meets.finally_ (hp.mono (fun a v hv => ?_) fun _ v _ => ?_)
  · exact close_history.mono (fun _ v' hv' => hV a _ _ hv hv') fun _ _ _ => trivial
  · exact close_history.mono (fun _ _ _ => trivial) fun _ _ _ => trivial

/-! ## The lock -/

/-- The file of the lock is there, or it is made. -/
theorem openLock_gives {d : Fd} {t what : Str} (hd : w.own d = some (.dir Y.root)) :
    Y.Gives (fun fd w' => w.own fd = none ∧ Y.Rests w w' ∧ ∃ id, w'.own fd = some (.file id) ∧
      w'.shared.names (lockName t) = some id) (openLeaf d (lockName t) what true) w := by
  refine Meets.orCache (ask_spec fun u a w' hu hown hm => ?_)
  cases a with
  | error e =>
    obtain rfl : w' = u := hm
    exact ⟨Acts.refl _ _, trivial⟩
  | ok fd =>
    obtain ⟨p, hp, hm⟩ := hm
    rw [hown, hd] at hp
    obtain rfl := Handle.dir.inj (Option.some.inj hp)
    rw [if_pos rfl] at hm
    obtain ⟨id, ho, ⟨hid, hshared⟩ | ⟨-, hc⟩⟩ := hm
    · have hopened : Opened Y w fd (.file id) w' :=
        opened_of_opens hu ho (by rw [hshared]; exact Keep.refl _)
      refine ⟨by rw [hshared]; exact Acts.refl _ _, hopened.fresh, hopened.still, id, hopened.own,
        ?_⟩
      rw [hshared]
      exact hid
    · have hkeep : Keep Y.pid Y.calm Y.me (fun _ => True) u.shared w'.shared := by
        refine hc.keep fun hprotected => ?_
        rcases hprotected.2 with htemp | ⟨htable, -⟩
        · exact htemp.not_lock ⟨t, rfl⟩
        · exact htable.head_ne (head_lockName t)
      have hopened : Opened Y w fd (.file id) w' := opened_of_opens hu ho hkeep
      refine ⟨hc.acts (.inl ⟨t, rfl⟩), hopened.fresh, hopened.still, id, hopened.own, ?_⟩
      rw [hc.names, Function.update_self]

/-- The lock is free, or it is not taken. -/
theorem takeLock_gives {t : Str} {id : FileId} {w₀ : Cache ι} (hown : w.own fd = some (.file id))
    (hid : w.shared.names (lockName t) = some id) (hfresh : w₀.own fd = none)
    (hstill : Y.Rests w₀ w) :
    Y.Gives (fun _ w' => Y.Rests w₀ w' ∧ HoldsLock Y.me w'.shared t) (takeLock fd) w := by
  refine Meets.seq (V := fun a w' => ∀ r, a = .ok r → Y.Rests w₀ w' ∧ HoldsLock Y.me w'.shared t)
    (ask_spec fun u a w' hu _ hm => ?_) fun a v hv => ?_
  · cases a with
    | error e =>
      obtain rfl : w' = u := hm
      exact ⟨Acts.refl _ _, fun r hr => by cases hr⟩
    | ok r =>
      obtain ⟨hfree, hshared, hown'⟩ := hm.flock (hu.own fd _ hown)
      have hkeep : Keep Y.pid Y.calm Y.me (fun _ => True) u.shared w'.shared := by
        rw [hshared]
        exact Volume.relock_keep hfree
      refine ⟨by rw [hshared]; exact Volume.relock_acts (.inl hfree) (.inr rfl), fun _ _ =>
        ⟨⟨fun fd' h hfd => ?_, (hstill.trans hu).keep.trans hkeep⟩, id,
          hkeep.lockNames t id (hu.keep.lockNames t id hid), ?_⟩⟩
      · have hne : fd' ≠ fd := by
          rintro rfl
          rw [hfresh] at hfd
          cases hfd
        rw [hown', Function.update_of_ne hne]
        exact (hstill.trans hu).own fd' h hfd
      · rw [hshared]
        exact Function.update_self id _ _
  · cases a with
    | ok r => exact hv r rfl
    | error e =>
      by_cases hbusy : e.errno = .eacces ∨ e.errno = .eagain
      · simp only [if_pos hbusy]
        trivial
      · simp only [if_neg hbusy]
        trivial

theorem acquireLock_gives {d : Fd} {p : Plan} (hd : w.own d = some (.dir Y.root)) :
    Y.Gives (fun _ w' => Y.Rests w w' ∧ HoldsLock Y.me w'.shared p.table.name)
      (acquireLock d p) w := by
  refine Meets.seq (openLock_gives hd) fun fd w₁ hgot => ?_
  obtain ⟨hfresh, h₁, id, hown, hid⟩ := hgot
  refine Meets.seq (V := fun _ w' => Y.Rests w w' ∧ HoldsLock Y.me w'.shared p.table.name)
    (onRaise_gives ?_ fun v => close_gives fun _ => trivial) fun _ w' hw' => hw'
  refine (statLeaf_keeps fd _).seq fun _ w₂ h₂ => ?_
  exact takeLock_gives (h₂.own fd _ hown) (h₂.keep.lockNames _ id hid) hfresh (h₁.trans h₂)

/-! ## The receipt -/

theorem result_gives {receiptPath : Str} {plan : Value} {p : Plan} {raw : Bytes} {mode : Mode}
    {copied : Nat} {started : ℚ} (hraw : Attests reader sha256 plan p w.shared raw)
    (hcopied : copied = if mode = .materialized then p.table.size else 0) :
    Y.Gives (fun r w' => Y.Rests w w' ∧
      Prepared reader sha256 receiptPath plan p w'.shared r)
      (result receiptPath (sha256 raw) mode copied started) w :=
  (Keeps.ask rfl).seq fun _ _ hw =>
    ⟨hw, ⟨raw, hraw.history hw.keep.history, rfl⟩, hcopied, rfl⟩

/-- What is loaded of the receipt is what its bytes say. -/
theorem loadReceipt_gives {d : Fd} {plan : Value} {p : Plan} :
    Y.Gives (fun loaded w' => Y.Rests w w' ∧ ∀ r, loaded.2 = some r →
      receiptOfPlan? reader sha256 plan p loaded.1 = some r)
      (loadReceipt reader sha256 d plan p) w := by
  refine Meets.seq (openExisting_gives d receiptName (str "receipt")) fun o w₁ h₁ => ?_
  cases o with
  | none => exact ⟨h₁, fun r hr => by cases hr⟩
  | some fd =>
    have hread : Y.Gives (fun (_ : Option Bytes) w' => Y.Rests w w')
        ((readReceiptFile fd).finally_ (orOs (ask (.close fd)))) w₁ :=
      h₁.closing (P := fun _ => True) ((readReceiptFile_keeps fd).gives fun _ _ hw =>
        ⟨hw, fun _ _ hs => hs⟩)
    refine Meets.seq hread fun o w₂ h₂ => ?_
    cases o with
    | none => exact ⟨h₂, fun r hr => by cases hr⟩
    | some raw => exact ⟨h₂, fun r hr => hr⟩

/-- A new receipt for a table that has the size and the hash of the plan. -/
theorem attest_gives (hl : Licensed Y reader sha256 l.plan l.p) (hready : Ready Y l w)
    (hpin : Pinned Y w l.p.table.name fd c) (hsize : c.length = l.p.table.size)
    (hsha : sha256 c = l.p.table.sha256) (hsource : srcBaseline.Small) :
    Y.Gives (fun raw w' => Y.Still (fun _ => False) w w' ∧
      Attests reader sha256 l.plan l.p w'.shared raw)
      (attest reader sha256 l fd srcBaseline) w := by
  refine Meets.seq (fstat_pinned hpin) fun st w₁ hgot => ?_
  obtain ⟨h₁, hstamp, hsmall, _⟩ := hgot
  refine (finalizeReceipt_gives hl.readsBack (hready.still h₁).dir hsource hsmall hstamp hsize hsha
    hl.receipt).mono (fun raw w' h => ⟨?_, h.2⟩) fun _ _ e => e
  exact (h₁.mono fun _ _ => trivial).trans h.1

/-- A block that leaves a receipt for the table, which it closes. -/
theorem attest_closed {p : CacheM Bytes} (hpin : Pinned Y w n fd c)
    (hp : Y.Gives (fun raw w' => Y.Still (fun _ => False) w w' ∧
      Attests reader sha256 l.plan l.p w'.shared raw) p w) :
    Y.Gives (fun raw w' => Attests reader sha256 l.plan l.p w'.shared raw)
      (p.finally_ (orOs (ask (.close fd)))) w :=
  finally_close (hp.mono (fun _ _ h => ⟨hpin.not_lock h.1, fun _ hc =>
    h.2.history hc.keep.history⟩) fun _ _ e => e)

/-! ## The warm path -/

theorem receiptVouches_gives {st : Stat} {r : Receipt} (hpin : Pinned Y w n fd c) :
    Y.Gives (fun b w' => Y.Rests w w' ∧
      (b = true → c.length = l.p.table.size ∧ sha256 c = l.p.table.sha256))
      (receiptVouches sha256 fd st srcBaseline r l.p.table) w := by
  rw [receiptVouches]
  by_cases hsame : st.dev = r.tableStat.dev ∧ st.ino = r.tableStat.ino ∧
      st.size = r.tableStat.size ∧ srcBaseline = r.sourceStat
  · rw [if_pos hsame]
    exact verifyTableContent_pinned hpin
  · rw [if_neg hsame]
    exact ⟨Still.refl w, fun hfalse => by cases hfalse⟩

/-- The receipt that is there stands, where the stat has not moved. -/
theorem renewReceipt_gives {raw : Bytes} {r : Receipt} {st : Stat}
    (hl : Licensed Y reader sha256 l.plan l.p) (hready : Ready Y l w)
    (hstamp : Stamp w.shared st.snapshot c) (hsmall : st.snapshot.Small)
    (hsize : c.length = l.p.table.size) (hsha : sha256 c = l.p.table.sha256)
    (hsource : srcBaseline.Small)
    (hraw : receiptOfPlan? reader sha256 l.plan l.p raw = some r) :
    Y.Gives (fun raw' w' => Y.Still (fun _ => False) w w' ∧
      Attests reader sha256 l.plan l.p w'.shared raw')
      (renewReceipt reader sha256 l raw r st srcBaseline) w := by
  rw [renewReceipt]
  by_cases hmoved : st.snapshot ≠ r.tableStat
  · rw [if_pos hmoved]
    exact finalizeReceipt_gives hl.readsBack hready.dir hsource hsmall hstamp hsize hsha hl.receipt
  · rw [if_neg hmoved]
    obtain ⟨hread, planHash, hhash, hmatch⟩ := receiptOfPlan?_some reader sha256 hraw
    rw [not_not] at hmoved
    refine ⟨Still.refl w, r, planHash, hread, hhash, hmatch, c, hmoved ▸ hstamp, ?_, ?_⟩
    · rw [hmatch.tableSize]
      exact hsize
    · rw [hmatch.tableSha256]
      exact hsha

theorem reuseTable_gives {srcFd : Fd} {raw : Bytes} {receipt : Option Receipt}
    (hl : Licensed Y reader sha256 l.plan l.p) (hready : Ready Y l w)
    (hpin : Pinned Y w l.p.table.name fd c) (hsource : srcBaseline.Small)
    (hraw : ∀ r, receipt = some r → receiptOfPlan? reader sha256 l.plan l.p raw = some r) :
    Y.Gives (fun o w' => Y.Still (fun _ => False) w w' ∧ ∀ r, o = some r →
      Prepared reader sha256 l.receiptPath l.plan l.p w'.shared r)
      (reuseTable reader sha256 l srcFd fd srcBaseline raw receipt) w := by
  refine Meets.seq (statLeaf_pinned hpin) fun st w₁ hgot => ?_
  obtain ⟨h₁, hstamp, hsmall, _⟩ := hgot
  cases receipt with
  | none => exact ⟨h₁.mono fun _ _ => trivial, fun r hr => by cases hr⟩
  | some r =>
    refine Meets.seq (receiptVouches_gives (hpin.rests h₁)) fun b w₂ hgot => ?_
    obtain ⟨h₂, hverified⟩ := hgot
    have h₁₂ : Y.Rests w w₂ := h₁.trans h₂
    cases b with
    | false => exact ⟨h₁₂.mono fun _ _ => trivial, fun r hr => by cases hr⟩
    | true =>
      obtain ⟨hsize, hsha⟩ := hverified rfl
      refine (requireUnchanged_keeps _ _ _).seq fun _ w₃ h₃ => ?_
      refine (requireUnchanged_keeps _ _ _).seq fun _ w₄ h₄ => ?_
      have h₂₄ : Y.Rests w₂ w₄ := h₃.trans h₄
      refine Meets.seq (renewReceipt_gives hl (hready.still (h₁₂.trans h₂₄))
        (hstamp.history (h₂.trans h₂₄).keep.history) hsmall hsize hsha hsource (hraw r rfl))
        fun raw' w₅ hgot => ?_
      obtain ⟨h₅, hraw'⟩ := hgot
      refine Meets.seq (result_gives hraw' rfl) fun res w₆ hgot => ?_
      obtain ⟨h₆, hres⟩ := hgot
      refine ⟨?_, fun r hr => Option.some.inj hr ▸ hres⟩
      exact (((h₁₂.trans h₂₄).mono fun _ _ => trivial).trans h₅).trans (h₆.mono fun _ _ => trivial)

theorem tryReuse_gives {srcFd : Fd} {raw : Bytes} {receipt : Option Receipt}
    (hl : Licensed Y reader sha256 l.plan l.p) (hready : Ready Y l w)
    (hsource : srcBaseline.Small)
    (hraw : ∀ r, receipt = some r → receiptOfPlan? reader sha256 l.plan l.p raw = some r) :
    Y.Gives (fun o w' => Y.Still (fun _ => False) w w' ∧ ∀ r, o = some r →
      Prepared reader sha256 l.receiptPath l.plan l.p w'.shared r)
      (tryReuse reader sha256 l srcFd srcBaseline raw receipt) w := by
  refine Meets.seq (openExisting_gives _ _ _) fun o w₁ h₁ => ?_
  cases o with
  | none => exact ⟨h₁.mono fun _ _ => trivial, fun r hr => by cases hr⟩
  | some fd =>
    obtain ⟨c, hpin⟩ := h₁.pinned hready.dir (.inr ⟨hl.isTable, hready.lock⟩)
    refine h₁.closing ((reuseTable_gives hl (hready.still h₁.still) hpin hsource hraw).mono
      (fun o w' h => ⟨h.1, fun v hc hv => ⟨hv, fun r hr => ?_⟩⟩) fun _ _ e => e)
    exact (h.2 r hr).history hc.keep.history

/-! ## A table without a receipt -/

theorem tryAdoptLegacy_gives (hl : Licensed Y reader sha256 l.plan l.p) (hready : Ready Y l w) :
    Y.Gives (fun o w' => Y.Rests w w' ∧ ∀ fd, o = some fd → ∃ c,
      Pinned Y w' l.p.table.name fd c ∧ c.length = l.p.table.size ∧ sha256 c = l.p.table.sha256)
      (tryAdoptLegacy sha256 l.cacheFd l.p) w := by
  refine Meets.seq (openExisting_gives _ _ _) fun o w₁ h₁ => ?_
  cases o with
  | none => exact ⟨h₁, fun fd hfd => by cases hfd⟩
  | some fd =>
    have ho : LeafOpened Y w l.cacheFd l.p.table.name fd w₁ := h₁
    obtain ⟨c, hpin⟩ := ho.pinned hready.dir (.inr ⟨hl.isTable, hready.lock⟩)
    refine Meets.seq (V := fun b w' => Y.Rests w₁ w' ∧
      (b = true → c.length = l.p.table.size ∧ sha256 c = l.p.table.sha256))
      (onRaise_gives ?_ fun v => close_gives fun _ => trivial) fun b w₂ hgot => ?_
    · refine (statLeaf_keeps fd _).seq fun _ v hv => ?_
      exact (verifyTableContent_pinned (hpin.rests hv)).mono
        (fun b w' h => ⟨hv.trans h.1, h.2⟩) fun _ _ e => e
    · obtain ⟨h₂, hverified⟩ := hgot
      cases b with
      | true =>
        obtain ⟨hsize, hsha⟩ := hverified rfl
        refine ⟨ho.still.trans h₂, fun fd' hfd => ?_⟩
        obtain rfl := Option.some.inj hfd
        exact ⟨c, hpin.rests h₂, hsize, hsha⟩
      | false =>
        refine Meets.seq (close_spec (V := fun _ w' => Y.Rests w w') (hpin.not_lock h₂)
          (fun w' hc => hc.still (ho.still.trans h₂) ho.fresh) fun _ _ _ => trivial)
          fun _ w' hw' => ⟨hw', fun fd' hfd => by cases hfd⟩

theorem adoptTable_gives {srcFd : Fd} (hl : Licensed Y reader sha256 l.plan l.p)
    (hready : Ready Y l w) (hpin : Pinned Y w l.p.table.name fd c)
    (hsize : c.length = l.p.table.size) (hsha : sha256 c = l.p.table.sha256)
    (hsource : srcBaseline.Small) :
    Y.Gives (fun r w' => Prepared reader sha256 l.receiptPath l.plan l.p w'.shared r)
      (adoptTable reader sha256 l srcFd fd srcBaseline) w := by
  refine Meets.seq (attest_closed hpin ?_) fun raw w₁ hraw =>
    (result_gives hraw rfl).mono (fun r w' h => h.2) fun _ _ e => e
  refine (requireUnchanged_keeps _ _ _).seq fun _ v hv => ?_
  refine (attest_gives hl (hready.still hv) (hpin.rests hv) hsize hsha hsource).mono
    (fun raw w' h => ⟨(hv.mono fun _ _ => trivial).trans h.1, h.2⟩) fun _ _ e => e

/-! ## The cold path -/

theorem buildTable_gives {srcFd : Fd} (hl : Licensed Y reader sha256 l.plan l.p)
    (hready : Ready Y l w) (hsource : srcBaseline.Small) :
    Y.Gives (fun r w' => Prepared reader sha256 l.receiptPath l.plan l.p w'.shared r)
      (buildTable reader sha256 l srcFd srcBaseline) w := by
  refine Meets.seq (materialize_gives hready.dir hl.isTable hready.lock hl.valid hl.table)
    fun copied w₁ hgot => ?_
  obtain ⟨hcopied, h₁, c, hsize, hsha, hc⟩ := hgot
  have hready₁ := hready.still h₁
  refine Meets.seq (openLeaf_gives _ _ _) fun fd w₂ h₂ => ?_
  have hsafe : Protected Y.pid Y.me w₁.shared l.p.table.name := .inr ⟨hl.isTable, hready₁.lock⟩
  obtain ⟨c', hpin⟩ := h₂.pinned hready₁.dir hsafe
  -- nobody else has touched what was published
  obtain rfl := hpin.content_eq (hc.same (h₂.still.keep.same _ trivial hsafe))
  refine Meets.seq (attest_closed hpin (attest_gives hl (hready₁.still h₂.still) hpin hsize hsha
    hsource)) fun raw w₃ hraw => ?_
  exact (result_gives hraw (by rw [hcopied, if_pos rfl])).mono (fun r w' h => h.2) fun _ _ e => e

/-! ## The preparation -/

theorem prepareFrom_gives {srcFd : Fd} (hl : Licensed Y reader sha256 l.plan l.p)
    (hready : Ready Y l w) :
    Y.Gives (fun r w' => Prepared reader sha256 l.receiptPath l.plan l.p w'.shared r)
      (prepareFrom reader sha256 l srcFd) w := by
  refine Meets.seq (verifySource_gives _ _ _ _) fun srcBaseline w₁ hgot => ?_
  obtain ⟨h₁, hsource⟩ := hgot
  refine (fileExists_keeps _ _).seq fun receiptExists w₂ h₂ => ?_
  refine Meets.seq loadReceipt_gives fun loaded w₃ hgot => ?_
  obtain ⟨h₃, hloaded⟩ := hgot
  have hready₃ := hready.still ((h₁.trans h₂).trans h₃)
  refine Meets.seq (tryReuse_gives hl hready₃ hsource hloaded) fun o w₄ hgot => ?_
  obtain ⟨h₄, hres⟩ := hgot
  cases o with
  | some r => exact hres r rfl
  | none =>
    have hready₄ := hready₃.still h₄
    by_cases hexists : receiptExists = true
    · simp only [if_pos hexists]
      exact buildTable_gives hl hready₄ hsource
    · simp only [if_neg hexists]
      refine Meets.seq (tryAdoptLegacy_gives hl hready₄) fun adopted w₅ hgot => ?_
      obtain ⟨h₅, hadopted⟩ := hgot
      cases adopted with
      | none => exact buildTable_gives hl (hready₄.still h₅) hsource
      | some fd =>
        obtain ⟨c, hpin, hsize, hsha⟩ := hadopted fd rfl
        exact adoptTable_gives hl (hready₄.still h₅) hpin hsize hsha hsource

theorem prepareLocked_gives {d : Fd} {cacheDir sourcePath : Str} {plan : Value} {p : Plan}
    {started : ℚ} (hl : Licensed Y reader sha256 plan p) (hd : w.own d = some (.dir Y.root))
    (hlock : HoldsLock Y.me w.shared p.table.name) :
    Y.Gives (fun r w' => Prepared reader sha256 (rstripSlash cacheDir ++ str "/" ++ receiptName)
      plan p w'.shared r) (prepareLocked reader sha256 d cacheDir sourcePath plan p started) w := by
  refine Meets.seq (openDir_gives fun _ _ h => by cases h) fun srcDirFd w₁ hgot => ?_
  obtain ⟨_, _, h₁⟩ := hgot
  refine finally_history (V := fun r v => Prepared reader sha256 _ plan p v r)
    (fun _ _ _ h hv => h.history hv) ?_
  refine Meets.seq (openLeaf_gives _ _ _) fun srcFd w₂ h₂ => ?_
  refine finally_history (V := fun r v => Prepared reader sha256 _ plan p v r)
    (fun _ _ _ h hv => h.history hv) ?_
  have h₀₂ : Y.Rests w w₂ := h₁.still.trans h₂.still
  exact prepareFrom_gives (l := ⟨d, _, plan, p, started⟩) hl ⟨h₀₂.own d _ hd, hlock.keep h₀₂.keep⟩

/-- A preparation that returns has left a receipt that attests a table of its plan. -/
theorem prepareCache_gives {modelRoot cacheDir : Str} {plan : Value}
    (hl : ∀ p, validatePlan reader.toInterp plan = .ok p → Licensed Y reader sha256 plan p)
    (hroot : ∀ parts, pathComponents cacheDir (str "cache_dir") = .ok parts → parts = Y.root) :
    Y.Gives (fun r w' => PreparedBy reader sha256 cacheDir plan w'.shared r)
      (prepareCache reader sha256 modelRoot cacheDir plan) w := by
  refine (Keeps.ask rfl).seq fun started w₁ _ => ?_
  refine orFail_seq fun p hp => orFail_seq fun _ _ => ?_
  refine Meets.seq (resolveAnchored_gives modelRoot _) fun _ w₂ _ => ?_
  refine Meets.seq (ensureDirAnchored_gives hroot) fun cacheDir' w₃ hgot => ?_
  obtain ⟨hdir, _⟩ := hgot
  subst hdir
  refine Meets.seq (openDir_gives fun _ _ h => by cases h) fun cacheFd w₄ hgot => ?_
  obtain ⟨parts, hparts, h₄⟩ := hgot
  obtain rfl := hroot parts hparts
  refine finally_history (V := fun r v => PreparedBy reader sha256 cacheDir' plan v r)
    (fun _ _ _ h hv => h.history hv) ?_
  refine (checkCacheRoot_keeps _ _).seq fun _ w₅ h₅ => ?_
  refine Meets.seq (acquireLock_gives (h₅.own _ _ h₄.own)) fun lockFd w₆ hgot => ?_
  obtain ⟨h₆, hlock⟩ := hgot
  refine finally_history (V := fun r v => PreparedBy reader sha256 cacheDir' plan v r)
    (fun _ _ _ h hv => h.history hv) ?_
  exact (prepareLocked_gives (hl p hp) ((h₅.trans h₆).own _ _ h₄.own) hlock).mono
    (fun r w' h => ⟨p, hp, h⟩) fun _ _ e => e

end Party

end Ple
end FlashNext
