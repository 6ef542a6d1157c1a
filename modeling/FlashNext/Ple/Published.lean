import FlashNext.Ple.Pinned

/-!
# Publishing

The table and the receipt are written under a temporary name and moved into place when they are
whole: what `_materialize` publishes has the size and the hash of the plan
(`materialize_gives`), and what `_finalize_receipt` publishes is a receipt whose stat stamps such
a table (`finalizeReceipt_gives`).
-/

namespace FlashNext
namespace Ple

open Effect
open Py (Str Value str)
open Text (Bytes)
open Posix

/-- A block of the table lies in the table. -/
theorem Plan.Valid.shard_fits {plan : Plan} (h : plan.Valid) {shard : Shard}
    (hshard : shard ∈ plan.shards) : shard.id * shard.size + shard.size ≤ plan.table.size := by
  obtain ⟨i, hi, rfl⟩ := List.mem_iff_getElem.mp hshard
  have hcount : i + 1 ≤ plan.shardCount := by
    rw [← h.length_shards]
    omega
  rw [h.shard_id i hi, h.shard_size _ (List.getElem_mem hi), h.table_size, ← Nat.succ_mul]
  exact Nat.mul_le_mul_right _ hcount

section

variable {ι : Type} (reader : Reader) (sha256 : Bytes → Str) {v v' : Volume ι}

/-- The stat in the receipt is the stamp of a table of its size and its hash. -/
def Vouched (v : Volume ι) (r : Receipt) : Prop :=
  ∃ c, Stamp v r.tableStat c ∧ c.length = r.table.size ∧ sha256 c = r.table.sha256

/-- The bytes are a receipt for the plan, and it is vouched for. -/
def Attests (plan : Value) (p : Plan) (v : Volume ι) (raw : Bytes) : Prop :=
  ∃ r planHash, readReceipt reader raw = .ok r ∧ planSha256 reader sha256 plan = .ok planHash ∧
    r.Matches p planHash ∧ Vouched sha256 v r

variable {reader sha256}

theorem Vouched.history {r : Receipt} (h : Vouched sha256 v r) (hv : History v v') :
    Vouched sha256 v' r := by
  obtain ⟨c, hstamp, hsize, hsha⟩ := h
  exact ⟨c, hstamp.history hv, hsize, hsha⟩

theorem Attests.history {plan : Value} {p : Plan} {raw : Bytes}
    (h : Attests reader sha256 plan p v raw) (hv : History v v') :
    Attests reader sha256 plan p v' raw := by
  obtain ⟨r, planHash, hread, hhash, hmatch, hvouched⟩ := h
  exact ⟨r, planHash, hread, hhash, hmatch, hvouched.history hv⟩

theorem receiptToWrite_ok {plan : Value} {p : Plan} {sourceStat tableStat : Snapshot} {r : Receipt}
    (h : receiptToWrite reader sha256 plan p sourceStat tableStat = .ok r) :
    ∃ planHash, planSha256 reader sha256 plan = .ok planHash ∧
      r = receiptOf p planHash sourceStat tableStat ∧ r.Checked := by
  simp only [receiptToWrite, bind_ok, pure_ok] at h
  obtain ⟨planHash, hhash, r', hr', rfl⟩ := h
  refine ⟨planHash, hhash, rfl, ?_⟩
  obtain rfl := validateReceipt_read hr'
  exact validateReceipt_checked hr'

end

namespace Party

variable {ι : Type} [DecidableEq ι] {Y : Party ι} {α β : Type} {P : Str → Prop}
  {w w' : Cache ι} {fd : Fd} {n : Str} {c : Bytes}

/-! ## The staged table -/

/-- A copy changes bytes of the staged file, and not how many they are. -/
theorem copyRest_pinned {src : Fd} {srcOffset dstOffset size remaining sinceSync : Nat} {what : Str}
    (h : Pinned Y w n fd c) (htemp : TempOf (Y.pid Y.me) n) (hr : remaining ≤ size)
    (hfits : dstOffset + size ≤ c.length) :
    Y.Gives (fun _ w' => Y.Still IsTable w w' ∧ ∃ c', c'.length = c.length ∧ Pinned Y w' n fd c')
      (copyRest src fd srcOffset dstOffset size what remaining sinceSync) w := by
  induction remaining using Nat.strong_induction_on generalizing c sinceSync w with
  | _ remaining ih =>
    rw [copyRest]
    by_cases hpos : 0 < remaining
    · rw [if_pos hpos]
      have hread : Y.Gives (fun chunk w' => Y.Rests w w' ∧ chunk.length ≤ remaining)
          (orOs (ask (.pread src (min ioBufferBytes remaining)
            (srcOffset + (size - remaining))))) w := by
        refine Meets.orOs (ask_quiet rfl fun u a hu _ hm => ?_)
        cases a with
        | error e => trivial
        | ok chunk => exact ⟨hu, (hm.2 chunk rfl).1.trans (Nat.min_le_right _ _)⟩
      refine Meets.seq hread fun chunk w₁ hgot => ?_
      obtain ⟨h₁, hle⟩ := hgot
      by_cases hempty : chunk = []
      · rw [if_pos hempty]
        trivial
      rw [if_neg hempty]
      have hchunk := List.length_pos_iff.mpr hempty
      refine Meets.seq (pwriteAll_pinned (h.rests h₁) htemp (by omega)) fun _ w₂ hgot => ?_
      obtain ⟨h₂, hp₂⟩ := hgot
      have hlength : (overwrite 0 c chunk (dstOffset + (size - remaining))).length = c.length := by
        rw [length_overwrite (by omega)]
        omega
      have h₀ : Y.Still IsTable w w₂ := (h₁.mono fun _ _ => trivial).trans h₂
      have hrest : ∀ sinceSync w₃, Y.Rests w₂ w₃ →
          Y.Gives (fun _ w' => Y.Still IsTable w w' ∧
            ∃ c', c'.length = c.length ∧ Pinned Y w' n fd c')
            (copyRest src fd srcOffset dstOffset size what (remaining - chunk.length) sinceSync)
            w₃ := by
        intro sinceSync w₃ h₃
        refine (ih (remaining - chunk.length) (by omega) (hp₂.rests h₃) (by omega)
          (by omega)).mono (fun _ w' hgot => ?_) fun _ _ e => e
        obtain ⟨h', c', hc', hp'⟩ := hgot
        exact ⟨(h₀.trans (h₃.mono fun _ _ => trivial)).trans h', c', hc'.trans hlength, hp'⟩
      dsimp only
      by_cases hsync : fadviseIntervalBytes ≤ sinceSync + chunk.length
      · rw [if_pos hsync]
        refine (Keeps.orOs (Keeps.ask rfl)).seq fun _ w₃ h₃ => ?_
        refine (fadviseDontneed_keeps _ _ _).seq fun _ w₄ h₄ => ?_
        refine (fadviseDontneed_keeps _ _ _).seq fun _ w₅ h₅ => ?_
        exact hrest 0 w₅ ((h₃.trans h₄).trans h₅)
      · rw [if_neg hsync]
        exact hrest _ w₂ (Still.refl w₂)
    · rw [if_neg hpos]
      exact ⟨Still.refl w, c, rfl, h⟩

theorem copyRange_pinned {src : Fd} {srcOffset dstOffset size : Nat} {what : Str}
    (h : Pinned Y w n fd c) (htemp : TempOf (Y.pid Y.me) n) (hfits : dstOffset + size ≤ c.length) :
    Y.Gives (fun _ w' => Y.Still IsTable w w' ∧ ∃ c', c'.length = c.length ∧ Pinned Y w' n fd c')
      (copyRange src fd srcOffset dstOffset size what) w := by
  refine Meets.seq (copyRest_pinned h htemp (Nat.le_refl size) hfits)
    fun _ w₁ hgot => ?_
  obtain ⟨h₁, c', hc', hp'⟩ := hgot
  refine (Keeps.orOs (Keeps.ask rfl)).seq fun _ w₂ h₂ => ?_
  refine (fadviseDontneed_keeps _ _ _).seq fun _ w₃ h₃ => ?_
  refine (fadviseDontneed_keeps _ _ _).gives fun _ w₄ h₄ => ?_
  have hrest : Y.Rests w₁ w₄ := (h₂.trans h₃).trans h₄
  exact ⟨h₁.trans (hrest.mono fun _ _ => trivial), c', hc', hp'.rests hrest⟩

theorem copyEach_pinned {src : Fd} {shards : List Shard} (h : Pinned Y w n fd c)
    (htemp : TempOf (Y.pid Y.me) n)
    (hfits : ∀ shard ∈ shards, shard.id * shard.size + shard.size ≤ c.length) :
    Y.Gives (fun _ w' => Y.Still IsTable w w' ∧ ∃ c', c'.length = c.length ∧ Pinned Y w' n fd c')
      (copyEach src fd shards) w := by
  induction shards generalizing c w with
  | nil => exact ⟨Still.refl w, c, rfl, h⟩
  | cons shard shards ih =>
    refine Meets.seq (copyRange_pinned h htemp (hfits shard List.mem_cons_self))
      fun _ w₁ hgot => ?_
    obtain ⟨h₁, c₁, hc₁, hp₁⟩ := hgot
    refine (ih hp₁ fun s hs => ?_).mono (fun _ w' hgot => ?_) fun _ _ e => e
    · rw [hc₁]
      exact hfits s (List.mem_cons_of_mem _ hs)
    · obtain ⟨h', c', hc', hp'⟩ := hgot
      exact ⟨h₁.trans h', c', hc'.trans hc₁, hp'⟩

/-- The staged file is whole when the block is over. -/
theorem stageTable_pinned {sha256 : Bytes → Str} {src : Fd} {plan : Plan} {srcBaseline : Snapshot}
    (h : Pinned Y w n fd c) (htemp : TempOf (Y.pid Y.me) n) (hplan : plan.Valid) :
    Y.Gives (fun _ w' => Y.Still IsTable w w' ∧ ∃ c', c'.length = plan.table.size ∧
      sha256 c' = plan.table.sha256 ∧ Pinned Y w' n fd c')
      (stageTable sha256 src fd plan srcBaseline) w := by
  refine Meets.seq (V := fun _ w' => Y.Still IsTable w w' ∧
    ∃ c', c'.length = plan.table.size ∧ Pinned Y w' n fd c') ?_ fun _ w₁ hgot => ?_
  · refine Meets.seq (ftruncate_pinned h htemp) fun _ w₀ hgot => ?_
    obtain ⟨h₀, hp₀⟩ := hgot
    have hsize : (resize 0 c plan.table.size).length = plan.table.size := length_resize
    refine (copyEach_pinned hp₀ htemp fun shard hshard => ?_).mono
      (fun _ w' hgot => ?_) fun _ _ e => e
    · rw [hsize]
      exact hplan.shard_fits ((physicalOrder_perm plan.shards).mem_iff.mp hshard)
    · obtain ⟨h', c', hc', hp'⟩ := hgot
      exact ⟨h₀.trans h', c', hc'.trans hsize, hp'⟩
  · obtain ⟨h₁, c₁, hc₁, hp₁⟩ := hgot
    refine (Keeps.orOs (Keeps.ask rfl)).seq fun _ w₂ h₂ => ?_
    refine (fadviseDontneed_keeps _ _ _).seq fun _ w₃ h₃ => ?_
    have h₁₃ : Y.Rests w₁ w₃ := h₂.trans h₃
    refine Meets.seq (hashFdRange_pinned (hp₁.rests h₁₃) hc₁.symm) fun staged w₄ hgot => ?_
    obtain ⟨h₄, hstaged⟩ := hgot
    rw [hstaged]
    by_cases hsha : sha256 c₁ = plan.table.sha256
    · simp only [hsha, decide_true, Prog.require, if_true]
      refine (fstat_keeps _).seq fun st w₅ h₅ => ?_
      refine (Keeps.require _ _).seq fun _ w₆ h₆ => ?_
      refine (Keeps.orOs (Keeps.ask rfl)).gives fun _ w₇ h₇ => ?_
      have hrest : Y.Rests w₁ w₇ := (((h₁₃.trans h₄).trans h₅).trans h₆).trans h₇
      exact ⟨h₁.trans (hrest.mono fun _ _ => trivial), c₁, hc₁, hsha, hp₁.rests hrest⟩
    · simp only [hsha, decide_false, Prog.require, Bool.false_eq_true, if_false]
      trivial

/-! ## Moving a file into place -/

/-- A block that cleans up where it raises. -/
theorem onRaise_gives {V : α → Cache ι → Prop} {x : CacheM α} {fin : CacheM Unit}
    (hx : Y.Gives V x w) (hfin : ∀ v, Y.Gives (fun _ _ => True) fin v) :
    Y.Gives V (onRaise x fin) w :=
  Meets.handle (hx.mono (fun _ _ hv => hv) fun _ v _ => Meets.seq (hfin v) fun _ _ _ => trivial)

theorem catchOs_gives {V : α → Cache ι → Prop} {what : Str} {x : CacheM α} (hx : Y.Gives V x w) :
    Y.Gives V (catchOs what x) w :=
  catchOs_spec (E := fun _ => True) hx

/-- A new file under a temporary name of one's own. -/
theorem openTemp_gives {d : Fd} (hd : w.own d = some (.dir Y.root))
    (htemp : TempOf (Y.pid Y.me) n) :
    Y.Gives (fun fd w' => w.own fd = none ∧ Y.Still IsTable w w' ∧ Pinned Y w' n fd [])
      (orOs (ask (.openTemp d n))) w := by
  refine Meets.orOs (ask_spec fun u a w' hu hown hm => ?_)
  cases a with
  | error e =>
    obtain rfl : w' = u := hm
    exact ⟨Acts.refl _ _, trivial⟩
  | ok fd =>
    obtain ⟨p, hp, hm⟩ := hm
    rw [hown, hd] at hp
    obtain rfl := Handle.dir.inj (Option.some.inj hp)
    rw [if_pos rfl] at hm
    obtain ⟨id, ho, hc⟩ := hm
    have hkeep : Keep Y.pid Y.calm Y.me IsTable u.shared w'.shared :=
      hc.keep fun h => h.1.head_ne htemp.head
    refine ⟨hc.acts (.inr htemp), hu.none ho.1,
      (hu.mono fun _ _ => trivial).trans (still_of_opens ho hkeep), .inl htemp, ?_⟩
    obtain ⟨f, hfiles, hempty, -⟩ := hc.file
    refine ⟨id, f, ?_, ?_, ?_, hempty⟩
    · rw [ho.2, Function.update_self]
    · rw [hc.names, Function.update_self]
    · rw [hfiles, Function.update_self]

/-- A temporary file of one's own may go whenever one likes. -/
theorem unlink_gives {d : Fd} (htemp : TempOf (Y.pid Y.me) n) :
    Y.Gives (fun _ w' => Y.Still (fun _ => False) w w') (suppress (ask (.unlink d n))) w := by
  refine Meets.suppress (ask_spec fun u a w' hu _ hm => ?_)
  have hu' : Y.Still (fun _ => False) w u := hu.mono fun _ h => h.elim
  cases a with
  | error e =>
    obtain rfl : w' = u := hm
    exact ⟨Acts.refl _ _, hu'⟩
  | ok _ =>
    obtain ⟨p, -, hm⟩ := hm
    by_cases hroot : p = Y.root
    · rw [if_pos hroot] at hm
      obtain ⟨hown, hr⟩ := hm
      have hacts : Acts Y.pid Y.me Y.publish u.shared w'.shared := by
        refine ⟨hr.history, fun m => ?_, fun id f hf => ?_, fun id => .inl (by rw [hr.locked])⟩
        · rw [hr.names]
          by_cases hmn : m = n
          · subst hmn
            exact .inr (.inl ⟨htemp, fun id hid => by rw [Function.update_self] at hid; cases hid⟩)
          · exact .inl (Function.update_of_ne hmn _ _)
        · obtain ⟨f', hf', hc⟩ := hr.content hf
          exact ⟨f', hf', .inl hc⟩
      refine ⟨hacts, hu'.trans ⟨fun fd hd hfd => by rw [hown]; exact hfd, hr.history,
        fun t id ht => ?_, fun id hl => ?_, fun _ h => h.elim, fun _ => hacts.settled⟩⟩
      · rw [hr.names, Function.update_of_ne htemp.ne_lock]
        exact ht
      · rw [hr.locked]
        exact hl
    · rw [if_neg hroot] at hm
      subst hm
      exact ⟨Acts.refl _ _, hu'⟩

/-- A whole file is moved to a name that one may publish under. -/
theorem replace_gives {d : Fd} {target : Str} (hd : w.own d = some (.dir Y.root))
    (htemp : TempOf (Y.pid Y.me) n) (hc : Contains w.shared n c)
    (hmay : IsTable target ∧ HoldsLock Y.me w.shared target ∨ target = receiptName)
    (hpublish : ∀ v', History w.shared v' → Y.publish target c v') :
    Y.Gives (fun _ w' => Y.Still (fun _ => False) w w' ∧ Contains w'.shared target c)
      (orOs (ask (.replace d n target))) w := by
  refine Meets.orOs (ask_spec fun u a w' hu hown hm => ?_)
  have hu' : Y.Still (fun _ => False) w u := hu.mono fun _ h => h.elim
  cases a with
  | error e =>
    obtain rfl : w' = u := hm
    exact ⟨Acts.refl _ _, trivial⟩
  | ok _ =>
    obtain ⟨p, hp, hm⟩ := hm
    rw [hown, hd] at hp
    obtain rfl := Handle.dir.inj (Option.some.inj hp)
    rw [if_pos rfl] at hm
    obtain ⟨hown', id, hid, hr⟩ := hm
    obtain ⟨id', f, hn, hf, rfl⟩ := hc.same (hu.keep.same n trivial (.inl htemp))
    obtain rfl := Option.some.inj (hid.symm.trans hn)
    obtain ⟨f', hf', hcontent⟩ := hr.content hf
    have hname : w'.shared.names target = some id := by
      rw [hr.names, Function.update_self]
    have hlock : ∀ t, lockName t ≠ target := by
      intro t ht
      rcases hmay with ⟨htable, -⟩ | hreceipt
      · exact htable.head_ne (ht ▸ head_lockName t)
      · exact receiptName_head (hreceipt ▸ ht ▸ head_lockName t)
    have hacts : Acts Y.pid Y.me Y.publish u.shared w'.shared := by
      refine ⟨hr.history, fun m => ?_, fun id f hf => ?_, fun id => .inl (by rw [hr.locked])⟩
      · by_cases hmt : m = target
        · subst hmt
          refine .inr (.inr (.inr ⟨hmay.imp_left fun h => ⟨h.1, h.2.keep hu.keep⟩, id, f', hname,
            hf', ?_⟩))
          rw [hcontent]
          exact hpublish _ (hu.keep.history.trans hr.history)
        · by_cases hmn : m = n
          · subst hmn
            refine .inr (.inl ⟨htemp, fun id' hid' => ?_⟩)
            rw [hr.names, Function.update_of_ne hmt, Function.update_self] at hid'
            cases hid'
          · refine .inl ?_
            rw [hr.names, Function.update_of_ne hmt, Function.update_of_ne hmn]
      · obtain ⟨g, hg, hgc⟩ := hr.content hf
        exact ⟨g, hg, .inl hgc⟩
    refine ⟨hacts, ?_, ?_⟩
    · refine hu'.trans ⟨fun fd hd hfd => by rw [hown']; exact hfd, hr.history, fun t id ht => ?_,
        fun id hl => ?_, fun _ h => h.elim, fun _ => hacts.settled⟩
      · rw [hr.names, Function.update_of_ne (hlock t), Function.update_of_ne htemp.ne_lock]
        exact ht
      · rw [hr.locked]
        exact hl
    · exact ⟨id, f', hname, hf', hcontent⟩

omit [DecidableEq ι] in
/-- What a file under a temporary name holds, when the descriptor is closed. -/
theorem Pinned.closed {w₀ : Cache ι} (h : Pinned Y w n fd c) (hfresh : w₀.own fd = none)
    (hstill : Y.Still IsTable w₀ w) (hc : Closed Y fd w w') :
    Y.Still IsTable w₀ w' ∧ Contains w'.shared n c :=
  ⟨hc.still hstill hfresh, h.contains.same (hc.keep.same n trivial h.safe)⟩

/-- The close of a descriptor whose file is pinned. -/
theorem close_pinned {w₀ : Cache ι} (h : Pinned Y w n fd c) (hfresh : w₀.own fd = none)
    (hstill : Y.Still IsTable w₀ w) :
    Y.Gives (fun _ w' => Y.Still IsTable w₀ w' ∧ Contains w'.shared n c)
      (orOs (ask (.close fd))) w := by
  refine close_spec (fun id heq => ?_) (fun w' hc => h.closed hfresh hstill hc) fun _ _ _ => trivial
  obtain ⟨id', f, ho, -⟩ := h.file
  rw [ho] at heq
  cases heq

/-! ## The table -/

/-- What is published under the name of the table has the size and the hash of the plan. -/
theorem materialize_gives {sha256 : Bytes → Str} {d src : Fd} {plan : Plan}
    {srcBaseline : Snapshot} (hd : w.own d = some (.dir Y.root)) (htable : IsTable plan.table.name)
    (hlock : HoldsLock Y.me w.shared plan.table.name) (hplan : plan.Valid)
    (hpublish : ∀ c v', c.length = plan.table.size → sha256 c = plan.table.sha256 →
      Y.publish plan.table.name c v') :
    Y.Gives (fun copied w' => copied = plan.table.size ∧ Y.Still (fun _ => False) w w' ∧
      ∃ c, c.length = plan.table.size ∧ sha256 c = plan.table.sha256 ∧
        Contains w'.shared plan.table.name c) (materialize sha256 d src plan srcBaseline) w := by
  refine (preflightSpace_keeps d plan.table.size).seq fun _ w₁ h₁ => ?_
  refine Meets.seq (V := fun suffix v => Y.Rests w v ∧
    TempOf (Y.pid Y.me) (str "." ++ plan.table.name ++ str ".tmp-" ++ suffix))
    (ask_quiet rfl fun u a hu _ hm => ?_) fun suffix w₂ hgot => ?_
  · obtain ⟨-, hex, hhex, ha⟩ := hm
    exact ⟨h₁.trans hu, plan.table.name, hex, hhex, by rw [ha]⟩
  obtain ⟨h₂, htemp⟩ := hgot
  generalize str "." ++ plan.table.name ++ str ".tmp-" ++ suffix = n at htemp ⊢
  refine Meets.seq (openTemp_gives (h₂.own d _ hd) htemp) fun tmpFd w₃ hgot => ?_
  obtain ⟨hfresh, h₃, hp₃⟩ := hgot
  refine catchOs_gives (Meets.seq (V := fun _ v => Y.Still IsTable w₂ v ∧
    ∃ c, c.length = plan.table.size ∧ sha256 c = plan.table.sha256 ∧ Contains v.shared n c)
    (onRaise_gives ?_ fun v => ?_) fun _ w₄ hgot => ?_)
  · refine Meets.seq (stageTable_pinned hp₃ htemp hplan) fun _ w₄ hgot => ?_
    obtain ⟨h₄, c, hsize, hsha, hp₄⟩ := hgot
    exact (close_pinned hp₄ hfresh (h₃.trans h₄)).mono
      (fun _ v hv => ⟨hv.1, c, hsize, hsha, hv.2⟩) fun _ _ e => e
  · refine Meets.seq (close_gives (V := fun _ _ => True) fun _ => trivial) fun _ v' _ => ?_
    exact (unlink_gives htemp).mono (fun _ _ _ => trivial) fun _ _ e => e
  · obtain ⟨h₄, c, hsize, hsha, hc⟩ := hgot
    have h₀ : Y.Still IsTable w w₄ := (h₂.mono fun _ _ => trivial).trans h₄
    refine Meets.seq (onRaise_gives (replace_gives (h₀.own d _ hd) htemp hc
      (.inl ⟨htable, hlock.keep h₀.keep⟩) fun v' _ => hpublish c v' hsize hsha) fun v => ?_)
      fun _ w₅ hgot => ?_
    · exact (unlink_gives htemp).mono (fun _ _ _ => trivial) fun _ _ e => e
    · obtain ⟨h₅, hc₅⟩ := hgot
      have h₀₅ : Y.Still (fun _ => False) w w₅ := (h₀.mono fun _ h => h.elim).trans h₅
      refine (Keeps.orOs (Keeps.ask rfl)).seq fun _ w₆ h₆ => ?_
      refine ⟨rfl, h₀₅.trans (h₆.mono fun _ _ => trivial), c, hsize, hsha, ?_⟩
      exact hc₅.same (h₆.keep.same _ trivial (.inr ⟨htable, hlock.keep h₀₅.keep⟩))

/-! ## The receipt -/

theorem writeReceiptFile_pinned {w₀ : Cache ι} {payload : Bytes} (h : Pinned Y w n fd [])
    (htemp : TempOf (Y.pid Y.me) n) (hfresh : w₀.own fd = none) (hstill : Y.Still IsTable w₀ w) :
    Y.Gives (fun _ w' => Y.Still IsTable w₀ w' ∧ Contains w'.shared n payload)
      (writeReceiptFile fd payload) w := by
  refine Meets.seq (pwriteAll_pinned h htemp (Nat.zero_le _)) fun _ w₁ hgot => ?_
  obtain ⟨h₁, hp₁⟩ := hgot
  refine (Keeps.orOs (Keeps.ask rfl)).seq fun _ w₂ h₂ => ?_
  have hwhole : overwrite 0 [] payload 0 = payload := by simp [overwrite]
  rw [hwhole] at hp₁
  exact close_pinned (hp₁.rests h₂) hfresh ((hstill.trans h₁).trans (h₂.mono fun _ _ => trivial))

/-- The receipt that is published attests a table whose stat was seen. -/
theorem finalizeReceipt_gives {reader : Reader} {sha256 : Bytes → Str} {d : Fd} {plan : Value}
    {p : Plan} {sourceStat : Snapshot} {st : Stat} (hreader : reader.ReadsBack)
    (hd : w.own d = some (.dir Y.root)) (hsource : sourceStat.Small) (hsmall : st.snapshot.Small)
    (hstamp : Stamp w.shared st.snapshot c) (hsize : c.length = p.table.size)
    (hsha : sha256 c = p.table.sha256)
    (hpublish : ∀ raw v', Attests reader sha256 plan p v' raw → Y.publish receiptName raw v') :
    Y.Gives (fun raw w' => Y.Still (fun _ => False) w w' ∧
      Attests reader sha256 plan p w'.shared raw)
      (finalizeReceipt reader sha256 d plan p sourceStat st) w := by
  refine orFail_seq fun r hr => ?_
  obtain ⟨planHash, hhash, hreceipt, hchecked⟩ := receiptToWrite_ok hr
  have hread : readReceipt reader r.payload = .ok r := by
    refine readReceipt_payload hreader hchecked ?_
    rw [hreceipt]
    exact ⟨hsource, hsmall⟩
  have hattests : ∀ v', History w.shared v' → Attests reader sha256 plan p v' r.payload := by
    intro v' hv'
    refine ⟨r, planHash, hread, hhash, ?_, c, ?_, ?_, ?_⟩
    · rw [hreceipt]
      exact receiptOf_matches p planHash sourceStat st.snapshot
    · rw [hreceipt]
      exact hstamp.history hv'
    · rw [hreceipt]
      exact hsize
    · rw [hreceipt]
      exact hsha
  refine Meets.seq (V := fun suffix v => Y.Rests w v ∧
    TempOf (Y.pid Y.me) (str "." ++ receiptName ++ str ".tmp-" ++ suffix))
    (ask_quiet rfl fun u a hu _ hm => ?_) fun suffix w₁ hgot => ?_
  · obtain ⟨-, hex, hhex, ha⟩ := hm
    exact ⟨hu, receiptName, hex, hhex, by rw [ha]⟩
  obtain ⟨h₁, htemp⟩ := hgot
  generalize str "." ++ receiptName ++ str ".tmp-" ++ suffix = n at htemp ⊢
  refine Meets.seq (openTemp_gives (h₁.own d _ hd) htemp) fun tmpFd w₂ hgot => ?_
  obtain ⟨hfresh, h₂, hp₂⟩ := hgot
  have hblock : Y.Gives (fun raw w' => Y.Still (fun _ => False) w w' ∧
      Attests reader sha256 plan p w'.shared raw)
      (catchOs (str "receipt finalization failed: ") do
        onRaise (writeReceiptFile tmpFd r.payload) (suppress (ask (.close tmpFd)))
        orOs (ask (.replace d n receiptName))
        orOs (ask (.fsync d))
        return r.payload) w₂ := by
    refine catchOs_gives (Meets.seq (onRaise_gives (writeReceiptFile_pinned hp₂ htemp hfresh h₂)
      fun v => close_gives fun _ => trivial) fun _ w₃ hgot => ?_)
    obtain ⟨h₃, hc₃⟩ := hgot
    have h₀ : Y.Still IsTable w w₃ := (h₁.mono fun _ _ => trivial).trans h₃
    refine Meets.seq (replace_gives (h₀.own d _ hd) htemp hc₃ (.inr rfl) fun v' hv' => ?_)
      fun _ w₄ hgot => ?_
    · exact hpublish _ v' (hattests v' (h₀.keep.history.trans hv'))
    · obtain ⟨h₄, _⟩ := hgot
      refine (Keeps.orOs (Keeps.ask rfl)).seq fun _ w₅ h₅ => ?_
      have hall : Y.Still (fun _ => False) w w₅ :=
        ((h₀.mono fun _ h => h.elim).trans h₄).trans (h₅.mono fun _ _ => trivial)
      exact ⟨hall, hattests _ hall.keep.history⟩
  refine Meets.finally_ (hblock.mono (fun raw v hgot => ?_) fun e v _ => ?_)
  · obtain ⟨hv, hraw⟩ := hgot
    exact (unlink_gives htemp).mono (fun _ v' hv' =>
      ⟨hv.trans hv', hraw.history hv'.keep.history⟩) fun _ _ _ => trivial
  · exact (unlink_gives htemp).mono (fun _ _ _ => trivial) fun _ _ _ => trivial

end Party

end Ple
end FlashNext
