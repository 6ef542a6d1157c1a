import FlashNext.Ple.Again

/-!
# Every interleaving

In every interleaving of preparations and openings, whoever is killed meanwhile, a table moves only
under its lock (`table_moves`), what is published is whole (`table_whole`, `receipt_whole`), and a
table that is opened with the digest of a preparation has the bytes of its plan (`opened_bytes`).
From a directory with a whole table every process that is asked for it can get it (`all_answered`).
-/

namespace FlashNext
namespace Ple

open Effect
open Py (Str Value str)
open Text (Bytes)

namespace Site

variable {ι : Type} [DecidableEq ι] {S : Site ι} {i j : ι} {s s' : State ι}
  {t : Turn ι Request} {n : Str}

/-- A table moves only at a call of the one process that holds its lock. -/
theorem table_moves (hn : IsTable n) (h : S.Reached s) (ht : t ≠ .outside)
    (hs : S.pool.step s t s') :
    SameAt n s.shared s'.shared ∨
      ∃ i, t = .call i ∧ HoldsLock i s.shared n ∧ ∀ j, HoldsLock j s.shared n → j = i := by
  rcases step_cases h hs with hsame | ⟨i, q, rfl, -, hacts⟩ | ⟨i, -, hstop⟩ | ⟨hout, -⟩
  · rw [hsame]
    exact .inl (SameAt.refl n s.shared)
  · rcases acts_sameAt hn.head_ne hacts with hsame | ⟨⟨-, hlock⟩ | hreceipt, -⟩
    · exact .inl hsame
    · exact .inr ⟨i, rfl, hlock, fun j hj => hj.unique hlock⟩
    · exact absurd hreceipt hn.ne_receipt
  · rw [hstop]
    exact .inl release_sameAt
  · exact absurd hout ht

/-- The process that has prepared the table ends. -/
theorem table_moves_directory : ∃ s s' : State Bool, directorySite.Reached s ∧
    directorySite.pool.step s (.stop true) s' ∧
    (SameAt samplePlanOf.table.name s.shared s'.shared ∨ ∃ i, (.stop true : Turn Bool Request) = .call i ∧
      HoldsLock i s.shared samplePlanOf.table.name ∧
      ∀ j, HoldsLock j s.shared samplePlanOf.table.name → j = i) := by
  obtain ⟨s, s₁, s₂, res, fd, l, l', hs, hl, hm, -⟩ := directory_runs
  have hreached : directorySite.Reached s₁ := System.Reaches.leads (.start hs) hl
  have hstep : directorySite.pool.step s₁ (.stop true)
      ⟨s₁.shared.release true, Function.update s₁.member true none⟩ := ⟨⟨_, hm⟩, rfl, rfl⟩
  exact ⟨s₁, _, hreached, hstep, table_moves (validatePlan_isTable validatePlan_directory) hreached
    (by intro h; cases h) hstep⟩

/-- In every state the table is the one that was there at the start, or it is whole: it has the
size and the hash of a plan that was asked for. -/
theorem table_whole [Nonempty ι] (hn : IsTable n) (hkeep : ∀ v v', S.outside v v' → SameAt n v v')
    (h : S.Reached s) :
    (∃ v, S.start v ∧ SameAt n v s.shared) ∨
      ∃ modelRoot cacheDir plan p c, S.asked (.prepare modelRoot cacheDir plan) ∧
        validatePlan S.reader.toInterp plan = .ok p ∧ p.table.name = n ∧
        Contains s.shared n c ∧ c.length = p.table.size ∧ S.sha256 c = p.table.sha256 := by
  rcases standing hn.head_ne hkeep h with hstart | ⟨q, c, hq, hc, hpublish⟩
  · exact .inl hstart
  · cases q with
    | serve args => exact hpublish.elim
    | prepare modelRoot cacheDir plan =>
      obtain ⟨p, hp, ⟨hname, hsize, hsha⟩ | ⟨hreceipt, -⟩⟩ := hpublish
      · exact .inr ⟨modelRoot, cacheDir, plan, p, c, hq, hp, hname.symm, hc, hsize, hsha⟩
      · exact absurd hreceipt hn.ne_receipt

theorem table_whole_directory : ∃ s : State Bool, directorySite.Reached s ∧
    ((∃ v, directorySite.start v ∧ SameAt samplePlanOf.table.name v s.shared) ∨
      ∃ modelRoot cacheDir plan p c, directorySite.asked (.prepare modelRoot cacheDir plan) ∧
        validatePlan directorySite.reader.toInterp plan = .ok p ∧
        p.table.name = samplePlanOf.table.name ∧ Contains s.shared samplePlanOf.table.name c ∧
        c.length = p.table.size ∧ directorySite.sha256 c = p.table.sha256) := by
  obtain ⟨s, s₁, s₂, res, fd, l, l', hs, hl, hm, -⟩ := directory_runs
  have hreached : directorySite.Reached s₁ := System.Reaches.leads (.start hs) hl
  exact ⟨s₁, hreached, table_whole (validatePlan_isTable validatePlan_directory)
    (fun v v' h => h ▸ SameAt.refl _ v') hreached⟩

/-- In every state `prepared.json` is the one that was there at the start, or it is a receipt for
a plan that was asked for and attests a table of that plan. -/
theorem receipt_whole [Nonempty ι] (hkeep : ∀ v v', S.outside v v' → SameAt receiptName v v')
    (h : S.Reached s) :
    (∃ v, S.start v ∧ SameAt receiptName v s.shared) ∨
      ∃ modelRoot cacheDir plan p raw, S.asked (.prepare modelRoot cacheDir plan) ∧
        validatePlan S.reader.toInterp plan = .ok p ∧ Contains s.shared receiptName raw ∧
        Attests S.reader S.sha256 plan p s.shared raw := by
  rcases standing receiptName_head hkeep h with hstart | ⟨q, c, hq, hc, hpublish⟩
  · exact .inl hstart
  · cases q with
    | serve args => exact hpublish.elim
    | prepare modelRoot cacheDir plan =>
      obtain ⟨p, hp, ⟨hname, -⟩ | ⟨-, hattests⟩⟩ := hpublish
      · exact absurd hname.symm (validatePlan_isTable hp).ne_receipt
      · exact .inr ⟨modelRoot, cacheDir, plan, p, c, hq, hp, hc, hattests⟩

theorem receipt_whole_directory : ∃ s : State Bool, directorySite.Reached s ∧
    ((∃ v, directorySite.start v ∧ SameAt receiptName v s.shared) ∨
      ∃ modelRoot cacheDir plan p raw, directorySite.asked (.prepare modelRoot cacheDir plan) ∧
        validatePlan directorySite.reader.toInterp plan = .ok p ∧
        Contains s.shared receiptName raw ∧
        Attests directorySite.reader directorySite.sha256 plan p s.shared raw) := by
  obtain ⟨s, s₁, s₂, res, fd, l, l', hs, hl, hm, -⟩ := directory_runs
  have hreached : directorySite.Reached s₁ := System.Reaches.leads (.start hs) hl
  exact ⟨s₁, hreached, receipt_whole (fun v v' h => h ▸ SameAt.refl _ v') hreached⟩

/-! ## From a preparation to an opening -/

instance : IsPreorder (State ι) fun s s' => History s.shared s'.shared where
  refl s := History.refl s.shared
  trans _ _ _ := History.trans

/-- Nothing that any turn does undoes what holds of the files. -/
theorem leads_history [Nonempty ι] (h : S.Reached s)
    (hl : S.pool.system.Leads S.allowed s s') : History s.shared s'.shared := by
  refine hl.relates (R := fun s s' => History s.shared s'.shared) h fun u t u' hu _ hstep => ?_
  rcases step_cases hu hstep with hsame | ⟨j, q, -, -, hacts⟩ | ⟨j, -, hstop⟩ | ⟨-, hout⟩
  · rw [hsame]
    exact History.refl u.shared
  · exact hacts.history
  · rw [hstop]
    exact History.refl u.shared
  · obtain ⟨j⟩ := ‹Nonempty ι›
    exact (S.outside_rely hout j).history

/-- What a preparation answers with holds from then on. -/
theorem prepared_later [Nonempty ι] {l : Fds} {modelRoot cacheDir : Str} {plan : Value} {a : Answer}
    (h : S.Reached s) (hm : s.member i = some ⟨.prepare modelRoot cacheDir plan, l, .ret a⟩)
    (hl : S.pool.system.Leads S.allowed s s') :
    ∃ r, a = .prepared r ∧ PreparedBy S.reader S.sha256 cacheDir plan s'.shared r := by
  have hanswered := (kept h).value hm
  cases a with
  | opened fd => exact hanswered.elim
  | prepared r => exact ⟨r, rfl, PreparedBy.history hanswered (leads_history h hl)⟩

theorem prepared_later_directory : ∃ s s' : State Bool, directorySite.Reached s ∧
    directorySite.pool.system.Leads directorySite.allowed s s' ∧ ∃ r,
      PreparedBy directorySite.reader directorySite.sha256 (str "/cache") samplePlanOf.document
        s'.shared r := by
  obtain ⟨s, s₁, s₂, res, fd, l, l', hs, hl, hm, -, hl', -⟩ := directory_runs
  have hreached : directorySite.Reached s₁ := System.Reaches.leads (.start hs) hl
  obtain ⟨r, -, hr⟩ := prepared_later hreached hm hl'
  exact ⟨s₁, s₂, hreached, hl', r, hr⟩

/-- A table that is opened with the digest that a preparation answered with has the size and the
hash of its plan, or two receipts have one digest.  Where nobody writes to settled files the open
file has these bytes for good; else a file has them that shows the stat of the receipt. -/
theorem opened_bytes [Nonempty ι] {l l' : Fds} {modelRoot cacheDir : Str} {plan : Value}
    {r : Result} {args : OpenArgs} {a : Answer} (h : S.Reached s)
    (hprepared : s.member i = some ⟨.prepare modelRoot cacheDir plan, l, .ret (.prepared r)⟩)
    (hl : S.pool.system.Leads S.allowed s s')
    (hopened : s'.member j = some ⟨.serve args, l', .ret a⟩)
    (hdigest : args.expectedSha256 = .str r.receiptSha256) :
    (∃ (p : Plan) (fd : Fd) (id : FileId) (raw : Bytes) (receipt : Receipt) (c : Bytes),
      validatePlan S.reader.toInterp plan = .ok p ∧ S.sha256 raw = r.receiptSha256 ∧
      readReceipt S.reader raw = .ok receipt ∧ a = .opened fd ∧ l' fd = some (.file id) ∧
      asShape? args.shape = some (p.table.rows, p.table.width) ∧
      c.length = p.table.size ∧ S.sha256 c = p.table.sha256 ∧
      (∀ id f, s'.shared.files id = some f → f.snapshot = receipt.tableStat → f.content = c) ∧
      (S.calm → ∃ f, s'.shared.files id = some f ∧ f.content = c)) ∨
    ∃ raw raw', raw ≠ raw' ∧ S.sha256 raw = S.sha256 raw' := by
  have hkept : PreparedBy S.reader S.sha256 cacheDir plan s.shared r := (kept h).value hprepared
  obtain ⟨p, hp, hprep⟩ := PreparedBy.history hkept (leads_history h hl)
  obtain ⟨raw, ⟨receipt, planHash, hread, -, hmatch, c, hstamp, hsize, hsha⟩, hraw⟩ := hprep.digest
  have hanswered := (kept (h.leads hl)).value hopened
  cases a with
  | prepared r' => exact hanswered.elim
  | opened fd =>
    obtain ⟨raw', receipt', c', hexpected, hread', hshape, hstamp', id, hfd, hshows⟩ := hanswered
    have hsame : S.sha256 raw' = S.sha256 raw := by
      rw [hdigest, hraw] at hexpected
      exact (Value.str.inj hexpected).symm
    by_cases heq : raw' = raw
    · subst heq
      obtain rfl := Except.ok.inj (hread'.symm.trans hread)
      obtain rfl := hstamp'.unique hstamp
      refine .inl ⟨p, fd, id, raw', receipt', c', hp, hraw.symm, hread, rfl, hfd, ?_, ?_, ?_,
        fun id' f hf hsnap => ?_, fun hcalm => (hshows hcalm).2⟩
      · rw [← hmatch.tableRows, ← hmatch.tableWidth]
        exact hshape
      · rw [← hmatch.tableSize]
        exact hsize
      · rw [← hmatch.tableSha256]
        exact hsha
      · exact Option.some.inj ((s'.shared.known hf).symm.trans (hsnap ▸ hstamp'))
    · exact .inr ⟨raw', raw, heq, hsame⟩

/-- The second process has opened what the first one has prepared. -/
theorem opened_bytes_directory : ∃ (s : State Bool) (fd : Fd) (l : Fds), directorySite.Reached s ∧
    s.member false = some ⟨.serve directoryArgs, l, .ret (.opened fd)⟩ ∧
    ((∃ id f c, l fd = some (.file id) ∧ s.shared.files id = some f ∧ f.content = c ∧
      c.length = 1 ∧ directorySha256 c = samplePlanOf.table.sha256) ∨
      ∃ raw raw', raw ≠ raw' ∧ directorySha256 raw = directorySha256 raw') := by
  obtain ⟨s, s₁, s₂, res, fd, l, l', hs, hl, hm, hdigest, hl', hm'⟩ := directory_runs
  have hreached : directorySite.Reached s₁ := System.Reaches.leads (.start hs) hl
  refine ⟨s₂, fd, l', hreached.leads hl', hm', ?_⟩
  rcases opened_bytes hreached hm hl' hm' (by rw [hdigest]; rfl) with
    ⟨p, fd', id, raw, receipt, c, hp, -, -, hfd, hid, -, hsize, hsha, -, hcalm⟩ | hcollision
  · obtain rfl := Except.ok.inj (validatePlan_directory.symm.trans hp)
    obtain rfl := Answer.opened.inj hfd
    obtain ⟨f, hf, hc⟩ := hcalm trivial
    exact .inl ⟨id, f, c, hid, hf, hc, hsize, hsha⟩
  · exact .inr hcollision

/-! ## From a directory that is ready -/

/-- However many processes are asked for a table that lies there with its receipt, each can run to
its end and finds it, and the directory is what it was. -/
theorem all_answered {src : SourceFile} {modelRoot cacheDir : Str} {plan : Value} {p : Plan}
    {raw : Bytes} {args : OpenArgs} {q : ι → Request} {is : List ι}
    (h : S.Ready src modelRoot cacheDir plan p raw args s.shared) (hnodup : is.Nodup)
    (hidle : ∀ i ∈ is, s.member i = none)
    (hq : ∀ i, q i = .prepare modelRoot cacheDir plan ∨ q i = .serve args) :
    ∃ s', S.pool.system.Leads S.allowed s s' ∧ s'.shared = s.shared ∧
      (∀ i ∈ is, ∃ a l, s'.member i = some ⟨q i, l, .ret a⟩ ∧
        S.Finds cacheDir p raw s'.shared (q i) a l) ∧
      ∀ j, j ∉ is → s'.member j = s.member j := by
  induction is generalizing s with
  | nil => exact ⟨s, .refl, rfl, fun i hi => absurd hi List.not_mem_nil, fun j _ => rfl⟩
  | cons i is ih =>
    obtain ⟨hi, hnodup⟩ := List.nodup_cons.mp hnodup
    obtain ⟨s₁, a, l, hl, hmember, hshared, ha⟩ :=
      leads_answered h (hidle i List.mem_cons_self) (hq i)
    have hother : ∀ j, j ≠ i → s₁.member j = s.member j := fun j hj => by
      rw [hmember, Function.update_of_ne hj]
    obtain ⟨s₂, hl', hshared', hall, hrest⟩ := ih (hshared.symm ▸ h) hnodup fun j hj => by
      rw [hother j (ne_of_mem_of_not_mem hj hi), hidle j (List.mem_cons_of_mem i hj)]
    refine ⟨s₂, hl.trans hl', hshared'.trans hshared, fun j hj => ?_, fun j hj => ?_⟩
    · rcases List.mem_cons.mp hj with rfl | hj
      · refine ⟨a, l, ?_, ?_⟩
        · rw [hrest j hi, hmember, Function.update_self]
        · rw [hshared', hshared]
          exact ha
      · exact hall j hj
    · rw [List.mem_cons, not_or] at hj
      rw [hrest j hj.2, hother j hj.1]

theorem all_answered_directory : ∃ s : State Bool, directorySite.Reached s ∧
    s.shared = directoryVolume Bool ∧
      ∀ b, ∃ a l, s.member b = some ⟨.serve directoryArgs, l, .ret a⟩ ∧
        directorySite.Finds (str "/cache") samplePlanOf sampleReceipt.payload s.shared
          (.serve directoryArgs) a l := by
  let s : State Bool := ⟨directoryVolume Bool, fun _ => none⟩
  have hs : directorySite.pool.system.start s := ⟨rfl, fun _ => rfl⟩
  have hidle : ∀ i ∈ [true, false], s.member i = none := fun _ _ => rfl
  obtain ⟨s', hl, hshared, hall, -⟩ := all_answered (s := s) (q := fun _ => .serve directoryArgs)
    directory_ready (by decide) hidle fun _ => .inr rfl
  refine ⟨s', System.Reaches.leads (.start hs) hl, hshared, fun b => ?_⟩
  exact hall b (by cases b <;> decide)

end Site

/-! ## The receipt and its bytes -/

/-- The receipt that a preparation writes is found again by the next preparation of the plan. -/
theorem written_receipt_found {interp : Interp} {read : Str → Option ℚ} {sha256 : Bytes → Str}
    {plan : Value} {p : Plan} {sourceStat tableStat : Snapshot} {r : Receipt}
    (h : receiptToWrite (jsonReader interp read) sha256 plan p sourceStat tableStat = .ok r)
    (hsource : sourceStat.Small) (htable : tableStat.Small) :
    receiptOfPlan? (jsonReader interp read) sha256 plan p r.payload = some r := by
  obtain ⟨planHash, hhash, hr, hchecked⟩ := receiptToWrite_ok h
  have hsmall : r.Small := by
    rw [hr]
    exact ⟨hsource, htable⟩
  have hmatch : r.Matches p planHash := by
    rw [hr]
    exact receiptOf_matches p planHash sourceStat tableStat
  rw [receiptOfPlan?, readReceipt_payload (jsonReader_readsBack interp read) hchecked hsmall, hhash]
  exact if_pos hmatch

theorem written_receipt_found_sample :
    receiptOfPlan? (jsonReader sampleReader.toInterp fun _ => none) directorySha256
      samplePlanOf.document samplePlanOf sampleReceipt.payload = some sampleReceipt := by
  have hplan : planSha256 (jsonReader sampleReader.toInterp fun _ => none) directorySha256
      samplePlanOf.document = .ok sampleReceipt.planSha256 := planSha256_directory
  have hwritten : receiptToWrite (jsonReader sampleReader.toInterp fun _ => none) directorySha256
      samplePlanOf.document samplePlanOf ⟨1, 2, 153, 3, 4⟩ ⟨1, 5, 1, 3, 4⟩ = .ok sampleReceipt := by
    simp only [receiptToWrite, bind_ok, pure_ok]
    refine ⟨_, hplan, sampleReceipt, ?_, sampleReceipt_eq.symm⟩
    rw [← sampleReceipt_eq]
    exact sampleReceipt_valid
  exact written_receipt_found hwritten sampleReceipt_small.sourceStat sampleReceipt_small.tableStat

end Ple
end FlashNext
