import FlashNext.Ple.Prepared

/-!
# An opened table

`openPreparedTable` hands out a file that has the stat of the receipt, and the receipt has the
digest that was asked for (`openPreparedTable_gives`).
-/

namespace FlashNext
namespace Ple

open Effect
open Py (Str Value str)
open Text (Bytes)

section

variable {ι : Type} {reader : Reader} {sha256 : Bytes → Str} {v v' : Volume ι}

/-- A name and a temporary name are never those of one file. -/
theorem Volume.settled {n : Str} {id : FileId} (hn : n.head? ≠ some 46)
    (hid : v.names n = some id) : Settled v id := by
  intro p m hm hmid
  have heq : n = m := v.alone hm hmid hid
  exact hn (heq ▸ hm.head)

theorem checkAttested_ok {args : OpenArgs} {expected : Str} {shape : Nat × Nat} {raw : Bytes}
    {r : Receipt} (h : checkAttested reader sha256 args expected shape raw = .ok r) :
    sha256 raw = expected ∧ readReceipt reader raw = .ok r ∧
      (r.table.rows, r.table.width) = shape ∧ IsTable r.table.name := by
  simp only [checkAttested, bind_ok, reject_ok, pure_ok, decide_eq_false_iff_not, not_not] at h
  obtain ⟨_, hsha, r', hread, _, hshape, _, -, _, hname, rfl⟩ := h
  exact ⟨hsha, hread, hshape, _, _, _, hname⟩

theorem validateOpenArgs_ok {interp : Interp} {shape dtype tag : Value} {s : Nat × Nat}
    (h : validateOpenArgs interp shape dtype tag = .ok s) : asShape? shape = some s := by
  simp only [validateOpenArgs, bind_ok, orRaise_ok, pure_ok] at h
  obtain ⟨s', hs, _, -, _, -, _, -, rfl⟩ := h
  exact hs

end

namespace Party

variable {ι : Type} {Y : Party ι} {P : Str → Prop} {w w' : Cache ι} {fd : Fd} {c : Bytes}
  {reader : Reader} {sha256 : Bytes → Str}

/-- An open file has these bytes and keeps them, where nobody writes to what is settled. -/
def Shows (Y : Party ι) (w : Cache ι) (fd : Fd) (c : Bytes) : Prop :=
  ∃ id, w.own fd = some (.file id) ∧
    (Y.calm → Settled w.shared id ∧ ∃ f, w.shared.files id = some f ∧ f.content = c)

theorem Shows.moves (h : Shows Y w fd c) (ho : w'.own fd = w.own fd)
    (hk : Keep Y.pid Y.calm Y.me P w.shared w'.shared) : Shows Y w' fd c := by
  obtain ⟨id, hfd, hc⟩ := h
  refine ⟨id, ho.trans hfd, fun hcalm => ?_⟩
  obtain ⟨hs, f, hf, rfl⟩ := hc hcalm
  exact hk.settled hcalm id f hf hs

theorem Shows.still (h : Shows Y w fd c) (hs : Y.Still P w w') : Shows Y w' fd c := by
  obtain ⟨id, hfd, hc⟩ := h
  exact Shows.moves ⟨id, hfd, hc⟩ ((hs.own fd _ hfd).trans hfd.symm) hs.keep

/-- What an opening answers with: the receipt has the digest that was asked for, and the file that
is open had the stat that is in it. -/
def Served (Y : Party ι) (reader : Reader) (sha256 : Bytes → Str) (args : OpenArgs)
    (w : Cache ι) (fd : Fd) : Prop :=
  ∃ raw r c, args.expectedSha256 = .str (sha256 raw) ∧ readReceipt reader raw = .ok r ∧
    asShape? args.shape = some (r.table.rows, r.table.width) ∧
    Stamp w.shared r.tableStat c ∧ Shows Y w fd c

theorem Served.moves {args : OpenArgs} (h : Served Y reader sha256 args w fd)
    (ho : w'.own fd = w.own fd) (hk : Keep Y.pid Y.calm Y.me P w.shared w'.shared) :
    Served Y reader sha256 args w' fd := by
  obtain ⟨raw, r, c, hexpected, hread, hshape, hstamp, hshows⟩ := h
  exact ⟨raw, r, c, hexpected, hread, hshape, hstamp.history hk.history, hshows.moves ho hk⟩

variable [DecidableEq ι]

/-- The stat of an open file stands for the bytes that it has. -/
theorem statLeaf_shows {id : FileId} {what : Str} (ho : w.own fd = some (.file id))
    (hs : Y.calm → Settled w.shared id ∧ ∃ f, w.shared.files id = some f) :
    Y.Gives (fun st w' => Y.Rests w w' ∧ ∃ c, Stamp w'.shared st.snapshot c ∧ Shows Y w' fd c)
      (statLeaf fd what) w := by
  refine Meets.seq (V := fun st w' => Y.Rests w w' ∧ ∃ c, Stamp w'.shared st.snapshot c ∧
    Shows Y w' fd c) (Meets.orOs (ask_quiet rfl fun u a hu _ hm => ?_)) fun st v hgot => ?_
  · cases a with
    | error e => trivial
    | ok st =>
      have hou := hu.own fd _ ho
      obtain ⟨f, hf, rfl⟩ := (hm.2 st rfl).2 id (by rw [fileAt, hou]; rfl)
      refine ⟨hu, f.content, u.shared.stamp hf, id, hou, fun hcalm => ?_⟩
      obtain ⟨hsettled, g, hg⟩ := hs hcalm
      exact ⟨(hu.keep.settled hcalm id g hg hsettled).1, f, hf, rfl⟩
  · obtain ⟨hv, c, hc⟩ := hgot
    refine orFail_seq fun _ _ => ?_
    refine (requireOwnedMode_keeps st what).seq fun _ v' hv' => ?_
    exact ⟨hv.trans hv', c, hc.1.history hv'.keep.history, hc.2.still hv'⟩

theorem openAttested_gives {d : Fd} {r : Receipt} (hd : w.own d = some (.dir Y.root))
    (htable : IsTable r.table.name) :
    Y.Gives (fun fd w' => w.own fd = none ∧ Y.Rests w w' ∧
      ∃ c, Stamp w'.shared r.tableStat c ∧ Shows Y w' fd c) (openAttested d r) w := by
  refine Meets.seq (openExisting_gives _ _ _) fun o w₁ h₁ => ?_
  cases o with
  | none => trivial
  | some fd =>
    have ho : LeafOpened Y w d r.table.name fd w₁ := h₁
    obtain ⟨id, hfd, hid⟩ := ho.cached hd
    refine Meets.seq (V := fun _ w' => Y.Rests w₁ w' ∧ ∃ c, Stamp w'.shared r.tableStat c ∧
      Shows Y w' fd c) (Meets.handle ?_) fun _ w₂ h₂ => ⟨ho.fresh, ho.still.trans h₂.1, h₂.2⟩
    have hblock : Y.Gives (fun (_ : Unit) w' => Y.Rests w₁ w' ∧
        ∃ c, Stamp w'.shared r.tableStat c ∧ Shows Y w' fd c)
        (do
          let st ← statLeaf fd (str "prepared table")
          orFail (reject (st.snapshot ≠ r.tableStat)
            (str "prepared table stat does not match receipt (stale)"))) w₁ := by
      refine Meets.seq (statLeaf_shows hfd fun _ =>
        ⟨w₁.shared.settled htable.head_ne hid, w₁.shared.bound hid⟩) fun st v hgot => ?_
      obtain ⟨hv, c, hstamp, hc⟩ := hgot
      refine Meets.ofExcept (fun _ hok => ?_) fun _ _ => trivial
      by_cases hsame : st.snapshot = r.tableStat
      · exact ⟨hv, c, hsame ▸ hstamp, hc⟩
      · rw [reject, if_pos (by simp [hsame])] at hok
        cases hok
    refine hblock.mono (fun _ _ h => h) fun e v _ => ?_
    exact Meets.seq (V := fun _ _ => True) (close_history.mono (fun _ _ _ => trivial)
      fun _ _ _ => trivial) fun _ _ _ => trivial

/-- An opening that returns hands out a file with the stat of the receipt. -/
theorem openPreparedTable_gives {args : OpenArgs}
    (hroot : ∀ parts, pathComponents args.tableDir (str "table_dir") = .ok parts →
      parts = Y.root) :
    Y.Gives (fun fd w' => Served Y reader sha256 args w' fd)
      (openPreparedTable reader sha256 args) w := by
  refine orFail_seq fun expected hexpected => ?_
  have hargs : args.expectedSha256 = .str expected := (checkHash_ok.mp hexpected).1
  refine Meets.seq (resolveAnchored_gives _ _) fun _ w₁ hgot => ?_
  obtain ⟨_, _⟩ := hgot
  refine Meets.seq (resolveAnchored_gives _ _) fun tableDir w₂ hgot => ?_
  obtain ⟨hdir, _⟩ := hgot
  subst hdir
  refine orFail_seq fun _ _ => orFail_seq fun shape hshape => ?_
  refine Meets.seq (openDir_gives fun _ _ h => by cases h) fun receiptDirFd w₃ _ => ?_
  refine Meets.seq (V := fun _ _ => True) (finally_history (V := fun _ _ => True)
    (fun _ _ _ _ _ => trivial) (Meets.seq (openLeaf_gives _ _ _) fun fd w₄ _ => ?_))
    fun raw w₅ _ => ?_
  · exact finally_history (V := fun _ _ => True) (fun _ _ _ _ _ => trivial)
      ((readAttested_keeps fd).gives fun _ _ _ => trivial)
  · refine orFail_seq fun r hr => ?_
    obtain ⟨hsha, hread, hgeometry, htable⟩ := checkAttested_ok hr
    refine Meets.seq (openDir_gives fun _ _ h => by cases h)
      fun tableDirFd w₆ hgot => ?_
    obtain ⟨parts, hparts, h₆⟩ := hgot
    obtain rfl := hroot parts hparts
    refine finally_close ?_
    refine (checkCacheRoot_keeps _ _).seq fun _ w₇ h₇ => ?_
    have hd := h₇.own _ _ h₆.own
    refine (openAttested_gives hd htable).mono (fun fd v hgot => ?_) fun _ _ e => e
    obtain ⟨hfresh, hv, c, hstamp, hshows⟩ := hgot
    refine ⟨fun id heq => ?_, fun v' hc => ?_⟩
    · rw [hv.own _ _ hd] at heq
      cases heq
    · have hne : fd ≠ tableDirFd := by
        rintro rfl
        rw [hd] at hfresh
        cases hfresh
      have hserved : Served Y reader sha256 args v fd := by
        refine ⟨raw, r, c, hsha ▸ hargs, hread, ?_, hstamp, hshows⟩
        rw [hgeometry]
        exact validateOpenArgs_ok hshape
      exact hserved.moves (hc.own fd hne) hc.keep

end Party

end Ple
end FlashNext
