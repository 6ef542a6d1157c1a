import FlashNext.Ple.Looks

/-!
# Files that nobody else touches

A file under a protected name keeps its bytes while a process looks at it (`Pinned`), so what is
hashed of it is what it holds; and of a temporary file the writer knows every byte.  A stat is
the stamp of the bytes that it was seen with (`Stamp`).
-/

namespace FlashNext
namespace Ple

open Effect
open Py (Str Value str)
open Text (Bytes)
open Posix

section

variable {ι : Type} {v v' : Volume ι}

/-- The stat stands for these bytes. -/
def Stamp (v : Volume ι) (s : Snapshot) (c : Bytes) : Prop := v.seen s = some c

theorem Stamp.history {s : Snapshot} {c : Bytes} (h : Stamp v s c) (hv : History v v') :
    Stamp v' s c :=
  hv s c h

theorem Stamp.unique {s : Snapshot} {c c' : Bytes} (h : Stamp v s c) (h' : Stamp v s c') :
    c = c' :=
  Option.some.inj (h.symm.trans h')

/-- The stat of a file stamps its bytes. -/
theorem Volume.stamp {id : FileId} {f : File} (h : v.files id = some f) :
    Stamp v f.snapshot f.content :=
  v.known h

/-- The file under the name has these bytes. -/
def Contains (v : Volume ι) (n : Str) (c : Bytes) : Prop :=
  ∃ id f, v.names n = some id ∧ v.files id = some f ∧ f.content = c

theorem Contains.same {n : Str} {c : Bytes} (h : Contains v n c) (hs : SameAt n v v') :
    Contains v' n c := by
  obtain ⟨id, f, hn, hf, hc⟩ := h
  obtain ⟨f', hf', hc'⟩ := hs.content id f hn hf
  exact ⟨id, f', hs.name.trans hn, hf', hc'.trans hc⟩

end

namespace Party

variable {ι : Type} [DecidableEq ι] {Y : Party ι} {α β : Type} {P : Str → Prop}
  {w w' : Cache ι} {fd : Fd} {n : Str} {c : Bytes}

/-- An open file is the one under a protected name and has these bytes. -/
structure Pinned (Y : Party ι) (w : Cache ι) (n : Str) (fd : Fd) (c : Bytes) : Prop where
  safe : Protected Y.pid Y.me w.shared n
  file : ∃ id f, w.own fd = some (.file id) ∧ w.shared.names n = some id ∧
    w.shared.files id = some f ∧ f.content = c

omit [DecidableEq ι] in
theorem Pinned.still (h : Pinned Y w n fd c) (hs : Y.Still P w w') (hP : P n) :
    Pinned Y w' n fd c := by
  refine ⟨h.safe.keep hs.keep, ?_⟩
  obtain ⟨id, f, ho, hn, hf, hc⟩ := h.file
  have hsame := hs.keep.same n hP h.safe
  obtain ⟨f', hf', hc'⟩ := hsame.content id f hn hf
  exact ⟨id, f', hs.own fd _ ho, hsame.name.trans hn, hf', hc'.trans hc⟩

omit [DecidableEq ι] in
theorem Pinned.rests (h : Pinned Y w n fd c) (hs : Y.Rests w w') : Pinned Y w' n fd c :=
  h.still hs trivial

omit [DecidableEq ι] in
theorem Pinned.contains (h : Pinned Y w n fd c) : Contains w.shared n c := by
  obtain ⟨id, f, -, hn, hf, hc⟩ := h.file
  exact ⟨id, f, hn, hf, hc⟩

omit [DecidableEq ι] in
theorem Pinned.fileAt (h : Pinned Y w n fd c) :
    ∃ id f, fileAt w fd = some id ∧ w.shared.names n = some id ∧ w.shared.files id = some f ∧
      f.content = c := by
  obtain ⟨id, f, ho, hn, hf, hc⟩ := h.file
  refine ⟨id, f, ?_, hn, hf, hc⟩
  rw [Ple.fileAt, ho]
  rfl

omit [DecidableEq ι] in
/-- A leaf of the cache that is under a protected name. -/
theorem LeafOpened.pinned {d : Fd} {w₀ : Cache ι} (h : LeafOpened Y w₀ d n fd w)
    (hd : w₀.own d = some (.dir Y.root)) (hn : Protected Y.pid Y.me w₀.shared n) :
    ∃ c, Pinned Y w n fd c := by
  obtain ⟨id, ho, hid⟩ := h.cached hd
  obtain ⟨f, hf⟩ := w.shared.bound hid
  exact ⟨f.content, hn.keep h.still.keep, id, f, ho, hid, hf, rfl⟩

/-! ## Looking at it -/

theorem fstat_pinned (h : Pinned Y w n fd c) :
    Y.Gives (fun st w' => Y.Rests w w' ∧ Stamp w'.shared st.snapshot c ∧ st.snapshot.Small ∧
      st.size = c.length) (orOs (ask (.fstat fd))) w := by
  refine Meets.orOs (ask_quiet rfl fun u a hu _ hm => ?_)
  cases a with
  | error e => trivial
  | ok st =>
    obtain ⟨id, f, hid, -, hf, hc⟩ := (h.rests hu).fileAt
    obtain ⟨hsmall, hstat⟩ := hm.2 st rfl
    obtain ⟨g, hg, hst⟩ := hstat id hid
    obtain rfl := Option.some.inj (hf.symm.trans hg)
    subst hst hc
    exact ⟨hu, u.shared.stamp hf, hsmall, rfl⟩

theorem statLeaf_pinned {what : Str} (h : Pinned Y w n fd c) :
    Y.Gives (fun st w' => Y.Rests w w' ∧ Stamp w'.shared st.snapshot c ∧ st.snapshot.Small ∧
      st.size = c.length) (statLeaf fd what) w := by
  refine Meets.seq (fstat_pinned h) fun st v hgot => ?_
  obtain ⟨hv, hstamp, hsmall, hsize⟩ := hgot
  refine orFail_seq fun _ _ => ?_
  refine (requireOwnedMode_keeps st what).seq fun _ v' hv' => ?_
  exact ⟨hv.trans hv', hstamp.history hv'.keep.history, hsmall, hsize⟩

theorem pread_pinned {what : Str} {count offset : Nat} (h : Pinned Y w n fd c) :
    Y.Gives (fun chunk w' => Y.Rests w w' ∧ chunk <+: (c.drop offset).take count)
      (orCache what (ask (.pread fd count offset))) w := by
  refine Meets.orCache (ask_quiet rfl fun u a hu _ hm => ?_)
  cases a with
  | error e => trivial
  | ok chunk =>
    obtain ⟨id, f, hid, -, hf, hc⟩ := (h.rests hu).fileAt
    obtain ⟨g, hg, hchunk⟩ := (hm.2 chunk rfl).2 id hid
    obtain rfl := Option.some.inj (hf.symm.trans hg)
    exact ⟨hu, hc ▸ hchunk⟩

/-- What is fed to the digest is the range. -/
theorem hashRest_pinned {size offset : Nat} {what : Str} {fed : Bytes} {advised : Nat}
    (h : Pinned Y w n fd c) (hfed : fed = (c.drop offset).take fed.length)
    (hle : fed.length ≤ size) :
    Y.Gives (fun out w' => Y.Rests w w' ∧ out = slice c offset size)
      (hashRest fd size offset what fed advised) w := by
  induction hleft : size - fed.length using Nat.strong_induction_on generalizing fed advised w with
  | _ left ih =>
    rw [hashRest]
    by_cases hlt : fed.length < size
    · rw [if_pos hlt]
      refine Meets.seq (pread_pinned h) fun chunk w₁ hgot => ?_
      obtain ⟨h₁, hchunk⟩ := hgot
      by_cases hempty : chunk = []
      · rw [if_pos hempty]
        trivial
      rw [if_neg hempty]
      have hpos := List.length_pos_iff.mpr hempty
      have hlength : chunk.length ≤ size - fed.length := by
        have := hchunk.length_le
        rw [List.length_take] at this
        omega
      have hfront : chunk = (c.drop (offset + fed.length)).take chunk.length :=
        List.prefix_iff_eq_take.mp (hchunk.trans (List.take_prefix _ _))
      have hnext : fed ++ chunk = (c.drop offset).take (fed ++ chunk).length := by
        rw [List.length_append, List.take_add, ← hfed, List.drop_drop, ← hfront]
      have hrest : ∀ advised w₂, Y.Rests w w₂ →
          Y.Gives (fun out w' => Y.Rests w w' ∧ out = slice c offset size)
            (hashRest fd size offset what (fed ++ chunk) advised) w₂ := by
        intro advised w₂ h₂
        refine (ih (size - (fed ++ chunk).length) (by rw [List.length_append]; omega) (h.rests h₂)
          hnext (by rw [List.length_append]; omega) rfl).mono (fun out w' hout => ?_) fun _ _ e => e
        exact ⟨h₂.trans hout.1, hout.2⟩
      dsimp only
      by_cases hadvise : fadviseIntervalBytes ≤ fed.length + chunk.length - advised
      · rw [if_pos hadvise]
        exact (fadviseDontneed_keeps _ _ _).seq fun _ w₂ h₂ => hrest _ w₂ (h₁.trans h₂)
      · rw [if_neg hadvise]
        exact hrest _ w₁ h₁
    · rw [if_neg hlt]
      have hsize : fed.length = size := by omega
      have hout : fed = slice c offset size := by
        rw [slice, ← hsize]
        exact hfed
      by_cases hadvise : advised < fed.length
      · rw [if_pos hadvise]
        exact (fadviseDontneed_keeps _ _ _).seq fun _ w₂ h₂ => ⟨h₂, hout⟩
      · rw [if_neg hadvise]
        exact ⟨Still.refl w, hout⟩

/-- The whole of a file is what it holds. -/
theorem hashFdRange_pinned {what : Str} {size : Nat} (h : Pinned Y w n fd c)
    (hsize : size = c.length) :
    Y.Gives (fun out w' => Y.Rests w w' ∧ out = c) (hashFdRange fd size 0 what) w := by
  refine (hashRest_pinned h (by rfl) (Nat.zero_le _)).mono (fun out w' hout => ?_) fun _ _ e => e
  refine ⟨hout.1, ?_⟩
  rw [hout.2, slice, List.drop_zero, hsize, List.take_length]

/-- A table that verifies has the size and the hash. -/
theorem verifyTableContent_pinned {sha256 : Bytes → Str} {table : Table}
    (h : Pinned Y w n fd c) :
    Y.Gives (fun b w' => Y.Rests w w' ∧ (b = true → c.length = table.size ∧ sha256 c = table.sha256))
      (verifyTableContent sha256 fd table) w := by
  refine Meets.seq (fstat_pinned h) fun st w₁ hgot => ?_
  obtain ⟨h₁, _, _, hsize⟩ := hgot
  by_cases hne : st.size ≠ table.size
  · simp only [if_pos hne]
    exact ⟨h₁, fun hfalse => by cases hfalse⟩
  · simp only [if_neg hne]
    refine Meets.seq (hashFdRange_pinned (h.rests h₁) hsize) fun out w₂ hgot => ?_
    obtain ⟨h₂, hout⟩ := hgot
    refine (requireUnchanged_keeps _ _ _).seq fun _ w₃ h₃ => ?_
    refine ⟨(h₁.trans h₂).trans h₃, fun htrue => ?_⟩
    rw [decide_eq_true_eq] at htrue
    exact ⟨by omega, hout ▸ htrue⟩

/-! ## Writing a temporary file -/

theorem pwrite_pinned {what : Str} {data : Bytes} {offset : Nat} (h : Pinned Y w n fd c)
    (htemp : TempOf (Y.pid Y.me) n) (hoffset : offset ≤ c.length) :
    Y.Gives (fun m w' => Y.Still IsTable w w' ∧ m ≤ data.length ∧
      Pinned Y w' n fd (overwrite 0 c (data.take m) offset))
      (orCache what (ask (.pwrite fd data offset))) w := by
  refine Meets.orCache (ask_spec fun u a w' hu _ hm => ?_)
  have hpinned := h.rests hu
  obtain ⟨id, f, ho, hn, hf, hc⟩ := hpinned.file
  have hid : Ple.fileAt u fd = some id := by
    rw [Ple.fileAt, ho]
    rfl
  obtain ⟨hown, m, hle, ha, heffect⟩ := hm
  rw [hid] at heffect
  rcases heffect with hw | ⟨hzero, hshared⟩
  · refine ⟨hw.acts htemp hn, ?_⟩
    cases a with
    | error e => trivial
    | ok m' =>
      obtain rfl := ha m' rfl
      have hstill : Y.Still IsTable u w' :=
        ⟨fun fd' hd hfd => by rw [hown]; exact hfd, hw.keep htemp hn⟩
      refine ⟨(hu.mono fun _ _ => trivial).trans hstill, hle, ?_⟩
      obtain ⟨g, g', hg, hfiles, hcontent, -⟩ := hw.file
      obtain rfl := Option.some.inj (hf.symm.trans hg)
      refine ⟨hpinned.safe.keep hstill.keep, id, g', hstill.own fd _ ho, ?_, ?_, ?_⟩
      · rw [hw.names]
        exact hn
      · rw [hfiles, Function.update_self]
      · rw [hcontent, hc]
  · rw [hshared]
    refine ⟨Acts.refl _ _, ?_⟩
    cases a with
    | error e => trivial
    | ok m' =>
      obtain rfl := ha m' rfl
      have hsame : w' = u := by
        cases w'
        cases u
        dsimp only at hown hshared
        rw [hown, hshared]
      subst hsame hzero
      refine ⟨hu.mono fun _ _ => trivial, hle, ?_⟩
      rw [List.take_zero, overwrite_nil hoffset]
      exact hpinned

theorem pwriteAll_pinned {what : Str} {data : Bytes} {offset : Nat} (h : Pinned Y w n fd c)
    (htemp : TempOf (Y.pid Y.me) n) (hoffset : offset ≤ c.length) :
    Y.Gives (fun _ w' => Y.Still IsTable w w' ∧ Pinned Y w' n fd (overwrite 0 c data offset))
      (pwriteAll fd what data offset) w := by
  induction hlen : data.length using Nat.strong_induction_on generalizing data offset c w with
  | _ size ih =>
    rw [pwriteAll]
    by_cases hdata : data = []
    · rw [if_pos hdata, hdata, overwrite_nil hoffset]
      exact ⟨Still.refl w, h⟩
    rw [if_neg hdata]
    have hpos := List.length_pos_iff.mpr hdata
    refine Meets.seq (pwrite_pinned h htemp hoffset) fun m w₁ hgot => ?_
    obtain ⟨h₁, hle, hpinned⟩ := hgot
    by_cases hzero : m = 0
    · rw [if_pos hzero]
      trivial
    rw [if_neg hzero]
    have htake : (data.take m).length = m := by
      rw [List.length_take]
      omega
    refine (ih (data.drop m).length (by rw [List.length_drop]; omega) hpinned
      (by rw [length_overwrite hoffset, htake]; omega) rfl).mono (fun _ w' h' => ?_) fun _ _ e => e
    refine ⟨h₁.trans h'.1, ?_⟩
    have hall : _ = overwrite 0 c (data.take m ++ data.drop m) offset := overwrite_append hoffset
    rw [htake, List.take_append_drop] at hall
    rw [← hall]
    exact h'.2

theorem ftruncate_pinned {size : Nat} (h : Pinned Y w n fd c) (htemp : TempOf (Y.pid Y.me) n) :
    Y.Gives (fun _ w' => Y.Still IsTable w w' ∧ Pinned Y w' n fd (resize 0 c size))
      (orOs (ask (.ftruncate fd size))) w := by
  refine Meets.orOs (ask_spec fun u a w' hu _ hm => ?_)
  have hpinned := h.rests hu
  obtain ⟨id, f, ho, hn, hf, hc⟩ := hpinned.file
  have hid : Ple.fileAt u fd = some id := by
    rw [Ple.fileAt, ho]
    rfl
  obtain ⟨hown, heffect⟩ := hm
  rw [hid] at heffect
  cases a with
  | error e =>
    have hshared : w'.shared = u.shared := heffect
    rw [hshared]
    exact ⟨Acts.refl _ _, trivial⟩
  | ok _ =>
    have hw : Rewritten id (fun old => resize 0 old size) u.shared w'.shared := heffect
    have hstill : Y.Still IsTable u w' :=
      ⟨fun fd' hd hfd => by rw [hown]; exact hfd, hw.keep htemp hn⟩
    refine ⟨hw.acts htemp hn, (hu.mono fun _ _ => trivial).trans hstill, ?_⟩
    obtain ⟨g, g', hg, hfiles, hcontent, -⟩ := hw.file
    obtain rfl := Option.some.inj (hf.symm.trans hg)
    refine ⟨hpinned.safe.keep hstill.keep, id, g', hstill.own fd _ ho, ?_, ?_, ?_⟩
    · rw [hw.names]
      exact hn
    · rw [hfiles, Function.update_self]
    · rw [hcontent, hc]

end Party

end Ple
end FlashNext
