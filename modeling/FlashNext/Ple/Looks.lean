import FlashNext.Ple.Steps

/-!
# What only looks

The reads, the checks and the walk to a directory leave everything as it was, less a descriptor
that they hand out.
-/

namespace FlashNext
namespace Ple

open Effect
open Py (Str Value str)
open Text (Bytes)

namespace Party

variable {ι : Type} [DecidableEq ι] {Y : Party ι} {α β : Type} {u v w w' : Cache ι} {fd : Fd}

/-! ## Reads -/

theorem readRest_keeps (fd : Fd) (size offset : Nat) (what : Str) (out : Bytes) :
    Y.Keeps (readRest fd size offset what out) := by
  induction hleft : size - out.length using Nat.strong_induction_on generalizing out with
  | _ left ih =>
    rw [readRest]
    refine Preserves.ite (fun hlt => ?_) fun _ => Preserves.ret _
    refine (Keeps.orOs (Keeps.ask rfl)).bind fun chunk => ?_
    refine Preserves.ite (fun _ => Preserves.throw _) fun hchunk => ?_
    have hpos := List.length_pos_iff.mpr hchunk
    exact ih (size - (out ++ chunk).length) (by rw [List.length_append]; omega) _ rfl

theorem readExact_keeps (fd : Fd) (size offset : Nat) (what : Str) :
    Y.Keeps (readExact fd size offset what) :=
  readRest_keeps fd size offset what []

theorem fadviseDontneed_keeps (fd : Fd) (offset count : Nat) :
    Y.Keeps (fadviseDontneed fd offset count) :=
  Keeps.suppress (Keeps.ask rfl)

theorem hashRest_keeps (fd : Fd) (size offset : Nat) (what : Str) (fed : Bytes) (advised : Nat) :
    Y.Keeps (hashRest fd size offset what fed advised) := by
  induction hleft : size - fed.length using Nat.strong_induction_on generalizing fed advised with
  | _ left ih =>
    rw [hashRest]
    refine Preserves.ite (fun hlt => ?_) fun _ => ?_
    · refine (Keeps.orCache (Keeps.ask rfl)).bind fun chunk => ?_
      refine Preserves.ite (fun _ => Preserves.throw _) fun hchunk => ?_
      have hpos := List.length_pos_iff.mpr hchunk
      have hrest : ∀ advised, Y.Keeps (hashRest fd size offset what (fed ++ chunk) advised) :=
        fun advised => ih (size - (fed ++ chunk).length)
          (by rw [List.length_append]; omega) _ _ rfl
      refine Preserves.ite (fun _ => ?_) fun _ => hrest _
      exact (fadviseDontneed_keeps _ _ _).bind fun _ => hrest _
    · refine Preserves.ite (fun _ => ?_) fun _ => Preserves.ret _
      exact (fadviseDontneed_keeps _ _ _).bind fun _ => Preserves.ret _

theorem hashFdRange_keeps (fd : Fd) (size offset : Nat) (what : Str) :
    Y.Keeps (hashFdRange fd size offset what) :=
  hashRest_keeps fd size offset what [] 0

theorem fstat_keeps (fd : Fd) : Y.Keeps (orOs (ask (.fstat fd))) := Keeps.orOs (Keeps.ask rfl)

theorem requireOwnedMode_keeps (st : Stat) (what : Str) : Y.Keeps (requireOwnedMode st what) :=
  (Keeps.ask rfl).bind fun _ => (Keeps.orFail _).bind fun _ => Keeps.orFail _

theorem checkCacheRoot_keeps (fd : Fd) (cacheDir : Str) : Y.Keeps (checkCacheRoot fd cacheDir) :=
  (fstat_keeps fd).bind fun _ => (Keeps.ask rfl).bind fun _ =>
    (Keeps.orFail _).bind fun _ => Keeps.orFail _

theorem requireUnchanged_keeps (fd : Fd) (baseline : Snapshot) (text : Str) :
    Y.Keeps (requireUnchanged fd baseline text) :=
  (fstat_keeps fd).bind fun _ => Keeps.orFail _

theorem statLeaf_keeps (fd : Fd) (what : Str) : Y.Keeps (statLeaf fd what) :=
  (fstat_keeps fd).bind fun _ => (Keeps.orFail _).bind fun _ =>
    (requireOwnedMode_keeps _ _).bind fun _ => Preserves.ret _

theorem lstat?_keeps (d : Fd) (name : Str) : Y.Keeps (lstat? d name) := by
  refine (Keeps.ask rfl).bind fun a => ?_
  cases a with
  | ok st => exact Preserves.ret _
  | error e => exact Preserves.ite (fun _ => Preserves.ret _) fun _ => Preserves.throw _

theorem fileExists_keeps (d : Fd) (name : Str) : Y.Keeps (fileExists d name) :=
  (lstat?_keeps d name).bind fun _ => Preserves.ret _

theorem readReceiptFile_keeps (fd : Fd) : Y.Keeps (readReceiptFile fd) := by
  refine (statLeaf_keeps fd _).bind fun st => ?_
  refine Preserves.ite (fun _ => Preserves.ret _) fun _ => ?_
  exact (readExact_keeps _ _ _ _).bind fun _ => Preserves.ret _

theorem readAttested_keeps (fd : Fd) : Y.Keeps (readAttested fd) :=
  (statLeaf_keeps fd _).bind fun _ => (Keeps.orFail _).bind fun _ =>
    (readExact_keeps _ _ _ _).bind fun _ => (requireUnchanged_keeps _ _ _).bind fun _ =>
      Preserves.ret _

theorem preflightSpace_keeps (fd : Fd) (size : Nat) : Y.Keeps (preflightSpace fd size) :=
  (Keeps.orOs (Keeps.ask rfl)).bind fun _ => Keeps.require _ _

theorem readSafetensorsHeader_keeps (reader : Reader) (fd : Fd) (size : Nat) (what : Str) :
    Y.Keeps (readSafetensorsHeader reader fd size what) :=
  (Keeps.orFail _).bind fun _ => (readExact_keeps _ _ _ _).bind fun _ =>
    (Keeps.orFail _).bind fun _ => (readExact_keeps _ _ _ _).bind fun _ =>
      (Keeps.orFail _).bind fun _ => Preserves.ret _

theorem fstat_small (fd : Fd) :
    Y.Gives (fun st w' => Y.Rests w w' ∧ st.snapshot.Small) (orOs (ask (.fstat fd))) w := by
  refine Meets.orOs (ask_quiet rfl fun u a hu _ hm => ?_)
  cases a with
  | ok st => exact ⟨hu, (hm.2 st rfl).1⟩
  | error e => trivial

/-- The source is only read. -/
theorem verifySource_gives (reader : Reader) (sha256 : Bytes → Str) (fd : Fd) (plan : Plan) :
    Y.Gives (fun s w' => Y.Rests w w' ∧ s.Small) (verifySource reader sha256 fd plan) w := by
  refine (fstat_keeps fd).seq fun st w₁ h₁ => ?_
  refine orFail_seq fun _ _ => orFail_seq fun _ _ => ?_
  refine (readSafetensorsHeader_keeps _ _ _ _).seq fun front w₂ h₂ => ?_
  refine orFail_seq fun _ _ => orFail_seq fun _ _ => orFail_seq fun _ _ => ?_
  refine (hashFdRange_keeps _ _ _ _).seq fun whole w₃ h₃ => ?_
  refine Meets.seq (fstat_small fd) fun stAfter w₄ hgot => ?_
  obtain ⟨h₄, hsmall⟩ := hgot
  refine orFail_seq fun _ _ => orFail_seq fun _ _ => ?_
  exact ⟨((h₁.trans h₂).trans h₃).trans h₄, hsmall⟩

/-! ## Directories -/

omit [DecidableEq ι] in
theorem Opened.after {h : Handle} (hu : Y.Rests u v) (ho : Opened Y v fd h w) :
    Opened Y u fd h w :=
  ⟨hu.none ho.fresh, ho.own, hu.trans ho.still⟩

theorem catchOs_spec {V : α → Cache ι → Prop} {E : Cache ι → Prop} {what : Str} {x : CacheM α}
    (h : Y.Spec V (fun _ => E) x w) : Y.Spec V (fun _ => E) (catchOs what x) w := by
  refine Meets.handle (h.mono (fun _ _ hv => hv) fun e v hv => ?_)
  cases e with
  | cache text => exact hv
  | busy text => exact hv
  | os error => exact hv

theorem openRoot_spec {E : Exc → Cache ι → Prop} (hE : ∀ e w', Y.Rests w w' → E e w') :
    Y.Spec (fun fd w' => Opened Y w fd (.dir []) w') E (orOs (ask .openRoot)) w := by
  refine Meets.orOs (ask_spec fun u a w' hu _ hm => ?_)
  cases a with
  | ok fd =>
    obtain ⟨ho, hshared⟩ := hm
    rw [hshared]
    exact ⟨Acts.refl _ _, opened_of_opens hu ho (by rw [hshared]; exact Keep.refl _)⟩
  | error e =>
    obtain rfl : w' = u := hm
    exact ⟨Acts.refl _ _, hE _ _ hu⟩

theorem openDir_ask {d : Fd} {p : List Str} {part : Str} {E : Exc → Cache ι → Prop}
    (hd : w.own d = some (.dir p)) :
    Y.Spec (fun a w' => match a with
      | .ok fd => Opened Y w fd (.dir (p ++ [part])) w'
      | .error _ => Y.Rests w w') E (ask (.openDir d part)) w := by
  refine ask_spec fun u a w' hu hown hm => ?_
  cases a with
  | ok fd =>
    obtain ⟨p', hp', ho, hshared⟩ := hm
    rw [hown, hd] at hp'
    obtain rfl := Handle.dir.inj (Option.some.inj hp')
    rw [hshared]
    exact ⟨Acts.refl _ _, opened_of_opens hu ho (by rw [hshared]; exact Keep.refl _)⟩
  | error e =>
    obtain rfl : w' = u := hm
    exact ⟨Acts.refl _ _, hu⟩

/-- No directory is made in the cache itself. -/
theorem mkdir_ask {d : Fd} {p : List Str} {part : Str} {E : Exc → Cache ι → Prop}
    (hd : w.own d = some (.dir p)) (hp : p ≠ Y.root) :
    Y.Spec (fun _ w' => Y.Rests w w') E (ask (.mkdir d part)) w := by
  refine ask_spec fun u a w' hu hown hm => ?_
  have hsame : w' = u := by
    cases a with
    | ok _ =>
      obtain ⟨p', hp', hm⟩ := hm
      rw [hown, hd] at hp'
      obtain rfl := Handle.dir.inj (Option.some.inj hp')
      rw [if_neg hp] at hm
      exact hm
    | error e => exact hm
  subst hsame
  exact ⟨Acts.refl _ _, hu⟩

/-- A missing directory is made, or someone else has made it. -/
theorem makeChild_spec {cur : Fd} {p : List Str} {part : Str} (hcur : w.own cur = some (.dir p))
    (hp : p ≠ Y.root) :
    Y.Spec (fun (_ : Unit) w' => Y.Rests w w') (fun _ w' => Y.Rests w w')
      ((do
        orOs (ask (.mkdir cur part))
        orOs (ask (.fsync cur))).handle fun
        | .os error => if error.errno = Errno.eexist then return () else .throw (.os error)
        | e => .throw e) w := by
  have hmake : Y.Spec (fun (_ : Unit) w' => Y.Rests w w') (fun _ w' => Y.Rests w w')
      (do
        orOs (ask (.mkdir cur part))
        orOs (ask (.fsync cur))) w := by
    refine Meets.seq (V := fun (_ : Unit) v => Y.Rests w v) ?_ fun _ v hv => ?_
    · refine Meets.orOs ((mkdir_ask hcur hp).mono (fun a v hv => ?_) fun _ _ hv => hv)
      cases a with
      | ok _ => exact hv
      | error e => exact hv
    · exact (Keeps.orOs (Keeps.ask rfl)).meets (fun _ _ h => hv.trans h) fun _ _ h => hv.trans h
  refine Meets.handle (hmake.mono (fun _ _ hv => hv) fun e v hv => ?_)
  cases e with
  | cache text => exact hv
  | busy text => exact hv
  | os error =>
    dsimp only
    by_cases hexist : error.errno = .eexist
    · rw [if_pos hexist]
      exact hv
    · rw [if_neg hexist]
      exact hv

theorem openChild_spec {create : Bool} {cur : Fd} {p : List Str} {part : Str}
    (hcur : w.own cur = some (.dir p)) (hp : create = true → p ≠ Y.root) :
    Y.Spec (fun child w' => Opened Y w child (.dir (p ++ [part])) w') (fun _ w' => Y.Rests w w')
      (openChild create cur part) w := by
  refine Meets.seq (openDir_ask hcur) fun a w₁ ha => ?_
  cases a with
  | ok child => exact ha
  | error e =>
    by_cases hmake : e.errno = .enoent ∧ create = true
    · simp only [if_pos hmake]
      have hcur₁ := ha.own cur _ hcur
      refine Meets.seq ((makeChild_spec hcur₁ (hp hmake.2)).mono (fun _ _ hv => hv)
        fun _ _ hv => ha.trans hv) fun _ w₂ h₂ => ?_
      have h : Y.Rests w w₂ := ha.trans h₂
      refine Meets.orOs ((openDir_ask (h.own cur _ hcur)).mono (fun a v hv => ?_) fun _ _ hv => hv)
      cases a with
      | ok child => exact hv.after h
      | error e => exact h.trans hv
    · simp only [if_neg hmake]
      exact ha

/-- The walk hands out the directory at the end of it. -/
theorem walkDirs_spec {w₀ : Cache ι} {what : Str} {create : Bool} {cur : Fd} {p parts : List Str}
    (hfresh : w₀.own cur = none) (hcur : w.own cur = some (.dir p)) (hstill : Y.Rests w₀ w)
    (hcreate : create = true → p ++ parts = Y.root) :
    Y.Spec (fun fd w' => Opened Y w₀ fd (.dir (p ++ parts)) w') (fun _ w' => Y.Rests w₀ w')
      (walkDirs what create cur parts) w := by
  induction parts generalizing cur p w with
  | nil =>
    rw [walkDirs, List.append_nil]
    exact ⟨hfresh, hcur, hstill⟩
  | cons part parts ih =>
    have hproper : create = true → p ≠ Y.root := by
      intro hc hp
      have hlength := congrArg List.length (hcreate hc)
      rw [hp, List.length_append, List.length_cons] at hlength
      omega
    rw [walkDirs]
    refine Meets.seq (V := fun child v => w₀.own child = none ∧
      v.own child = some (.dir (p ++ [part])) ∧ Y.Rests w₀ v) ?_ fun child v hgot => ?_
    · refine Meets.handle ?_
      -- one closes what one has reached, unless it is closed already
      have hblock : Y.Spec (fun child v => w₀.own child = none ∧
            v.own child = some (.dir (p ++ [part])) ∧ Y.Rests w₀ v)
          (fun _ v => Y.Rests w₀ v ∧ ∀ id, v.own cur ≠ some (.lock id))
          (catchOs (str "cannot open directory " ++ what ++ str ": ") do
            let child ← openChild create cur part
            orOs (ask (.close cur))
            return child) w := by
        refine catchOs_spec (E := fun v => Y.Rests w₀ v ∧ ∀ id, v.own cur ≠ some (.lock id)) ?_
        have hnolock : ∀ v, Y.Rests w v → ∀ id, v.own cur ≠ some (.lock id) := by
          intro v hv id heq
          rw [hv.own cur _ hcur] at heq
          cases heq
        refine Meets.seq ((openChild_spec hcur hproper).mono (fun _ _ hv => hv)
          fun _ v hv => ⟨hstill.trans hv, hnolock v hv⟩) fun child v hchild => ?_
        have hne : child ≠ cur := by
          rintro rfl
          rw [hchild.fresh] at hcur
          cases hcur
        have hclosed : ∀ v', Closed Y cur v v' → Y.Rests w₀ v' := fun v' hc =>
          hc.still (hstill.trans hchild.still) hfresh
        refine Meets.seq (close_spec (V := fun _ v' => w₀.own child = none ∧
            v'.own child = some (.dir (p ++ [part])) ∧ Y.Rests w₀ v') (hnolock v hchild.still)
          (fun v' hc => ⟨hstill.none hchild.fresh, ?_, hclosed v' hc⟩)
          fun e v' hc => ⟨hclosed v' hc, ?_⟩) fun _ v' hv' => hv'
        · rw [hc.own child hne]
          exact hchild.own
        · intro id
          rw [hc.gone]
          intro heq
          cases heq
      refine hblock.mono (fun _ _ hv => hv) fun e v hv => ?_
      refine Meets.seq (close_spec (V := fun _ v' => Y.Rests w₀ v') hv.2
        (fun v' hc => hc.still hv.1 hfresh) fun _ v' hc => hc.still hv.1 hfresh) fun _ v' hv' => hv'
    · obtain ⟨hnone, hown, hv⟩ := hgot
      have hrest := ih hnone hown hv fun hc => by
        rw [List.append_assoc]
        exact hcreate hc
      rw [List.append_assoc] at hrest
      exact hrest

theorem openDir_gives {path what : Str} {create : Bool}
    (hcreate : ∀ parts, pathComponents path what = .ok parts → create = true → parts = Y.root) :
    Y.Gives (fun fd w' => ∃ parts, pathComponents path what = .ok parts ∧
      Opened Y w fd (.dir parts) w') (openDir path what create) w := by
  refine orFail_seq fun parts hparts => ?_
  refine Meets.seq (openRoot_spec fun _ _ _ => trivial) fun cur v hcur => ?_
  refine (walkDirs_spec hcur.fresh hcur.own hcur.still (hcreate parts hparts)).mono
    (fun fd w' h => ⟨parts, hparts, h⟩) fun _ _ _ => trivial

theorem resolveAnchored_gives (path what : Str) :
    Y.Gives (fun path' w' => path' = path ∧ Y.Rests w w') (resolveAnchored path what) w := by
  refine orFail_seq fun parts _ => ?_
  cases parts.getLast? with
  | none => exact ⟨rfl, Still.refl w⟩
  | some last =>
    refine Meets.seq (openDir_gives fun _ _ h => by cases h) fun parent v hgot => ?_
    obtain ⟨_, _, ho⟩ := hgot
    refine Meets.seq (V := fun _ v' => Y.Rests w v') (ho.closing (P := fun _ => True)
      (fun id heq => by cases heq) (Keeps.gives (V := fun _ v' => Y.Still (fun _ => True) v v' ∧
        ∀ v'', Closed Y parent v' v'' → Y.Rests w v'' → Y.Rests w v'') ?_ fun _ v' hv' =>
          ⟨hv', fun _ _ h => h⟩)) fun _ v' hv' => ⟨rfl, hv'⟩
    exact (Keeps.orCache (Keeps.ask rfl)).bind fun _ => Keeps.orFail _

theorem ensureDirAnchored_gives {path what : Str}
    (hroot : ∀ parts, pathComponents path what = .ok parts → parts = Y.root) :
    Y.Gives (fun path' w' => path' = path ∧ Y.Rests w w') (ensureDirAnchored path what) w := by
  refine Meets.seq (openDir_gives fun parts hparts _ => hroot parts hparts)
    fun fd v hgot => ?_
  obtain ⟨_, _, ho⟩ := hgot
  refine Meets.seq (close_spec (V := fun _ v' => Y.Rests w v') (fun id heq => ?_)
    (fun v' hc => hc.still ho.still ho.fresh) fun _ _ _ => trivial) fun _ v' hv' => ⟨rfl, hv'⟩
  rw [ho.own] at heq
  cases heq

/-! ## Leaves -/

/-- A leaf of a directory was opened; in the cache it is the file under the name. -/
structure LeafOpened (Y : Party ι) (w : Cache ι) (d : Fd) (name : Str) (fd : Fd) (w' : Cache ι) :
    Prop where
  fresh : w.own fd = none
  still : Y.Rests w w'
  own : ∃ h, w'.own fd = some h ∧ ∀ id, h ≠ .lock id
  cached : w.own d = some (.dir Y.root) →
    ∃ id, w'.own fd = some (.file id) ∧ w'.shared.names name = some id

theorem openLeaf_gives (d : Fd) (name what : Str) :
    Y.Gives (fun fd w' => LeafOpened Y w d name fd w') (openLeaf d name what false) w := by
  refine Meets.orCache (ask_spec fun u a w' hu hown hm => ?_)
  cases a with
  | error e =>
    obtain rfl : w' = u := hm
    exact ⟨Acts.refl _ _, trivial⟩
  | ok fd =>
    obtain ⟨p, hp, hm⟩ := hm
    by_cases hroot : p = Y.root
    · rw [if_pos hroot] at hm
      obtain ⟨id, ho, ⟨hid, hshared⟩ | ⟨hfalse, -⟩⟩ := hm
      · have hopened : Opened Y w fd (.file id) w' :=
          opened_of_opens hu ho (by rw [hshared]; exact Keep.refl _)
        rw [hshared]
        refine ⟨Acts.refl _ _, hopened.fresh, hopened.still,
          ⟨_, hopened.own, fun _ h => by cases h⟩, fun _ => ⟨id, hopened.own, ?_⟩⟩
        rw [hshared]
        exact hid
      · cases hfalse
    · rw [if_neg hroot] at hm
      obtain ⟨ho, hshared⟩ := hm
      have hopened : Opened Y w fd .foreign w' :=
        opened_of_opens hu ho (by rw [hshared]; exact Keep.refl _)
      rw [hshared]
      refine ⟨Acts.refl _ _, hopened.fresh, hopened.still,
        ⟨_, hopened.own, fun _ h => by cases h⟩, fun hd => ?_⟩
      rw [hown, hd] at hp
      exact absurd (Handle.dir.inj (Option.some.inj hp)).symm hroot

omit [DecidableEq ι] in
theorem LeafOpened.after {d : Fd} {name : Str} (hu : Y.Rests u v) (h : LeafOpened Y v d name fd w) :
    LeafOpened Y u d name fd w where
  fresh := hu.none h.fresh
  still := hu.trans h.still
  own := h.own
  cached hd := h.cached (hu.own d _ hd)

theorem openExisting_gives (d : Fd) (name what : Str) :
    Y.Gives (fun o w' => match o with
      | none => Y.Rests w w'
      | some fd => LeafOpened Y w d name fd w') (openExisting d name what) w := by
  refine (lstat?_keeps d name).seq fun st v hv => ?_
  cases st with
  | none => exact hv
  | some st =>
    refine orFail_seq fun _ _ => orFail_seq fun _ _ => ?_
    exact Meets.seq (openLeaf_gives d name what) fun fd w' h => h.after hv

/-- A block over a leaf that was opened for it. -/
theorem LeafOpened.closing {P : Str → Prop} {V : α → Cache ι → Prop} {p : CacheM α} {d : Fd}
    {name : Str} (ho : LeafOpened Y w d name fd v)
    (hp : Y.Gives (fun a v' => Y.Still P v v' ∧
      ∀ v'', Closed Y fd v' v'' → Y.Still P w v'' → V a v'') p v) :
    Y.Gives V (p.finally_ (orOs (ask (.close fd)))) v := by
  obtain ⟨h, hown, hlock⟩ := ho.own
  exact Opened.closing ⟨ho.fresh, hown, ho.still⟩ hlock hp

end Party

end Ple
end FlashNext
