import FlashNext.Compare.ManifestHandled
import FlashNext.Runtime.Launch

/-!
# Comparable launches

`checkParity` compares the two profiles field by field, with Python's `==`.  The launches of the
profiles that it lets through differ in what the declared lever changes and in nothing else
(`parity_launches`).
-/

namespace FlashNext
namespace Compare

open Py (Str Value str)
open Py.Argv
open FlashNext.Runtime (Profile Consistent checkedSources buildArgv buildEnv argvOf envOf baseArgs
  speculativeArgs isSpeculative)

/-! ## Fields with the same keys -/

theorem lookupStr_cons_self (f : Str × Value) (fs : Fields) : lookupStr (f :: fs) f.1 = some f.2 := by
  rw [lookupStr, List.find?_cons_of_pos (by simp)]
  rfl

theorem lookupStr_cons_ne {f : Str × Value} {fs : Fields} {key : Str} (h : f.1 ≠ key) :
    lookupStr (f :: fs) key = lookupStr fs key := by
  rw [lookupStr, List.find?_cons_of_neg (by simpa using h)]
  rfl

/-- In two records of the same distinct keys the fields of a key stand at one place. -/
theorem lookup_of_forall₂ {R : Str × Value → Str × Value → Prop} {fs gs : Fields}
    (h : List.Forall₂ (fun f g => f.1 = g.1 ∧ R f g) fs gs) (hkeys : (fs.map (·.1)).Nodup)
    {f : Str × Value} (hf : f ∈ fs) :
    ∃ g ∈ gs, f.1 = g.1 ∧ R f g ∧ lookupStr gs f.1 = some g.2 := by
  induction h with
  | nil => cases hf
  | cons hhead htail ih =>
    rename_i x y xs ys
    rw [List.map_cons, List.nodup_cons] at hkeys
    cases List.mem_cons.mp hf with
    | inl heq =>
      subst heq
      refine ⟨y, by simp, hhead.1, hhead.2, ?_⟩
      rw [hhead.1]
      exact lookupStr_cons_self y ys
    | inr hmem =>
      obtain ⟨g, hg, hkey, hR, hlookup⟩ := ih hkeys.2 hmem
      have hne : y.1 ≠ f.1 := by
        intro heq
        exact hkeys.1 (hhead.1 ▸ heq ▸ List.mem_map_of_mem hmem)
      exact ⟨g, List.mem_cons_of_mem _ hg, hkey, hR, (lookupStr_cons_ne hne).trans hlookup⟩

/-- Records of the same distinct keys whose fields are in both agree place by place. -/
theorem forall₂_of_mem {names : List Str} {fs gs : Fields}
    (h : List.Forall₂ (fun f g => f.1 = g.1) fs gs) (hkeys : (gs.map (·.1)).Nodup)
    (hsame : ∀ f ∈ fs, f.1 ∉ names → f ∈ gs) :
    List.Forall₂ (fun f g => f.1 ∈ names ∨ f.2 = g.2) fs gs := by
  induction h with
  | nil => exact .nil
  | cons hhead htail ih =>
    rename_i x y xs ys
    rw [List.map_cons, List.nodup_cons] at hkeys
    refine .cons ?_ (ih hkeys.2 ?_)
    · by_cases hname : x.1 ∈ names
      · exact Or.inl hname
      · cases List.mem_cons.mp (hsame x (by simp) hname) with
        | inl heq => exact Or.inr (by rw [heq])
        | inr hmem => exact absurd (hhead ▸ List.mem_map_of_mem hmem) hkeys.1
    · intro f hf hname
      cases List.mem_cons.mp (hsame f (List.mem_cons_of_mem _ hf) hname) with
      | inl heq =>
        -- the key of the head is not in the tails
        obtain ⟨g, hg, hkey⟩ := Effect.forall₂_exists_right htail f hf
        exact absurd (heq ▸ hkey ▸ List.mem_map_of_mem hg) hkeys.1
      | inr hmem => exact hmem

/-- A lookup passes by the fields that a filter leaves out. -/
theorem lookupStr_filter {fs : Fields} {key raw : Str} (h : key ≠ raw) :
    lookupStr (fs.filter fun f => f.1 != raw) key = lookupStr fs key := by
  induction fs with
  | nil => rfl
  | cons f fs ih =>
    by_cases hraw : f.1 = raw
    · have hne : f.1 ≠ key := fun heq => h (heq.symm.trans hraw)
      rw [List.filter_cons_of_neg (by simp [hraw]), ih, lookupStr_cons_ne hne]
    · rw [List.filter_cons_of_pos (by simpa using hraw)]
      by_cases hkey : f.1 = key
      · rw [← hkey, lookupStr_cons_self, lookupStr_cons_self]
      · rw [lookupStr_cons_ne hkey, lookupStr_cons_ne hkey, ih]

/-! ## Profiles -/

/-- Where both are of one type `==` is equality. -/
def Alike (v w : Value) : Prop := v.eqv w = true → v = w

theorem alike_int (n m : Int) : Alike (.int n) (.int m) := by
  intro h
  simpa [Value.canon] using (Value.eqv_iff.mp h).1

theorem alike_float (q r : ℚ) : Alike (.float q) (.float r) := by
  intro h
  simpa [Value.canon] using (Value.eqv_iff.mp h).1

theorem alike_bool (b c : Bool) : Alike (.bool b) (.bool c) := by
  intro h
  have hcanon := (Value.eqv_iff.mp h).1
  cases b <;> cases c <;> simp [Value.canon] at hcanon ⊢

theorem alike_str (s t : Str) : Alike (.str s) (.str t) := by
  intro h
  exact eqv_str_iff.mp h

/-- A value that is a string or is missing. -/
def Textual (v : Value) : Prop := v = .none ∨ ∃ s, v = .str s

theorem alike_textual {v w : Value} (hv : Textual v) (hw : Textual w) : Alike v w := by
  intro h
  have hcanon := (Value.eqv_iff.mp h).1
  cases hv with
  | inl hv =>
    cases hw with
    | inl hw => rw [hv, hw]
    | inr hw =>
      obtain ⟨t, rfl⟩ := hw
      rw [hv] at hcanon
      cases hcanon
  | inr hv =>
    obtain ⟨s, rfl⟩ := hv
    cases hw with
    | inl hw =>
      rw [hw] at hcanon
      cases hcanon
    | inr hw =>
      obtain ⟨t, rfl⟩ := hw
      exact hcanon

theorem textual_of_consistent {p : Profile} (h : Consistent p) :
    Textual p.visionBackend ∧ Textual p.kvCalibrationMode ∧ Textual p.kvScaleFile ∧
      Textual p.kvScaleSha256 ∧ Textual p.draftKvCacheDtype ∧ Textual p.draftQuantization := by
  obtain ⟨backend, _, hbackend⟩ := h.vision
  have hcalibration : Textual p.kvCalibrationMode ∧ Textual p.kvScaleFile ∧
      Textual p.kvScaleSha256 := by
    cases h.calibration with
    | absent _ hmode hfile hsha256 => exact ⟨Or.inl hmode, Or.inl hfile, Or.inl hsha256⟩
    | collect _ hmode hfile hsha256 => exact ⟨Or.inr ⟨_, hmode⟩, Or.inl hfile, Or.inl hsha256⟩
    | frozen file sha256 _ hmode hfile _ hsha256 =>
      exact ⟨Or.inr ⟨_, hmode⟩, Or.inr ⟨_, hfile⟩, Or.inr ⟨_, hsha256⟩⟩
  have hspeculation : Textual p.draftKvCacheDtype ∧ Textual p.draftQuantization := by
    cases h.speculation with
    | off _ _ hdraft hquantization => exact ⟨Or.inl hdraft, Or.inr ⟨_, hquantization⟩⟩
    | on _ _ hdraft hquantization =>
      obtain ⟨s, _, hs⟩ := hquantization
      obtain hdraft | hdraft | ⟨hdraft, _⟩ := hdraft
      · exact ⟨Or.inl hdraft, Or.inr ⟨s, hs⟩⟩
      · exact ⟨Or.inr ⟨_, hdraft⟩, Or.inr ⟨s, hs⟩⟩
      · exact ⟨Or.inr ⟨_, hdraft⟩, Or.inr ⟨s, hs⟩⟩
  exact ⟨Or.inr ⟨backend, hbackend⟩, hcalibration.1, hcalibration.2.1, hcalibration.2.2,
    hspeculation.1, hspeculation.2⟩

/-- The fields of two consistent profiles, `raw` apart, are of the same types. -/
theorem asDict_alike {p q : Profile} (hp : Consistent p) (hq : Consistent q) :
    List.Forall₂ (fun f g => f.1 = g.1 ∧ (f.1 = str "raw" ∨ Alike f.2 g.2)) p.asDict q.asDict := by
  obtain ⟨hvision, hmode, hfile, hsha256, hdraft, hquantization⟩ := textual_of_consistent hp
  obtain ⟨hvision', hmode', hfile', hsha256', hdraft', hquantization'⟩ := textual_of_consistent hq
  simp only [Profile.asDict, List.forall₂_cons, List.Forall₂.nil, and_true, true_or,
    alike_int, alike_float, alike_bool, alike_str, alike_textual hvision hvision',
    alike_textual hmode hmode', alike_textual hfile hfile', alike_textual hsha256 hsha256',
    alike_textual hdraft hdraft', alike_textual hquantization hquantization', or_true]

/-! ## What the comparison lets through -/

section

variable {interp : Interp}

/-- The profile in the snapshot of a manifest. -/
def ProfileIn (interp : Interp) (manifest : Fields) (p : Profile) : Prop :=
  ∃ context v, Value.field manifest "runtime_context" = .dict context ∧
    Value.lookup context "profile" = some v ∧ Runtime.profileFromDict interp.repr v = .ok p

/-- The field that a lever names. -/
def leverField (lever : Str) : Str :=
  if lever = str "vision.backend" then str "vision_backend"
  else if lever = str "vision.cuda_graph" then str "vision_cuda_graph"
  else lever

theorem profileOf_eq_ok {context : Value} {fields : Fields}
    (h : profileOf interp.env context = .ok fields) :
    ∃ contextFields v p, context = .dict contextFields ∧
      Value.lookup contextFields "profile" = some v ∧
      Runtime.profileFromDict interp.repr v = .ok p ∧ fields = p.asDict := by
  simp only [profileOf, Effect.bind_ok, orReject_ok, Value.asDict?_eq_some] at h
  obtain ⟨contextFields, hcontext, v, hv, hprofile⟩ := h
  have hprofile : profileFields interp v = .ok fields := hprofile
  unfold profileFields at hprofile
  split at hprofile
  · next p hp => exact ⟨contextFields, v, p, hcontext, hv, hp, (Except.ok.inj hprofile).symm⟩
  · cases hprofile
  · cases hprofile

/-- A field that is not reported has an equal value on the other side. -/
theorem changedFields_ok {base cand : Fields} {changed : List Str}
    (h : changedFields base cand = .ok changed) {f : Str × Value} (hf : f ∈ base)
    (hkey : f.1 ∉ changed) : ∃ other, lookupStr cand f.1 = some other ∧ f.2.eqv other = true := by
  unfold changedFields at h
  obtain ⟨marks, hmarks, hchanged⟩ := Effect.bind_ok.mp h
  obtain rfl := Except.ok.inj hchanged
  clear hchanged h
  have hall := Effect.mapM_ok.mp hmarks
  clear hmarks
  induction hall with
  | nil => cases hf
  | cons hhead htail ih =>
    rename_i x mark xs marks
    cases List.mem_cons.mp hf with
    | inl heq =>
      subst heq
      simp only [Effect.bind_ok, Effect.orRaise_ok, Effect.pure_ok] at hhead
      obtain ⟨other, hother, hmark⟩ := hhead
      refine ⟨other, hother, ?_⟩
      by_contra hne
      refine hkey ?_
      rw [← hmark, List.filter_cons_of_pos (by simpa using hne)]
      simp
    | inr hmem =>
      refine ih hmem ?_
      intro hin
      refine hkey ?_
      rw [List.filter_cons]
      split
      · exact List.mem_cons_of_mem _ hin
      · exact hin

theorem asDict_nodup (p : Profile) : (p.asDict.map (·.1)).Nodup := by
  rw [map_asDict]
  decide

/-- The fields that may change, and what the lever asks of them. -/
theorem allowedFields_ok {lever : Str} {base cand : Fields} {allowed : List Str}
    (h : allowedFields lever base cand = .ok allowed) :
    (lever = str "nextn" → allowed = [str "mode", str "speculative_steps"] ∧
      Value.lookup base "mode" = some (word "ar") ∧
      Value.lookup cand "mode" = some (word "nextn")) ∧
    (lever ≠ str "nextn" → allowed = [leverField lever] ∧
      (lookupStr base (leverField lever)).isSome = true) := by
  unfold allowedFields at h
  by_cases hnextn : lever = str "nextn"
  · rw [if_pos hnextn] at h
    simp only [Effect.bind_ok, item_ok, rejectIf_ok, Effect.pure_ok, Bool.not_eq_false',
      isText_iff] at h
    obtain ⟨baseMode, hbase, _, har, candMode, hcand, _, hmode, hallowed⟩ := h
    refine ⟨fun _ => ⟨hallowed.symm, ?_, ?_⟩, fun hne => absurd hnextn hne⟩
    · rw [hbase, har]
      rfl
    · rw [hcand, hmode]
      rfl
  · rw [if_neg hnextn] at h
    simp only [Effect.bind_ok, orReject_ok, Effect.orRaise_ok, rejectIf_ok, Effect.pure_ok] at h
    obtain ⟨baseField, hbase, _, _, _, _, hallowed⟩ := h
    refine ⟨fun heq => absurd heq hnextn, fun _ => ⟨hallowed.symm, ?_⟩⟩
    unfold leverField
    rw [hbase]
    rfl

/-- What the comparison of two profiles establishes. -/
structure Levered (lever : Str) (p q : Profile) : Prop where
  consistent : Consistent p ∧ Consistent q
  nextn : lever = str "nextn" → p.mode = str "ar" ∧ q.mode = str "nextn" ∧
    ∀ f ∈ p.asDict, f.1 ∉ [str "raw", str "mode", str "speculative_steps"] → f ∈ q.asDict
  other : lever ≠ str "nextn" → leverField lever ≠ str "raw" ∧
    ∀ f ∈ p.asDict, f.1 ∉ [str "raw", leverField lever] → f ∈ q.asDict

theorem consistent_of_snapshot {repr : Value → Str} {v : Value} {p : Profile}
    (h : Runtime.profileFromDict repr v = .ok p) : Consistent p := by
  obtain ⟨hprofile, haccepted, _⟩ := Runtime.profileFromDict_ok h
  rw [hprofile]
  exact Runtime.consistent_profileOf haccepted

theorem lookup_mode (p : Profile) :
    lookupStr (p.asDict.filter fun f => f.1 != str "raw") (str "mode") = some (.str p.mode) := by
  rw [lookupStr_filter (by decide)]
  show Value.lookup p.asDict "mode" = _
  unfold Profile.asDict
  rw [lookup_other _ _ (by decide), lookup_self]

/-- Fields that are not reported are the same on both sides. -/
theorem same_of_changed {p q : Profile} (hp : Consistent p) (hq : Consistent q)
    {changed allowed : List Str}
    (h : changedFields (p.asDict.filter fun f => f.1 != str "raw")
      (q.asDict.filter fun f => f.1 != str "raw") = .ok changed)
    (hallowed : changed.all allowed.contains = true) :
    ∀ f ∈ p.asDict, f.1 ∉ str "raw" :: allowed → f ∈ q.asDict := by
  intro f hf hkey
  rw [List.mem_cons, not_or] at hkey
  have hmem : f ∈ p.asDict.filter fun f => f.1 != str "raw" :=
    List.mem_filter.mpr ⟨hf, by simpa using hkey.1⟩
  have hunchanged : f.1 ∉ changed := by
    intro hin
    rw [List.all_eq_true] at hallowed
    exact hkey.2 (by simpa using hallowed f.1 hin)
  obtain ⟨other, hother, heqv⟩ := changedFields_ok h hmem hunchanged
  obtain ⟨g, hg, hsame, halike, hlookup⟩ :=
    lookup_of_forall₂ (asDict_alike hp hq) (asDict_nodup p) hf
  rw [lookupStr_filter hkey.1, hlookup, Option.some.injEq] at hother
  subst hother
  cases halike with
  | inl hraw => exact absurd hraw hkey.1
  | inr halike =>
    have hvalue : f = g := Prod.ext hsame (halike heqv)
    exact hvalue ▸ hg

theorem checkProfiles_ok {lever : Str} {base cand : Value} {u : Unit}
    (h : checkProfiles interp.env lever base cand = .ok u)
    (hcontext : base ≠ .none ∨ cand ≠ .none) :
    ∃ b c v w p q, base = .dict b ∧ cand = .dict c ∧ Value.lookup b "profile" = some v ∧
      Value.lookup c "profile" = some w ∧ Runtime.profileFromDict interp.repr v = .ok p ∧
      Runtime.profileFromDict interp.repr w = .ok q ∧ Levered lever p q := by
  have hsome : ¬ (base.isNone && cand.isNone) = true := by
    rw [Bool.and_eq_true, Value.isNone_iff, Value.isNone_iff]
    intro hnone
    cases hcontext with
    | inl hbase => exact hbase hnone.1
    | inr hcand => exact hcand hnone.2
  unfold checkProfiles at h
  rw [if_neg hsome] at h
  obtain ⟨baseFull, hbase, h⟩ := Effect.bind_ok.mp h
  obtain ⟨candFull, hcand, h⟩ := Effect.bind_ok.mp h
  obtain ⟨b, v, p, hb, hv, hp, rfl⟩ := profileOf_eq_ok hbase
  obtain ⟨c, w, q, hc, hw, hq, rfl⟩ := profileOf_eq_ok hcand
  have hpc := consistent_of_snapshot hp
  have hqc := consistent_of_snapshot hq
  rw [dropRaw_asDict, dropRaw_asDict] at h
  obtain ⟨_, hfirst, h⟩ := Effect.bind_ok.mp h
  obtain ⟨_, hsecond, h⟩ := Effect.bind_ok.mp h
  obtain rfl := Except.ok.inj hfirst
  obtain rfl := Except.ok.inj hsecond
  obtain ⟨allowed, hallowed, h⟩ := Effect.bind_ok.mp h
  obtain ⟨changed, hchanged, h⟩ := Effect.bind_ok.mp h
  rw [rejectIf_ok, Bool.not_eq_false'] at h
  have hsame := same_of_changed hpc hqc hchanged h
  obtain ⟨hnextn, hother⟩ := allowedFields_ok hallowed
  refine ⟨b, c, v, w, p, q, hb, hc, hv, hw, hp, hq, ⟨hpc, hqc⟩, ?_, ?_⟩
  · intro hlever
    obtain ⟨hlist, har, hmode⟩ := hnextn hlever
    rw [lookup_eq_lookupStr, lookup_mode] at har hmode
    rw [hlist] at hsame
    exact ⟨Value.str.inj (Option.some.inj har), Value.str.inj (Option.some.inj hmode), hsame⟩
  · intro hlever
    obtain ⟨hlist, hfield⟩ := hother hlever
    rw [hlist] at hsame
    refine ⟨?_, hsame⟩
    intro hraw
    rw [hraw, lookupStr_isSome, List.mem_map] at hfield
    obtain ⟨f, hf, heq⟩ := hfield
    simp [heq] at hf

/-! ## The launches -/

/-- The profile `r` is `p` with the one field of `q`. -/
def Replaced (field : Str) (p q r : Profile) : Prop :=
  ∀ f ∈ r.asDict, f ∈ if f.1 = field then q.asDict else p.asDict

/-- Another document is another field `raw` alone. -/
theorem asDict_raw (q : Profile) (raw : Fields) :
    List.Forall₂ (fun f g => f.1 = g.1 ∧ (f.1 = str "raw" ∨ f = g))
      ({ q with raw := raw } : Profile).asDict q.asDict := by
  simp only [Profile.asDict, List.forall₂_cons, List.Forall₂.nil, and_true, true_or, or_true]

theorem asDict_keys (p q : Profile) :
    List.Forall₂ (fun f g => f.1 = g.1) p.asDict q.asDict := by
  simp only [Profile.asDict, List.forall₂_cons, List.Forall₂.nil, and_true]

/-- The candidate, with the document of the baseline, is the baseline with one field replaced. -/
theorem replaced_of_levered {lever : Str} {p q : Profile} (h : Levered lever p q)
    (hlever : lever ≠ str "nextn") : Replaced (leverField lever) p q { q with raw := p.raw } := by
  obtain ⟨hraw, hsame⟩ := h.other hlever
  have hback : ∀ f ∈ q.asDict, f.1 ≠ str "raw" → f.1 ≠ leverField lever → f ∈ p.asDict := by
    intro f hf hne hfield
    have hkey : f.1 ∈ p.asDict.map (·.1) := by
      rw [map_asDict, ← map_asDict q]
      exact List.mem_map_of_mem hf
    obtain ⟨g, hg, hgkey⟩ := List.mem_map.mp hkey
    have hin : g ∈ q.asDict := hsame g hg (by simp [hgkey, hne, hfield])
    exact List.inj_on_of_nodup_map (asDict_nodup q) hin hf hgkey ▸ hg
  intro f hf
  obtain ⟨g, hg, hkey, hcases, _⟩ :=
    lookup_of_forall₂ (asDict_raw q p.raw) (asDict_nodup _) hf
  by_cases hne : f.1 = str "raw"
  · rw [if_neg fun heq => hraw (heq.symm.trans hne)]
    have hin : (str "raw", Value.dict p.raw) ∈ ({ q with raw := p.raw } : Profile).asDict := by
      simp [Profile.asDict]
    rw [List.inj_on_of_nodup_map (asDict_nodup _) hf hin hne]
    simp [Profile.asDict]
  · have heq : f = g := hcases.resolve_left hne
    by_cases hfield : f.1 = leverField lever
    · rw [if_pos hfield, heq]
      exact hg
    · rw [if_neg hfield]
      exact hback f (heq ▸ hg) hne hfield

/-- Only the mode, the steps and the document change under the lever `nextn`. -/
theorem nextn_of_levered {p q : Profile} (h : Levered (str "nextn") p q) :
    q = { p with mode := q.mode, raw := q.raw, speculativeSteps := q.speculativeSteps } := by
  obtain ⟨_, _, hsame⟩ := h.nextn rfl
  have hfields := forall₂_of_mem (asDict_keys p q) (asDict_nodup q) hsame
  have hnames : ∀ a b : String, str a = str b ↔ a = b :=
    fun a b => ⟨str_inj, fun heq => heq ▸ rfl⟩
  simp only [Profile.asDict, List.forall₂_cons, List.Forall₂.nil, List.mem_cons, List.not_mem_nil,
    hnames, String.reduceEq, or_false, false_or, true_or, and_true, true_and, Value.int.injEq,
    Value.float.injEq, Value.str.injEq, Value.bool.injEq] at hfields
  simp only [hfields]

/-- The candidate's launch under `nextn` only adds flags of the speculation. -/
theorem launches_nextn {p q : Profile} (h : Levered (str "nextn") p q) (rt : Runtime.Interp)
    (sha : Str) :
    ∃ added, argvOf rt q sha = argvOf rt p sha ++ added ∧ added ≠ [] ∧
      (∀ v ∈ added, isFlag v = true → isSpeculative v = true) ∧ envOf rt q sha = envOf rt p sha := by
  obtain ⟨har, hmode, _⟩ := h.nextn rfl
  have hq := nextn_of_levered h
  have hbase : baseArgs rt q sha = baseArgs rt p sha :=
    (congrArg (fun r => baseArgs rt r sha) hq).trans rfl
  have henv : envOf rt q sha = envOf rt p sha :=
    (congrArg (fun r => envOf rt r sha) hq).trans rfl
  have hcandidate : argvOf rt q sha = baseArgs rt q sha ++ speculativeArgs q := by
    rw [argvOf, if_pos hmode]
  have hbaseline : argvOf rt p sha = baseArgs rt p sha := by
    have hne : p.mode ≠ str "nextn" := by
      rw [har]
      decide
    rw [argvOf, if_neg hne, List.append_nil]
  refine ⟨speculativeArgs q, ?_, ?_, ?_, henv⟩
  · rw [hcandidate, hbaseline, hbase]
  · intro hnil
    have hlength := congrArg List.length hnil
    rw [speculativeArgs, List.length_append] at hlength
    simp [words] at hlength
  · intro v hv hflag
    have hspeculation := h.consistent.2.speculation
    have hmem : v ∈ flagsOf (speculativeArgs q) := mem_flagsOf.mpr ⟨hv, hflag⟩
    rw [Runtime.flagsOf_speculativeArgs (Runtime.silent_quantization hspeculation)
      (Runtime.silent_draft hspeculation (Runtime.silent_kvCacheDtype h.consistent.2)), words,
      List.mem_map] at hmem
    obtain ⟨name, hname, rfl⟩ := hmem
    have hall : ∀ name ∈ Runtime.speculativeFlags, isSpeculative (word name) = true := by
      decide
    exact hall name hname

/-- Both compilers succeed on the profile of a snapshot. -/
theorem build_of_snapshot {repr : Value → Str} {v : Value} {p : Profile}
    (h : Runtime.profileFromDict repr v = .ok p) (rt : Runtime.Interp) {sources : Value} {sha : Str}
    (hsources : checkedSources sources = .ok sha) :
    buildArgv rt p sources = .ok (argvOf rt p sha) ∧
      buildEnv rt p sources = .ok (envOf rt p sha) := by
  obtain ⟨hprofile, haccepted, hdistinct⟩ := Runtime.profileFromDict_ok h
  have hbuild := @Runtime.build_of_accepted rt p.toValidated sources sha haccepted hdistinct hsources
  rwa [← hprofile] at hbuild

/-- The launches of two manifests that are comparable differ by the declared lever: under `nextn` the
candidate adds speculative flags, and under another lever its arguments and its environment are
those of the baseline's profile with that field replaced. -/
theorem parity_launches {base cand : Fields} {parity : Parity}
    (h : checkParity interp.env base cand = .ok parity)
    (hcontext : Value.field base "runtime_context" ≠ .none ∨
      Value.field cand "runtime_context" ≠ .none) :
    ∃ lever p q, Value.field cand "lever" = .str lever ∧ ProfileIn interp base p ∧
      ProfileIn interp cand q ∧
      ∀ (rt : Runtime.Interp) (sources : Value) (sha : Str), checkedSources sources = .ok sha →
        ∃ argv argv' env env', buildArgv rt p sources = .ok argv ∧
          buildArgv rt q sources = .ok argv' ∧ buildEnv rt p sources = .ok env ∧
          buildEnv rt q sources = .ok env' ∧
          (lever = str "nextn" → env' = env ∧ ∃ added, argv' = argv ++ added ∧ added ≠ [] ∧
            ∀ v ∈ added, isFlag v = true → isSpeculative v = true) ∧
          (lever ≠ str "nextn" → ∃ r, Replaced (leverField lever) p q r ∧
            argv' = argvOf rt r sha ∧ env' = envOf rt r sha) := by
  simp only [checkParity, Effect.bind_ok, orReject_ok, Option.filter_eq_some_iff,
    Value.asStr?_eq_some] at h
  obtain ⟨_, _, _, _, _, _, lever, ⟨hlever, _⟩, _, _, _, _, _, hprofiles, _⟩ := h
  obtain ⟨b, c, v, w, p, q, hb, hc, hv, hw, hp, hq, hlevered⟩ := checkProfiles_ok hprofiles hcontext
  refine ⟨lever, p, q, hlever, ⟨b, v, hb, hv, hp⟩, ⟨c, w, hc, hw, hq⟩, ?_⟩
  intro rt sources sha hsources
  obtain ⟨hargv, henv⟩ := build_of_snapshot hp rt hsources
  obtain ⟨hargv', henv'⟩ := build_of_snapshot hq rt hsources
  refine ⟨_, _, _, _, hargv, hargv', henv, henv', ?_, ?_⟩
  · intro hnextn
    rw [hnextn] at hlevered
    obtain ⟨added, happend, hne, hflags, hsame⟩ := launches_nextn hlevered rt sha
    exact ⟨hsame, added, happend, hne, hflags⟩
  · intro hother
    exact ⟨{ q with raw := p.raw }, replaced_of_levered hlevered hother, rfl, rfl⟩

end

/-! ## Two comparable manifests -/

def plainRaw : Fields :=
  [(str "schema", .int 1), (str "mode", word "ar"), (str "context_length", .int 32768),
    (str "max_total_tokens", .int 32768),
    (str "vision", .dict [(str "backend", word "fa4"), (str "cuda_graph", .bool false)])]

/-- The document with another backend, and with a default written out. -/
def marlinRaw : Fields :=
  plainRaw ++ [(str "moe_backend", word "marlin"), (str "ple_rss_gib", .int 8)]

def rawValidated (raw : Fields) (moeBackend : String) : Runtime.Validated :=
  ⟨raw, 1, str "ar", 32768, 32768, 1, 1024, 8, Runtime.memFractionStaticDefault, str "bf16",
    str moeBackend, 8, 1, str "full"⟩

theorem plainRaw_accepted : Runtime.Accepted (rawValidated plainRaw "flashinfer_cutlass") where
  schema := by decide
  mode := by decide
  contextLength := by decide
  maxTotalTokens := by decide
  maxRunningRequests := ⟨Or.inr (by decide), ⟨by decide, by simp, by simp⟩⟩
  chunkedPrefillSize := ⟨Or.inr (by decide), ⟨by decide, by simp, by simp⟩⟩
  maxMambaCacheSize := ⟨Or.inr (by decide), ⟨by simp, by decide, by decide⟩⟩
  memFractionStatic := Or.inr (by decide +kernel)
  kvCacheDtype := ⟨Or.inr (by decide), by decide⟩
  calibrated := by
    rw [show Value.lookup (rawValidated plainRaw "flashinfer_cutlass").raw "kv_calibration" = none by
      decide]
    exact .absent (by decide)
  moeBackend := ⟨Or.inr (by decide), by decide⟩
  speculates := by
    rw [show Value.field (rawValidated plainRaw "flashinfer_cutlass").raw "speculative" = .none by
      decide]
    exact .off (by decide)
  sees := by
    rw [show Value.field (rawValidated plainRaw "flashinfer_cutlass").raw "vision" =
      .dict [(str "backend", word "fa4"), (str "cuda_graph", .bool false)] by decide]
    exact .mk _ (str "fa4") false (by decide) (by decide) (by decide)
      (by decide)
  pleRssGib := ⟨Or.inr (by decide), ⟨by decide, by simp, by simp⟩⟩
  mmProcessorWorkerNum := ⟨Or.inr (by decide), ⟨by decide, by simp, by simp⟩⟩
  known := by decide
  decodeGraphBackend := ⟨Or.inr (by decide), by decide⟩

theorem marlinRaw_accepted : Runtime.Accepted (rawValidated marlinRaw "marlin") where
  schema := by decide
  mode := by decide
  contextLength := by decide
  maxTotalTokens := by decide
  maxRunningRequests := ⟨Or.inr (by decide), ⟨by decide, by simp, by simp⟩⟩
  chunkedPrefillSize := ⟨Or.inr (by decide), ⟨by decide, by simp, by simp⟩⟩
  maxMambaCacheSize := ⟨Or.inr (by decide), ⟨by simp, by decide, by decide⟩⟩
  memFractionStatic := Or.inr (by decide +kernel)
  kvCacheDtype := ⟨Or.inr (by decide), by decide⟩
  calibrated := by
    rw [show Value.lookup (rawValidated marlinRaw "marlin").raw "kv_calibration" = none by
      decide]
    exact .absent (by decide)
  moeBackend := ⟨Or.inl (by decide), by decide⟩
  speculates := by
    rw [show Value.field (rawValidated marlinRaw "marlin").raw "speculative" = .none by
      decide]
    exact .off (by decide)
  sees := by
    rw [show Value.field (rawValidated marlinRaw "marlin").raw "vision" =
      .dict [(str "backend", word "fa4"), (str "cuda_graph", .bool false)] by decide]
    exact .mk _ (str "fa4") false (by decide) (by decide) (by decide)
      (by decide)
  pleRssGib := ⟨Or.inl (by decide), ⟨by decide, by simp, by simp⟩⟩
  mmProcessorWorkerNum := ⟨Or.inr (by decide), ⟨by decide, by simp, by simp⟩⟩
  known := by decide
  decodeGraphBackend := ⟨Or.inr (by decide), by decide⟩

/-- The texts of strings and of documents without floats. -/
def plainTexts : Interp where
  parseFloat _ := none
  text v := v.asStr?.getD []
  dumps v := Py.write (fun _ => []) Py.Style.plain 0 v.sortKeys
  repr _ := []
  hash _ := []

/-- A manifest with the snapshot of a profile and a lever. -/
def manifestOf (raw : Fields) (lever : Value) : Fields :=
  [(str "model_sha", word "0a1b"), (str "image_id", word "sha256:0a1b"),
    (str "source_tree", word "0a1b"), (str "tokenizer", word "0a1b"),
    (str "input_token_sha", word "0a1b"), (str "sampling", .dict [(str "temperature", .int 0)]),
    (str "context", .int 32768), (str "total_pool", .int 32768), (str "concurrency", .int 1),
    (str "runtime_context", .dict [(str "profile", .dict raw)]), (str "lever", lever)]

theorem eq_ok_of_toOption {ε α : Type} {x : Except ε α} {a : α} (h : x.toOption = some a) :
    x = .ok a := by
  cases x with
  | ok b => exact congrArg _ (Option.some.inj h)
  | error e => cases h

theorem profileOf_context {raw : Fields} {moeBackend : String}
    (h : Runtime.Accepted (rawValidated raw moeBackend))
    (hdistinct : (Value.dict raw).distinct = true) :
    profileOf plainTexts.env (.dict [(str "profile", .dict raw)]) =
      .ok (Runtime.profileOf (rawValidated raw moeBackend)).asDict := by
  have hprofile : Runtime.profileFromDict plainTexts.repr (.dict raw) = .ok _ :=
    Runtime.profileFromDict_of_accepted h hdistinct
  have hlookup : Value.lookup [(str "profile", Value.dict raw)] "profile" = some (.dict raw) :=
    lookup_self _ _ _
  simp only [profileOf, Effect.bind_ok, orReject_ok, Value.asDict?_eq_some]
  refine ⟨_, rfl, _, hlookup, ?_⟩
  show profileFields plainTexts (.dict raw) = _
  unfold profileFields
  rw [hprofile]

theorem checkProfiles_marlin : checkProfiles plainTexts.env (str "moe_backend")
    (.dict [(str "profile", .dict plainRaw)]) (.dict [(str "profile", .dict marlinRaw)]) =
      .ok () := by
  unfold checkProfiles
  rw [if_neg (by decide), profileOf_context plainRaw_accepted (by decide),
    profileOf_context marlinRaw_accepted (by decide)]
  exact eq_ok_of_toOption (by decide +kernel)

theorem checkParity_marlin : checkParity plainTexts.env (manifestOf plainRaw .none)
    (manifestOf marlinRaw (word "moe_backend")) = .ok ⟨word "none", word "moe_backend"⟩ := by
  have hbase : Value.field (manifestOf plainRaw .none) "runtime_context" =
      .dict [(str "profile", .dict plainRaw)] := by decide
  have hcand : Value.field (manifestOf marlinRaw (word "moe_backend")) "runtime_context" =
      .dict [(str "profile", .dict marlinRaw)] := by decide
  simp only [checkParity, Effect.bind_ok, rejectIf_ok, Effect.reject_ok, orReject_ok,
    Effect.pure_ok, hbase, hcand]
  exact ⟨(), by decide +kernel, (), by decide +kernel, (), by decide +kernel, str "moe_backend",
    by decide, (), by decide, (), by decide, (), checkProfiles_marlin, (),
    eq_ok_of_toOption (by decide), congrArg₂ Parity.mk (by decide) rfl⟩

theorem parity_launches_marlin :
    ∃ lever p q, word "moe_backend" = .str lever ∧
      ProfileIn plainTexts (manifestOf plainRaw .none) p ∧
      ProfileIn plainTexts (manifestOf marlinRaw (word "moe_backend")) q ∧
      ∀ (rt : Runtime.Interp) (sources : Value) (sha : Str), checkedSources sources = .ok sha →
        ∃ argv argv' env env', buildArgv rt p sources = .ok argv ∧
          buildArgv rt q sources = .ok argv' ∧ buildEnv rt p sources = .ok env ∧
          buildEnv rt q sources = .ok env' ∧
          (lever = str "nextn" → env' = env ∧ ∃ added, argv' = argv ++ added ∧ added ≠ [] ∧
            ∀ v ∈ added, isFlag v = true → isSpeculative v = true) ∧
          (lever ≠ str "nextn" → ∃ r, Replaced (leverField lever) p q r ∧
            argv' = argvOf rt r sha ∧ env' = envOf rt r sha) := by
  have hcontext : Value.field (manifestOf plainRaw .none) "runtime_context" ≠ .none := by
    decide
  obtain ⟨lever, p, q, hlever, hrest⟩ := parity_launches checkParity_marlin (Or.inl hcontext)
  have hsame : Value.field (manifestOf marlinRaw (word "moe_backend")) "lever" =
      word "moe_backend" := by decide
  exact ⟨lever, p, q, hsame.symm.trans hlever, hrest⟩

end Compare
end FlashNext
