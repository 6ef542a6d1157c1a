import FlashNext.Runtime.Admitted

/-!
# The profile of a text

`validate_payload` reads a text and checks the document.  What it lets through makes a profile,
and what the profile says of its speculation, its vision and its calibration is in `Consistent`.
-/

namespace FlashNext
namespace Runtime

open Effect
open Py (Str Value str)

/-- What the interpreter supplies: the texts of values and of its own errors, and the floats. -/
structure Interp where
  repr : Value → Str
  decodeError : Str → Str
  read : Str → Option ℚ
  text : ℚ → Str

/-- `validate_payload`. -/
def validateText (interp : Interp) (payload : Str) : Check Validated :=
  match Py.loads interp.read payload with
  | .ok v => validateDocument interp.repr v
  | .error .malformed => fail (str "profile is not valid JSON: " ++ interp.decodeError payload)
  | .error .digits => .error (.other "ValueError")
  | .error (.constant name) =>
    fail (str "nonfinite JSON number " ++ interp.repr (.str name) ++ str " is not allowed")
  | .error (.duplicate key) => fail (str "duplicate JSON field " ++ interp.repr (.str key))

/-- `profile_from_json`. -/
def profileFromJson (interp : Interp) (payload : Str) : Check Profile := do
  let validated ← validateText interp payload
  profileFromDict interp.repr (.dict validated.raw)

/-- The profile of a validated document. -/
def profileOf (validated : Validated) : Profile :=
  let speculative := objectOf (Value.field validated.raw "speculative")
  let vision := objectOf (Value.field validated.raw "vision")
  let calibration := objectOf (Value.field validated.raw "kv_calibration")
  { toValidated := validated
    speculativeSteps := (Value.field speculative "steps").asInt?.getD 0
    visionBackend := Value.field vision "backend"
    visionCudaGraph := (Value.field vision "cuda_graph").truthy
    kvCalibrationMode := Value.field calibration "mode"
    kvScaleFile := Value.field calibration "file"
    kvScaleSha256 := Value.field calibration "sha256"
    draftKvCacheDtype := Value.field speculative "kv_cache_dtype"
    draftQuantization :=
      (Value.lookup speculative "draft_quantization").getD (.str (str "modelopt_mixed")) }

theorem validateText_ok {interp : Interp} {payload : Str} {p : Validated} :
    validateText interp payload = .ok p ↔
      Py.loads interp.read payload = .ok (.dict p.raw) ∧ Accepted p := by
  unfold validateText
  split
  · next v hv =>
    rw [validateDocument_ok, hv, Except.ok.injEq]
  all_goals
    next e he =>
    rw [he]
    exact iff_of_false (by simp [fail]) (by simp)

/-- A document that is let through is let through again, as it is, by way of its text. -/
theorem validatePayload_of_accepted {repr : Value → Str} {p : Validated} (h : Accepted p)
    (hdistinct : (Value.dict p.raw).distinct = true) :
    validatePayload repr (.dict p.raw) = .ok p := by
  have hadmitted : Admitted (fun _ => True) [] (.dict p.raw) :=
    admitted_of_accepted h hdistinct trivial []
  simp only [validatePayload, hadmitted.reload, bind_ok, reject_ok, validateDocument_ok,
    hadmitted.prints, hadmitted.dumps, hdistinct]
  exact ⟨(), rfl, (), rfl, (), rfl, trivial, h⟩

theorem profileFromDict_of_accepted {repr : Value → Str} {p : Validated} (h : Accepted p)
    (hdistinct : (Value.dict p.raw).distinct = true) :
    profileFromDict repr (.dict p.raw) = .ok (profileOf p) := by
  unfold profileFromDict
  rw [validatePayload_of_accepted h hdistinct]
  rfl

/-- The other direction: a profile is that of an accepted document. -/
theorem profileFromDict_ok {repr : Value → Str} {v : Value} {profile : Profile}
    (h : profileFromDict repr v = .ok profile) :
    profile = profileOf profile.toValidated ∧ Accepted profile.toValidated ∧
      (Value.dict profile.raw).distinct = true := by
  unfold profileFromDict at h
  obtain ⟨p, hp, hprofile⟩ := bind_ok.mp h
  have hprofile : profileOf p = profile := Except.ok.inj hprofile
  have hvalidated : profile.toValidated = p := by
    rw [← hprofile]
    rfl
  simp only [validatePayload, bind_ok, reject_ok, validateDocument_ok, Bool.not_eq_false'] at hp
  obtain ⟨_, _, _, _, _, hdistinct, hreload, haccepted⟩ := hp
  rw [hreload] at hdistinct
  rw [hvalidated]
  exact ⟨hprofile.symm, haccepted, hdistinct⟩

theorem profileFromJson_ok {interp : Interp} {payload : Str} {profile : Profile} :
    profileFromJson interp payload = .ok profile ↔
      Py.loads interp.read payload = .ok (.dict profile.raw) ∧ Accepted profile.toValidated ∧
        profile = profileOf profile.toValidated := by
  simp only [profileFromJson, bind_ok, validateText_ok]
  constructor
  · intro h
    obtain ⟨p, ⟨hloads, haccepted⟩, hprofile⟩ := h
    have hdistinct := (Py.loads_read hloads).1
    rw [profileFromDict_of_accepted haccepted hdistinct, Except.ok.injEq] at hprofile
    subst hprofile
    exact ⟨hloads, haccepted, rfl⟩
  · intro h
    obtain ⟨hloads, haccepted, hprofile⟩ := h
    refine ⟨profile.toValidated, ⟨hloads, haccepted⟩, ?_⟩
    have hdistinct := (Py.loads_read hloads).1
    rw [profileFromDict_of_accepted haccepted hdistinct, ← hprofile]

/-! ## What a profile says -/

/-- The speculation of a profile. -/
inductive Speculation (p : Profile) : Prop
  | off (hmode : p.mode = str "ar") (hsteps : p.speculativeSteps = 0)
      (hdraft : p.draftKvCacheDtype = .none)
      (hquantization : p.draftQuantization = .str (str "modelopt_mixed")) : Speculation p
  | on (hmode : p.mode = str "nextn") (hsteps : 1 ≤ p.speculativeSteps ∧ p.speculativeSteps ≤ 3)
      (hdraft : p.draftKvCacheDtype = .none ∨ p.draftKvCacheDtype = .str (str "bf16") ∨
        (p.draftKvCacheDtype = .str (str "nvfp4") ∧ p.kvCacheDtype = str "nvfp4"))
      (hquantization : ∃ s ∈ draftQuantizations.map str, p.draftQuantization = .str s) :
      Speculation p

/-- The calibration of a profile. -/
inductive Calibration (p : Profile) : Prop
  | absent (hdtype : p.kvCacheDtype ≠ str "nvfp4") (hmode : p.kvCalibrationMode = .none)
      (hfile : p.kvScaleFile = .none) (hsha256 : p.kvScaleSha256 = .none) : Calibration p
  | collect (hdtype : p.kvCacheDtype = str "bf16")
      (hmode : p.kvCalibrationMode = .str (str "collect")) (hfile : p.kvScaleFile = .none)
      (hsha256 : p.kvScaleSha256 = .none) : Calibration p
  | frozen (file sha256 : Str) (hdtype : p.kvCacheDtype = str "nvfp4")
      (hmode : p.kvCalibrationMode = .str (str "frozen")) (hfile : p.kvScaleFile = .str file)
      (hsafe : isSafeBasename file = true) (hsha256 : p.kvScaleSha256 = .str sha256)
      (hhex : isSha256 sha256 = true) : Calibration p

/-- What the profile of an accepted document says. -/
structure Consistent (p : Profile) : Prop where
  accepted : Accepted p.toValidated
  vision : ∃ backend ∈ visionBackends.map str, p.visionBackend = .str backend
  speculation : Speculation p
  calibration : Calibration p

theorem field_none {raw : Fields} {key : String} (h : Value.lookup raw key = none) :
    Value.field raw key = .none := by
  rw [Value.field, h]
  rfl

/-- Nothing but the keys of an exact object has a value. -/
theorem lookup_of_not_mem {fields : Fields} {keys : List String} {key : String}
    (h : hasExactly fields keys = true) (hkey : str key ∉ keys.map str) :
    Value.lookup fields key = none := by
  unfold Value.lookup
  rw [Option.map_eq_none_iff, List.find?_eq_none]
  intro f hf hsame
  exact hkey (eq_of_beq hsame ▸ keys_of_hasExactly h f hf)

theorem Speculates.speculation {p : Validated} (hmode : p.mode ∈ modes.map str)
    (h : Speculates p.mode p.kvCacheDtype (Value.field p.raw "speculative")) :
    Speculation (profileOf p) := by
  generalize hv : Value.field p.raw "speculative" = v at h
  cases h with
  | off hoff =>
    have har : p.mode = str "ar" := by
      simpa [modes, hoff] using hmode
    refine .off har ?_ ?_ ?_ <;> simp only [profileOf, hv, objectOf] <;> rfl
  | on fields steps draft quantization hnextn hkeys hsteps hrange hdraft hquantization =>
    have hobject : objectOf (Value.field p.raw "speculative") = fields := by
      rw [hv]
      rfl
    refine .on hnextn ?_ ?_ ?_
    · simp only [profileOf, hobject, field_some hsteps, Value.asInt?, Option.getD_some]
      exact hrange
    · simp only [profileOf, hobject]
      obtain ⟨hdefault, hallowed, hfrozen⟩ := hdraft
      cases hdefault with
      | inl hsome =>
        rw [field_some hsome]
        have hwords : draft = str "bf16" ∨ draft = str "nvfp4" := by simpa using hallowed
        cases hwords with
        | inl hbf16 => exact Or.inr (Or.inl (by rw [hbf16]))
        | inr hnvfp4 => exact Or.inr (Or.inr ⟨by rw [hnvfp4], hfrozen hnvfp4⟩)
      | inr hnone => exact Or.inl (field_none hnone.1)
    · simp only [profileOf, hobject]
      obtain ⟨hdefault, hallowed⟩ := hquantization
      cases hdefault with
      | inl hsome => exact ⟨quantization, hallowed, by rw [hsome]; rfl⟩
      | inr hnone => exact ⟨quantization, hallowed, by rw [hnone.1, hnone.2]; rfl⟩

theorem Calibrated.calibration {p : Validated}
    (h : Calibrated p.kvCacheDtype (Value.lookup p.raw "kv_calibration")) :
    Calibration (profileOf p) := by
  generalize hv : Value.lookup p.raw "kv_calibration" = v at h
  cases h with
  | absent hdtype =>
    refine .absent hdtype ?_ ?_ ?_ <;> simp only [profileOf, field_none hv, objectOf] <;> rfl
  | collect fields hmode hkeys hdtype =>
    have hobject : objectOf (Value.field p.raw "kv_calibration") = fields := by
      rw [field_some hv]
      rfl
    refine .collect hdtype ?_ ?_ ?_
    · simp only [profileOf, hobject, field_some hmode]
    · simp only [profileOf, hobject]
      exact field_none (lookup_of_not_mem hkeys (by decide))
    · simp only [profileOf, hobject]
      exact field_none (lookup_of_not_mem hkeys (by decide))
  | frozen fields file sha256 hmode hkeys hdtype hfile hsafe hsha256 hhex =>
    have hobject : objectOf (Value.field p.raw "kv_calibration") = fields := by
      rw [field_some hv]
      rfl
    refine .frozen file sha256 hdtype ?_ ?_ hsafe ?_ hhex
    · simp only [profileOf, hobject, field_some hmode]
    · simp only [profileOf, hobject, field_some hfile]
    · simp only [profileOf, hobject, field_some hsha256]

theorem consistent_profileOf {p : Validated} (h : Accepted p) : Consistent (profileOf p) where
  accepted := h
  vision := by
    have hsees := h.sees
    generalize hv : Value.field p.raw "vision" = v at hsees
    cases hsees with
    | mk fields backend cudaGraph hkeys hbackend hallowed hgraph =>
      refine ⟨backend, hallowed, ?_⟩
      simp only [profileOf, hv, objectOf, Value.asDict?, Option.getD_some, field_some hbackend]
  speculation := h.speculates.speculation h.mode.2
  calibration := h.calibrated.calibration

end Runtime
end FlashNext
