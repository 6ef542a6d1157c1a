import FlashNext.Runtime.Launch

/-!
# The canonical form of a profile

`to_json` and `digest` write the raw document with its keys in order.  The text of a profile is
read back as the profile, and the digest tells the documents apart that Python's `==` tells apart,
whatever texts they were read from (`profile_canonical`).
-/

namespace FlashNext
namespace Runtime

open Effect
open Py (Str Value str)
open Py.Argv

section

variable (interp : Interp)

/-- `Profile.to_json`. -/
def Profile.toJson (p : Profile) : Str :=
  Py.write interp.text (Py.Style.indented 2) 0 (Value.sortKeys (.dict p.raw))

/-- `Profile.digest`. -/
def Profile.digest (sha256 : Text.Bytes → Str) (p : Profile) : Str :=
  sha256 (Py.encodeUtf8
    (Py.write interp.text Py.Style.compact 0 (Value.sortKeys (.dict p.raw))))

end

/-- The document with its keys in order. -/
def Validated.sorted (p : Validated) : Validated :=
  { p with raw := Value.sortKeysFields p.raw }

/-- The profile with the keys of its document in order. -/
def Profile.sorted (p : Profile) : Profile :=
  { p with raw := Value.sortKeysFields p.raw }

/-! ## What the order of the keys leaves as it is -/

theorem OrDefault.sorted {raw : Fields} {key : String} {default value : Value}
    (h : OrDefault raw key default value) (hvalue : Value.sortKeys value = value) :
    OrDefault (Value.sortKeysFields raw) key default value := by
  unfold OrDefault at h ⊢
  rw [Value.lookup_sortKeysFields]
  cases h with
  | inl h =>
    rw [h]
    exact Or.inl (congrArg some hvalue)
  | inr h =>
    rw [h.1]
    exact Or.inr ⟨rfl, h.2⟩

theorem lookup_sorted {raw : Fields} {key : String} {value : Value}
    (h : Value.lookup raw key = some value) :
    Value.lookup (Value.sortKeysFields raw) key = some (Value.sortKeys value) := by
  rw [Value.lookup_sortKeysFields, h]
  rfl

theorem keys_sorted {raw : Fields} {key : Str} :
    key ∈ (Value.sortKeysFields raw).map (·.1) ↔ key ∈ raw.map (·.1) :=
  (Value.keys_sortKeysFields raw).mem_iff

theorem hasExactly_sorted {fields : Fields} {keys : List String}
    (h : hasExactly fields keys = true) :
    hasExactly (Value.sortKeysFields fields) keys = true := by
  simp only [hasExactly, Bool.and_eq_true, List.all_eq_true, decide_eq_true_eq] at h ⊢
  refine ⟨?_, ?_⟩
  · intro f hf
    obtain ⟨g, hg, rfl⟩ := Value.mem_sortKeysFields.mp hf
    exact h.1 g hg
  · intro key hkey
    rw [Value.lookup_sortKeysFields, Option.isSome_map]
    exact h.2 key hkey

theorem Calibrated.sorted {dtype : Str} {v : Option Value} (h : Calibrated dtype v) :
    Calibrated dtype (v.map Value.sortKeys) := by
  cases h with
  | absent hdtype => exact .absent hdtype
  | collect fields hmode hkeys hdtype =>
    exact .collect _ (lookup_sorted hmode) (hasExactly_sorted hkeys) hdtype
  | frozen fields file sha256 hmode hkeys hdtype hfile hsafe hsha256 hhex =>
    exact .frozen _ file sha256 (lookup_sorted hmode) (hasExactly_sorted hkeys) hdtype
      (lookup_sorted hfile) hsafe (lookup_sorted hsha256) hhex

theorem Speculates.sorted {mode kvDtype : Str} {v : Value} (h : Speculates mode kvDtype v) :
    Speculates mode kvDtype (Value.sortKeys v) := by
  cases h with
  | off hmode => exact .off hmode
  | on fields steps draft quantization hmode hkeys hsteps hrange hdraft hquantization =>
    refine .on _ steps draft quantization hmode ?_ (lookup_sorted hsteps) hrange
      ⟨hdraft.1.sorted rfl, hdraft.2⟩ ⟨hquantization.1.sorted rfl, hquantization.2⟩
    intro key hkey
    exact hkeys key (keys_sorted.mp hkey)

theorem Sees.sorted {v : Value} (h : Sees v) : Sees (Value.sortKeys v) := by
  cases h with
  | mk fields backend cudaGraph hkeys hbackend hallowed hgraph =>
    exact .mk _ backend cudaGraph (hasExactly_sorted hkeys) (lookup_sorted hbackend) hallowed
      (lookup_sorted hgraph)

theorem Accepted.sorted {p : Validated} (h : Accepted p) : Accepted p.sorted where
  schema := ⟨lookup_sorted h.schema.1, h.schema.2⟩
  mode := ⟨lookup_sorted h.mode.1, h.mode.2⟩
  contextLength := ⟨lookup_sorted h.contextLength.1, h.contextLength.2⟩
  maxTotalTokens := ⟨lookup_sorted h.maxTotalTokens.1, h.maxTotalTokens.2⟩
  maxRunningRequests := ⟨h.maxRunningRequests.1.sorted rfl, h.maxRunningRequests.2⟩
  chunkedPrefillSize := ⟨h.chunkedPrefillSize.1.sorted rfl, h.chunkedPrefillSize.2⟩
  maxMambaCacheSize := ⟨h.maxMambaCacheSize.1.sorted rfl, h.maxMambaCacheSize.2⟩
  memFractionStatic := by
    cases h.memFractionStatic with
    | inl hfraction => exact Or.inl ⟨lookup_sorted hfraction.1, hfraction.2⟩
    | inr hdefault =>
      refine Or.inr ⟨?_, hdefault.2⟩
      show Value.lookup (Value.sortKeysFields p.raw) _ = none
      rw [Value.lookup_sortKeysFields, hdefault.1]
      rfl
  kvCacheDtype := ⟨h.kvCacheDtype.1.sorted rfl, h.kvCacheDtype.2⟩
  calibrated := by
    show Calibrated _ (Value.lookup (Value.sortKeysFields p.raw) _)
    rw [Value.lookup_sortKeysFields]
    exact h.calibrated.sorted
  moeBackend := ⟨h.moeBackend.1.sorted rfl, h.moeBackend.2⟩
  speculates := by
    show Speculates _ _ (Value.field (Value.sortKeysFields p.raw) _)
    rw [Value.field_sortKeysFields]
    exact h.speculates.sorted
  sees := by
    show Sees (Value.field (Value.sortKeysFields p.raw) _)
    rw [Value.field_sortKeysFields]
    exact h.sees.sorted
  pleRssGib := ⟨h.pleRssGib.1.sorted rfl, h.pleRssGib.2⟩
  mmProcessorWorkerNum := ⟨h.mmProcessorWorkerNum.1.sorted rfl, h.mmProcessorWorkerNum.2⟩
  known := fun key hkey => h.known key (keys_sorted.mp hkey)
  decodeGraphBackend := ⟨h.decodeGraphBackend.1.sorted rfl, h.decodeGraphBackend.2⟩

theorem distinct_sorted {p : Validated} (h : (Value.dict p.raw).distinct = true) :
    (Value.dict p.sorted.raw).distinct = true :=
  (Value.distinct_sortKeys (.dict p.raw)).trans h

/-! ## The same profile -/

theorem objectOf_sorted (v : Value) :
    objectOf (Value.sortKeys v) = Value.sortKeysFields (objectOf v) := by
  cases v <;> rfl

theorem asInt?_sorted (v : Value) : (Value.sortKeys v).asInt? = v.asInt? := by
  cases v <;> rfl

theorem truthy_sorted (v : Value) : (Value.sortKeys v).truthy = v.truthy := by
  cases v with
  | list xs => cases xs <;> rfl
  | dict fs =>
    have hlength := (Value.keys_sortKeysFields fs).length_eq
    rw [List.length_map, List.length_map] at hlength
    cases fs with
    | nil => rfl
    | cons f fs =>
      have hne : Value.sortKeysFields (f :: fs) ≠ [] := by
        rw [← List.length_pos_iff, hlength]
        simp
      simp [Value.sortKeys, Value.truthy, hne]
  | _ => rfl

/-- The values of a consistent profile are not objects, so sorting leaves them. -/
theorem Consistent.sortKeys {p : Profile} (h : Consistent p) :
    Value.sortKeys p.visionBackend = p.visionBackend ∧
      Value.sortKeys p.kvCalibrationMode = p.kvCalibrationMode ∧
      Value.sortKeys p.kvScaleFile = p.kvScaleFile ∧
      Value.sortKeys p.kvScaleSha256 = p.kvScaleSha256 ∧
      Value.sortKeys p.draftKvCacheDtype = p.draftKvCacheDtype ∧
      Value.sortKeys p.draftQuantization = p.draftQuantization := by
  refine ⟨?_, ?_, ?_, ?_, ?_, ?_⟩
  · obtain ⟨backend, _, hbackend⟩ := h.vision
    rw [hbackend]
    rfl
  · cases h.calibration with
    | absent _ hmode => rw [hmode]; rfl
    | collect _ hmode => rw [hmode]; rfl
    | frozen _ _ _ hmode => rw [hmode]; rfl
  · cases h.calibration with
    | absent _ _ hfile => rw [hfile]; rfl
    | collect _ _ hfile => rw [hfile]; rfl
    | frozen _ _ _ _ hfile => rw [hfile]; rfl
  · cases h.calibration with
    | absent _ _ _ hsha256 => rw [hsha256]; rfl
    | collect _ _ _ hsha256 => rw [hsha256]; rfl
    | frozen _ _ _ _ _ _ hsha256 => rw [hsha256]; rfl
  · cases h.speculation with
    | off _ _ hdraft => rw [hdraft]; rfl
    | on _ _ hdraft =>
      obtain hdraft | hdraft | ⟨hdraft, _⟩ := hdraft
      all_goals rw [hdraft]; rfl
  · cases h.speculation with
    | off _ _ _ hquantization => rw [hquantization]; rfl
    | on _ _ _ hquantization =>
      obtain ⟨s, _, hs⟩ := hquantization
      rw [hs]
      rfl

theorem profileOf_sorted {p : Validated} (h : Accepted p) :
    profileOf p.sorted = (profileOf p).sorted := by
  obtain ⟨hvision, hmode, hfile, hsha256, hdraft, hquantization⟩ :=
    (consistent_profileOf h).sortKeys
  have hobject : ∀ key, objectOf (Value.field p.sorted.raw key) =
      Value.sortKeysFields (objectOf (Value.field p.raw key)) := by
    intro key
    show objectOf (Value.field (Value.sortKeysFields p.raw) key) = _
    rw [Value.field_sortKeysFields, objectOf_sorted]
  have hlookup : (Value.lookup (Value.sortKeysFields (objectOf (Value.field p.raw "speculative")))
      "draft_quantization").getD (.str (str "modelopt_mixed")) =
        Value.sortKeys (profileOf p).draftQuantization := by
    rw [Value.lookup_sortKeysFields]
    simp only [profileOf]
    cases Value.lookup (objectOf (Value.field p.raw "speculative")) "draft_quantization" <;> rfl
  simp only [profileOf] at hvision hmode hfile hsha256 hdraft hquantization
  simp only [profileOf, Profile.sorted, hobject, Value.field_sortKeysFields, asInt?_sorted,
    truthy_sorted, hlookup, hvision, hmode, hfile, hsha256, hdraft, hquantization]
  rfl

/-! ## The canonical text -/

section

variable {interp : Interp} {sha256 : Text.Bytes → Str}

/-- The sorted document of a profile is read back from its text in any layout. -/
theorem loadable_sorted (hlaws : FloatLaws interp) {p : Validated} (h : Accepted p)
    (hread : Py.FloatsRead interp.read (.dict p.raw))
    (hdistinct : (Value.dict p.raw).distinct = true) :
    Py.Loadable interp.read interp.text (Value.sortKeys (.dict p.raw)) :=
  (admitted_of_accepted h.sorted (distinct_sorted hdistinct) (fraction_text hlaws h hread)
    []).loadable

theorem digest_sorted (p : Profile) :
    p.sorted.digest interp sha256 = p.digest interp sha256 := by
  have hsorted : Value.sortKeys (.dict p.sorted.raw) = Value.sortKeys (.dict p.raw) :=
    Value.sortKeys_sortKeys (.dict p.raw)
  rw [Profile.digest, hsorted, Profile.digest]

/-- The text of a profile is read back as the profile. -/
theorem profileFromJson_toJson (hlaws : FloatLaws interp) {p : Validated} (h : Accepted p)
    (hread : Py.FloatsRead interp.read (.dict p.raw))
    (hdistinct : (Value.dict p.raw).distinct = true) :
    profileFromJson interp ((profileOf p).toJson interp) = .ok (profileOf p).sorted := by
  have hloads : Py.loads interp.read ((profileOf p).toJson interp) = .ok (.dict p.sorted.raw) :=
    Py.loads_write (Py.Style.indented_spaced 2) (loadable_sorted hlaws h hread hdistinct)
  rw [← profileOf_sorted h]
  exact profileFromJson_ok.mpr ⟨hloads, h.sorted, rfl⟩

/-- The digests of two documents are the same only if their sorted forms are. -/
theorem digest_eq_iff (hsha256 : Function.Injective sha256) {p q : Profile}
    (hp : Py.Loadable interp.read interp.text (Value.sortKeys (.dict p.raw)))
    (hq : Py.Loadable interp.read interp.text (Value.sortKeys (.dict q.raw))) :
    p.digest interp sha256 = q.digest interp sha256 ↔
      Value.sortKeys (.dict p.raw) = Value.sortKeys (.dict q.raw) := by
  unfold Profile.digest
  constructor
  · intro h
    have hbytes := hsha256 h
    have htext := Py.encodeUtf8_inj (Py.ascii_write Py.Style.compact_spaced _ 0 hp)
      (Py.ascii_write Py.Style.compact_spaced _ 0 hq) hbytes
    exact Py.write_inj Py.Style.compact_spaced hp hq htext
  · intro h
    rw [h]

/-- Only the document of a sorted profile is another. -/
theorem differs_sorted {p : Profile} (h : Consistent p) : differs p.sorted p = false := by
  have hraw : (str "raw" != str "raw") = false := by simp
  have hself := differs_self h
  simp only [differs, Profile.asDict, Profile.sorted, List.zip_cons_cons, List.any_cons, hraw,
    Bool.false_and] at hself ⊢
  exact hself

/-- `==` tells two accepted documents apart iff their sorted forms differ. -/
theorem eqv_iff_sorted {p q : Validated} (hp : Accepted p) (hq : Accepted q)
    (hpdistinct : (Value.dict p.raw).distinct = true)
    (hqdistinct : (Value.dict q.raw).distinct = true) :
    (Value.dict p.raw).eqv (.dict q.raw) = true ↔
      Value.sortKeys (.dict p.raw) = Value.sortKeys (.dict q.raw) := by
  have hadmitted : Admitted (fun _ => True) [] (.dict p.raw) :=
    admitted_of_accepted hp hpdistinct trivial []
  rw [Value.eqv_iff, hadmitted.canon_eq_iff (admitted_of_accepted hq hqdistinct trivial [])]
  simp

/-- The text of a profile is read back as an equal profile with its digest, and two texts have one
digest iff the objects parsed from them are equal. -/
theorem profile_canonical (hlaws : FloatLaws interp) (hsha256 : Function.Injective sha256)
    {s t : Str} {p q : Profile} (hs : profileFromJson interp s = .ok p)
    (ht : profileFromJson interp t = .ok q) :
    (profileFromJson interp (p.toJson interp) = .ok p.sorted ∧
      differs p.sorted p = false ∧ (Value.dict p.sorted.raw).eqv (.dict p.raw) = true ∧
      p.sorted.digest interp sha256 = p.digest interp sha256) ∧
    ∃ v w, Py.loads interp.read s = .ok v ∧ Py.loads interp.read t = .ok w ∧
      (p.digest interp sha256 = q.digest interp sha256 ↔ v.eqv w = true) := by
  obtain ⟨hreadS, hp, hprofile⟩ := profileFromJson_ok.mp hs
  obtain ⟨hreadT, hq, hother⟩ := profileFromJson_ok.mp ht
  obtain ⟨hpdistinct, hpfloats⟩ := Py.loads_read hreadS
  obtain ⟨hqdistinct, hqfloats⟩ := Py.loads_read hreadT
  have hploadable := loadable_sorted hlaws hp hpfloats hpdistinct
  have hqloadable := loadable_sorted hlaws hq hqfloats hqdistinct
  refine ⟨⟨?_, ?_, ?_, digest_sorted p⟩, .dict p.raw, .dict q.raw, hreadS, hreadT, ?_⟩
  · have hback := profileFromJson_toJson hlaws hp hpfloats hpdistinct
    rwa [← hprofile] at hback
  · have hconsistent := consistent_profileOf hp
    rw [← hprofile] at hconsistent
    exact differs_sorted hconsistent
  · exact (eqv_iff_sorted hp.sorted hp (distinct_sorted hpdistinct) hpdistinct).mpr
      (Value.sortKeys_sortKeys (.dict p.raw))
  · rw [digest_eq_iff hsha256 hploadable hqloadable,
      eqv_iff_sorted hp hq hpdistinct hqdistinct]

end

/-- The same document in another layout and with its keys in order. -/
def indentedPayload : Str :=
  Py.write twoFloats.text (Py.Style.indented 4) 0 (Value.sortKeys (.dict frozenRaw))

theorem frozenRaw_loadable : Py.Loadable twoFloats.read twoFloats.text
    (Value.sortKeys (.dict frozenRaw)) := by
  refine Admitted.loadable (admitted_of_accepted frozenValidated_accepted.sorted ?_ ?_ [])
  · decide
  · exact twoFloats_laws.fraction (str "0.75") (3 / 4) (by decide +kernel)
      (by norm_num [memFractionStaticMin]) (by norm_num [memFractionStaticMax])

theorem profile_canonical_frozen :
    (profileFromJson twoFloats ((profileOf frozenValidated).toJson twoFloats) =
        .ok (profileOf frozenValidated).sorted ∧
      differs (profileOf frozenValidated).sorted (profileOf frozenValidated) = false ∧
      (Value.dict (profileOf frozenValidated).sorted.raw).eqv
        (.dict (profileOf frozenValidated).raw) = true ∧
      (profileOf frozenValidated).sorted.digest twoFloats (·.map UInt8.toNat) =
        (profileOf frozenValidated).digest twoFloats (·.map UInt8.toNat)) ∧
    ∃ v w, Py.loads twoFloats.read frozenPayload = .ok v ∧
      Py.loads twoFloats.read indentedPayload = .ok w ∧
      ((profileOf frozenValidated).digest twoFloats (·.map UInt8.toNat) =
        (profileOf frozenValidated.sorted).digest twoFloats (·.map UInt8.toNat) ↔
          v.eqv w = true) := by
  have hplain := (validateText_ok.mp frozenPayload_accepted).1
  have hindented : Py.loads twoFloats.read indentedPayload =
      .ok (Value.sortKeys (.dict frozenRaw)) :=
    Py.loads_write (Py.Style.indented_spaced 4) frozenRaw_loadable
  exact profile_canonical twoFloats_laws
    (List.map_injective_iff.mpr fun _ _ h => UInt8.toNat_inj.mp h)
    (profileFromJson_ok.mpr ⟨hplain, frozenValidated_accepted, rfl⟩)
    (profileFromJson_ok.mpr ⟨hindented, frozenValidated_accepted.sorted, rfl⟩)

end Runtime
end FlashNext
