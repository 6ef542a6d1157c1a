import FlashNext.Compare.Closed
import FlashNext.Runtime.Profile

/-!
# The manifests that the reducer handles

The profiles, the parity of the manifests and the binding of a lane, and what their checks need of
the values they reach.
-/

namespace FlashNext
namespace Compare

open Py (Str Value str)

/-- What the interpreter supplies: the floats and the texts of values, and the SHA-256 of a
value's canonical text. -/
structure Interp where
  parseFloat : Str → Option Double
  text : Value → Str
  dumps : Value → Str
  repr : Value → Str
  hash : Value → Str

/-- The runtime profile of a snapshot, as the comparison reads it. -/
def profileFields (interp : Interp) (v : Value) : Check Fields :=
  match Runtime.profileFromDict interp.repr v with
  | .ok profile => .ok profile.asDict
  | .error (.profile _) => .error (.raised "ProfileError")
  | .error (.other kind) => .error (.raised kind)

/-- The reducer with the canonical digests and the profiles of its own source. -/
def Interp.env (interp : Interp) : Env where
  parseFloat := interp.parseFloat
  text := interp.text
  dumps := interp.dumps
  digest v := if v.dumps then .ok (interp.hash v) else .error (.raised "ValueError")
  profileFromDict := profileFields interp

variable {interp : Interp}

/-! ## Profiles -/

/-- `profile_from_dict` takes the profile. -/
def accepts (interp : Interp) (v : Value) : Bool :=
  (Runtime.profileFromDict interp.repr v).isOk

theorem profileFields_ok {v : Value} {fields : Fields} (h : profileFields interp v = .ok fields) :
    ∃ profile : Runtime.Profile, fields = profile.asDict := by
  rw [profileFields] at h
  split at h
  · next profile _ => exact ⟨profile, (Except.ok.inj h).symm⟩
  · cases h
  · cases h

theorem closed_profileFields {v : Value} :
    Closed (profileFields interp v) ↔ accepts interp v = true := by
  rw [profileFields, accepts]
  cases Runtime.profileFromDict interp.repr v with
  | ok profile => exact iff_of_true (closed_ok _) rfl
  | error e =>
    cases e with
    | profile message => exact iff_of_false (not_closed_raised _) Bool.false_ne_true
    | other kind => exact iff_of_false (not_closed_raised _) Bool.false_ne_true

/-- A snapshot that has a profile has one that `profile_from_dict` takes. -/
def SnapshotUsable (interp : Interp) (context : Value) : Prop :=
  ∀ fields ∈ context.asDict?, ∀ profile ∈ Value.lookup fields "profile",
    accepts interp profile = true

theorem closed_profileOf {context : Value} :
    Closed (profileOf interp.env context) ↔ SnapshotUsable interp context := by
  rw [profileOf, SnapshotUsable, closed_bind]
  cases hcontext : context.asDict? with
  | none => simp [orReject, Effect.orRaise, refusal]
  | some fields =>
    simp only [orReject, Effect.orRaise, closed_ok, true_and, Except.ok.injEq, forall_eq',
      Option.mem_def, Option.some.injEq, closed_bind]
    cases hprofile : Value.lookup fields "profile" with
    | none => simp [refusal]
    | some profile =>
      simp only [closed_ok, true_and, Except.ok.injEq, forall_eq', Option.some.injEq]
      exact closed_profileFields

/-- The names of the fields of every profile. -/
def profileKeys : List Str :=
  ["schema", "mode", "context_length", "max_total_tokens", "max_running_requests",
    "chunked_prefill_size", "max_mamba_cache_size", "mem_fraction_static", "kv_cache_dtype",
    "speculative_steps", "vision_backend", "vision_cuda_graph", "ple_rss_gib",
    "mm_processor_worker_num", "raw", "kv_calibration_mode", "kv_scale_file", "kv_scale_sha256",
    "draft_kv_cache_dtype", "moe_backend", "draft_quantization", "decode_graph_backend"].map str

theorem map_asDict (profile : Runtime.Profile) : profile.asDict.map (·.1) = profileKeys := rfl

theorem lookupStr_isSome {fields : Fields} {key : Str} :
    (lookupStr fields key).isSome = true ↔ key ∈ fields.map (·.1) := by
  rw [lookupStr, Option.isSome_map, List.find?_isSome, List.mem_map]
  simp

theorem lookup_eq_lookupStr (fields : Fields) (key : String) :
    Value.lookup fields key = lookupStr fields (str key) := rfl

/-- A profile without its raw document, as both sides have it. -/
structure Comparable (base cand : Fields) : Prop where
  keys : base.map (·.1) = cand.map (·.1)
  mode : str "mode" ∈ base.map (·.1)

theorem dropRaw_asDict (profile : Runtime.Profile) :
    dropRaw profile.asDict = .ok (profile.asDict.filter fun f => f.1 != str "raw") := by
  have hraw : (Value.lookup profile.asDict "raw").isSome = true := by
    rw [lookup_eq_lookupStr, lookupStr_isSome, map_asDict]
    decide
  obtain ⟨raw, hraw⟩ := Option.isSome_iff_exists.mp hraw
  rw [dropRaw, item, hraw]
  rfl

theorem comparable_asDict (p q : Runtime.Profile) :
    Comparable (p.asDict.filter fun f => f.1 != str "raw")
      (q.asDict.filter fun f => f.1 != str "raw") := by
  have hkeys : ∀ r : Runtime.Profile, (r.asDict.filter fun f => f.1 != str "raw").map (·.1) =
      profileKeys.filter (· != str "raw") := by
    intro r
    rw [← map_asDict r, List.filter_map]
    rfl
  refine ⟨(hkeys p).trans (hkeys q).symm, ?_⟩
  rw [hkeys p]
  decide

theorem closed_allowedFields {lever : Str} {base cand : Fields} (h : Comparable base cand) :
    Closed (allowedFields lever base cand) := by
  have hitem : ∀ fields : Fields, str "mode" ∈ fields.map (·.1) → Closed (item fields "mode") := by
    intro fields hmode
    rw [item, closed_orRaise, lookup_eq_lookupStr, lookupStr_isSome]
    exact hmode
  rw [allowedFields]
  split
  · refine closed_bind.mpr ⟨hitem base h.mode, fun baseMode _ => ?_⟩
    refine closed_seq.mpr ⟨closed_rejectIf.mpr fun _ => rfl, fun _ => ?_⟩
    refine closed_bind.mpr ⟨hitem cand (h.keys ▸ h.mode), fun candMode _ => ?_⟩
    exact closed_seq.mpr ⟨closed_rejectIf.mpr fun _ => rfl, fun _ => closed_pure _⟩
  · refine closed_bind.mpr ⟨closed_orReject.mpr fun _ => rfl, fun baseField hbase => ?_⟩
    have hsome := Option.isSome_iff_exists.mpr ⟨baseField, orReject_ok.mp hbase⟩
    rw [lookupStr_isSome, h.keys, ← lookupStr_isSome] at hsome
    refine closed_bind.mpr ⟨closed_orRaise.mpr hsome, fun candField _ => ?_⟩
    exact closed_seq.mpr ⟨closed_rejectIf.mpr fun _ => rfl, fun _ => closed_pure _⟩

theorem closed_changedFields {base cand : Fields} (h : Comparable base cand) :
    Closed (changedFields base cand) := by
  refine closed_bind.mpr ⟨closed_mapM.mpr ?_, fun _ _ => closed_pure _⟩
  have hall : ∀ f ∈ base, Closed (do
      let other ← Effect.orRaise (lookupStr cand f.1) (Fault.raised "KeyError")
      return (f.1, !f.2.eqv other)) := by
    intro f hf
    have hkey : f.1 ∈ cand.map (·.1) := h.keys ▸ List.mem_map_of_mem hf
    refine closed_bind.mpr ⟨closed_orRaise.mpr (lookupStr_isSome.mpr hkey), fun _ _ => ?_⟩
    exact closed_pure _
  clear h
  induction base with
  | nil => trivial
  | cons f base ih =>
    rw [List.forall_mem_cons] at hall
    exact ⟨hall.1, fun _ => ih hall.2⟩

/-- The snapshots that the comparison of the profiles reaches. -/
def ProfilesUsable (interp : Interp) (base cand : Value) : Prop :=
  (base.isNone && cand.isNone) = false → SnapshotUsable interp base ∧
    (Passes (profileOf interp.env base) → SnapshotUsable interp cand)

theorem profileOf_ok {context : Value} {fields : Fields}
    (h : profileOf interp.env context = .ok fields) :
    ∃ profile : Runtime.Profile, fields = profile.asDict := by
  simp only [profileOf, Effect.bind_ok] at h
  obtain ⟨_, -, profile, -, hfields⟩ := h
  exact profileFields_ok hfields

theorem closed_checkProfiles {lever : Str} {base cand : Value} :
    Closed (checkProfiles interp.env lever base cand) ↔ ProfilesUsable interp base cand := by
  rw [checkProfiles, ProfilesUsable]
  cases hnone : base.isNone && cand.isNone with
  | true => simp
  | false =>
    rw [if_neg Bool.false_ne_true, closed_bind, closed_profileOf]
    refine Iff.trans ?_ (forall_prop_of_true rfl).symm
    refine and_congr_right fun _ => ?_
    have hrest : ∀ b, profileOf interp.env base = .ok b → (Closed (do
        let candFull ← profileOf interp.env cand
        let base ← dropRaw b
        let cand ← dropRaw candFull
        let allowed ← allowedFields lever base cand
        let changed ← changedFields base cand
        rejectIf (!changed.all allowed.contains)
          [.text "undeclared runtime profile changes: ",
            .value (.list
              ((sortedKeys (changed.filter fun key => !allowed.contains key)).map .str))]) ↔
        SnapshotUsable interp cand) := by
      intro b hb
      rw [closed_bind, closed_profileOf]
      refine and_iff_left fun c hc => ?_
      obtain ⟨p, rfl⟩ := profileOf_ok hb
      obtain ⟨q, rfl⟩ := profileOf_ok hc
      have hcomparable := comparable_asDict p q
      rw [dropRaw_asDict, dropRaw_asDict]
      refine closed_bind.mpr ⟨closed_ok _, fun b hb => closed_bind.mpr ⟨closed_ok _, fun c hc => ?_⟩⟩
      obtain rfl := Except.ok.inj hb
      obtain rfl := Except.ok.inj hc
      refine closed_bind.mpr ⟨closed_allowedFields hcomparable, fun allowed _ => ?_⟩
      refine closed_bind.mpr ⟨closed_changedFields hcomparable, fun changed _ => ?_⟩
      refine closed_rejectIf.mpr fun _ => ?_
      have hprints : ∀ keys : List Str, Value.printsItems (keys.map .str) = true := by
        intro keys
        induction keys with
        | nil => rfl
        | cons key keys ih => exact ih
      simp [Value.prints, hprints]
    exact forall_iff_of_exists hrest

/-! ## Parity -/

/-- Both manifests have the required fields. -/
def complete (base cand : Fields) : Bool :=
  (missingKeys base requiredManifestKeys ++ missingKeys cand requiredManifestKeys).isEmpty

/-- `json.dumps` takes the required fields of both. -/
def requiredPrint (base cand : Fields) : Bool :=
  requiredManifestKeys.all fun key =>
    (Value.field base key).prints && (Value.field cand key).prints

/-- The required fields of both have the same text. -/
def sameRequired (env : Env) (base cand : Fields) : Bool :=
  requiredManifestKeys.all fun key =>
    env.dumps (Value.field base key) == env.dumps (Value.field cand key)

/-- The candidate declares a lever. -/
def declaresLever (cand : Fields) : Bool :=
  (Value.field cand "lever").asStr?.any fun s => !s.isEmpty

def unmixed (env : Env) (base cand : Fields) : Bool :=
  (mixedEpochGuard env (Value.field base "lever") (Value.field cand "lever")).isNone

/-- The values of the manifests that the parity checks reach are ones they can use. -/
structure ParityUsable (interp : Interp) (base cand : Fields) : Prop where
  required : complete base cand = true → requiredPrint base cand = true
  lever : complete base cand = true → sameRequired interp.env base cand = true →
    declaresLever cand = true → (Value.field base "lever").prints = true
  profiles : complete base cand = true → sameRequired interp.env base cand = true →
    declaresLever cand = true → unmixed interp.env base cand = true →
    ProfilesUsable interp (Value.field base "runtime_context")
      (Value.field cand "runtime_context")

theorem mixed_prints {env : Env} {base cand : Value} (hbase : base.prints = true)
    (hcand : cand.prints = true) :
    ((mixedEpochGuard env base cand).getD []).all Piece.prints = true := by
  rw [mixedEpochGuard]
  split
  · split
    · rfl
    · simp [hbase, hcand]
  · rfl

theorem closed_checkParity {base cand : Fields} :
    Closed (checkParity interp.env base cand) ↔ ParityUsable interp base cand := by
  have hsame : (!(requiredManifestKeys.filter fun key =>
      interp.env.dumps (Value.field base key) != interp.env.dumps (Value.field cand key)).isEmpty) =
        false ↔ sameRequired interp.env base cand = true := by
    rw [Bool.not_eq_false', List.isEmpty_iff, List.filter_eq_nil_iff, sameRequired, List.all_eq_true]
    refine forall_congr' fun key => imp_congr_right fun _ => ?_
    simp
  have hprint : (requiredManifestKeys.any fun key =>
      !(Value.field base key).prints || !(Value.field cand key).prints) = false ↔
        requiredPrint base cand = true := by
    rw [List.any_eq_false, requiredPrint, List.all_eq_true]
    refine forall_congr' fun key => imp_congr_right fun _ => ?_
    simp
  have hlast : ∀ lever : Str, Closed (do
      ["inputs", "benchmark_module_sha256", "capture_adapter_sha256"].forM fun key =>
        rejectIf (!(Value.field base key).eqv (Value.field cand key))
          [.text "frozen comparison provenance differs: ", .text key]
      return (⟨(Value.field base "lever").orElse (.str (str "none")), .str lever⟩ : Parity)) := by
    intro lever
    rw [closed_seq, closed_forM]
    simp [UpTo]
  have hdeclared : ∀ lever, (Value.field cand "lever").asStr?.filter (fun s => !s.isEmpty) =
      some lever → declaresLever cand = true ∧ (Value.field cand "lever").prints = true := by
    intro lever hlever
    obtain ⟨hstr, hne⟩ := Option.filter_eq_some_iff.mp hlever
    rw [declaresLever, hstr, Value.asStr?_eq_some.mp hstr]
    exact ⟨hne, rfl⟩
  have hlever : declaresLever cand = true →
      ∃ lever, (Value.field cand "lever").asStr?.filter (fun s => !s.isEmpty) = some lever := by
    intro h
    rw [declaresLever, Option.any_eq_true] at h
    obtain ⟨lever, hstr, hne⟩ := h
    exact ⟨lever, Option.filter_eq_some_iff.mpr ⟨hstr, hne⟩⟩
  rw [checkParity]
  dsimp only
  rw [closed_seq, closed_rejectIf, passes_rejectIf, Bool.not_eq_false', closed_seq, closed_reject,
    passes_reject, hprint, closed_seq, closed_rejectIf, passes_rejectIf, hsame, closed_bind]
  constructor
  · rintro ⟨_, h⟩
    have hdeep : complete base cand = true → sameRequired interp.env base cand = true →
        declaresLever cand = true → (Value.field base "lever").prints = true ∧
          (unmixed interp.env base cand = true → ProfilesUsable interp
            (Value.field base "runtime_context") (Value.field cand "runtime_context")) := by
      intro hcomplete hsame hdeclares
      obtain ⟨lever, hlever⟩ := hlever hdeclares
      have hnext := (((h hcomplete).2 (h hcomplete).1).2 hsame).2 lever (orReject_ok.mpr hlever)
      obtain ⟨hprints, hnext⟩ := closed_seq.mp hnext
      have hprints := closed_reject.mp hprints
      refine ⟨by simpa using hprints, fun hunmixed => ?_⟩
      obtain ⟨-, hnext⟩ := closed_seq.mp (hnext (passes_reject.mpr hprints))
      rw [unmixed, Option.isNone_iff_eq_none] at hunmixed
      have hprofiles := (closed_seq.mp (hnext (passes_rejectIf.mpr (by rw [hunmixed]; rfl)))).1
      exact closed_checkProfiles.mp hprofiles
    exact ⟨fun hcomplete => (h hcomplete).1, fun hcomplete hsame hdeclares =>
      (hdeep hcomplete hsame hdeclares).1, fun hcomplete hsame hdeclares =>
      (hdeep hcomplete hsame hdeclares).2⟩
  · intro h
    refine ⟨fun _ => rfl, fun hcomplete => ⟨h.required hcomplete, fun _ => ⟨fun _ => rfl, fun hsame =>
      ⟨closed_orReject.mpr fun _ => rfl, fun lever hok => ?_⟩⟩⟩⟩
    obtain ⟨hdeclares, hcandPrints⟩ := hdeclared lever (orReject_ok.mp hok)
    have hprints := h.lever hcomplete hsame hdeclares
    refine closed_seq.mpr ⟨closed_reject.mpr (by rw [hprints]; rfl), fun _ => ?_⟩
    refine closed_seq.mpr ⟨closed_rejectIf.mpr fun _ => mixed_prints hprints hcandPrints, fun hpass => ?_⟩
    have hunmixed : unmixed interp.env base cand = true := by
      have hnone := passes_rejectIf.mp hpass
      rw [Option.isSome_eq_false_iff] at hnone
      exact hnone
    refine closed_seq.mpr ⟨closed_checkProfiles.mpr (h.profiles hcomplete hsame hdeclares hunmixed), ?_⟩
    exact fun _ => hlast lever

/-! ## The binding of a lane -/

theorem closed_digest {v : Value} : Closed (interp.env.digest v) ↔ v.dumps = true := by
  show Closed (if v.dumps then _ else _) ↔ _
  split
  · next h => exact iff_of_true (closed_ok _) h
  · next h => exact iff_of_false (not_closed_raised _) h

/-- What the fingerprint of a manifest is taken of. -/
def fingerprintBody (manifest : Fields) : Value :=
  .dict (manifest.filter fun f => f.1 != str "manifest_sha256")

/-- The schema and the model of a promotion manifest. -/
def isPromotion (manifest : Fields) : Bool :=
  isText (Value.field manifest "schema") "qwen38fn.promotion.v1" &&
    (Value.field manifest "model_id").eqv (.str modelId)

/-- The fingerprint of a promotion manifest can be taken. -/
def ManifestUsable (manifest : Value) : Prop :=
  ∀ fields ∈ manifest.asDict?, isPromotion fields = true → (fingerprintBody fields).dumps = true

theorem closed_checkEnvelope {manifest : Fields} : Closed (checkEnvelope manifest) := by
  refine closed_seq.mpr ⟨closed_rejectIf.mpr fun _ => rfl, fun _ => ?_⟩
  refine closed_bind.mpr ⟨closed_orReject.mpr fun _ => rfl, fun context _ => ?_⟩
  refine closed_bind.mpr ⟨closed_orReject.mpr fun _ => rfl, fun totalPool _ => ?_⟩
  exact closed_rejectIf.mpr fun _ => rfl

theorem closed_validateManifest {manifest : Value} :
    Closed (validateManifest interp.env manifest) ↔ ManifestUsable manifest := by
  rw [validateManifest, ManifestUsable, closed_bind]
  cases hmanifest : manifest.asDict? with
  | none => simp [orReject, Effect.orRaise, refusal]
  | some fields =>
    have hpromotion : (!isText (Value.field fields "schema") "qwen38fn.promotion.v1" ||
        !(Value.field fields "model_id").eqv (.str modelId)) = !isPromotion fields := by
      rw [isPromotion, Bool.not_and]
    simp only [orReject, Effect.orRaise, closed_ok, true_and, Except.ok.injEq, forall_eq',
      Option.mem_def, Option.some.injEq]
    rw [hpromotion, closed_seq, closed_rejectIf, passes_rejectIf, Bool.not_eq_false', closed_bind,
      manifestFingerprint, closed_digest]
    refine (and_iff_right fun _ => rfl).trans (imp_congr_right fun _ => ?_)
    refine and_iff_left fun fingerprint _ => ?_
    refine closed_seq.mpr ⟨closed_rejectIf.mpr fun _ => rfl, fun _ => ?_⟩
    refine closed_seq.mpr ⟨?_, fun _ => ?_⟩
    · rw [closed_forM]
      simp [identityChecks, UpTo]
    refine closed_seq.mpr ⟨closed_checkEnvelope, fun _ => ?_⟩
    exact closed_seq.mpr ⟨closed_rejectIf.mpr fun _ => rfl, fun _ => closed_pure _⟩

theorem dumps_of_mem {fields : Fields} (h : Value.dumpsFields fields = true) {f : Str × Value}
    (hf : f ∈ fields) : f.2.dumps = true := by
  induction fields with
  | nil => cases hf
  | cons g fields ih =>
    rw [Value.dumpsFields, Bool.and_eq_true] at h
    rcases List.mem_cons.mp hf with rfl | hf
    · exact h.1
    · exact ih h.2 hf

theorem dumps_of_item {items : List Value} (h : Value.dumpsItems items = true) {v : Value}
    (hv : v ∈ items) : v.dumps = true := by
  induction items with
  | nil => cases hv
  | cons w items ih =>
    rw [Value.dumpsItems, Bool.and_eq_true] at h
    rcases List.mem_cons.mp hv with rfl | hv
    · exact h.1
    · exact ih h.2 hv

theorem mem_of_lookup {fields : Fields} {key : String} {v : Value}
    (h : Value.lookup fields key = some v) : (str key, v) ∈ fields := by
  rw [Value.lookup, Option.map_eq_some_iff] at h
  obtain ⟨f, hf, rfl⟩ := h
  have hkey := List.find?_some hf
  have hmem := List.mem_of_find?_eq_some hf
  obtain ⟨k, v⟩ := f
  rw [beq_iff_eq] at hkey
  exact hkey ▸ hmem

/-- The frozen requests of a manifest with a fingerprint have digests. -/
theorem closed_payloads {manifest requests : Fields} {lane : Lane} {payloads : List Value}
    (hdumps : (fingerprintBody manifest).dumps = true)
    (hrequests : Value.lookup manifest "requests" = some (.dict requests))
    (hpayloads : Value.field requests lane.name = .list payloads) :
    Closed (payloads.mapM interp.env.digest) := by
  have hbody : (str "requests", Value.dict requests) ∈
      manifest.filter fun f => f.1 != str "manifest_sha256" :=
    List.mem_filter.mpr ⟨mem_of_lookup hrequests, by
      show (str "requests" != str "manifest_sha256") = true
      decide⟩
  have hreq : Value.dumpsFields requests = true := dumps_of_mem hdumps hbody
  have hlane : Value.lookup requests lane.name = some (.list payloads) := by
    rw [Value.field] at hpayloads
    cases hlookup : Value.lookup requests lane.name with
    | none =>
      rw [hlookup] at hpayloads
      cases hpayloads
    | some v =>
      rw [hlookup, Option.getD_some] at hpayloads
      rw [hpayloads]
  have hitems : Value.dumpsItems payloads = true := dumps_of_mem hreq (mem_of_lookup hlane)
  have hall : ∀ v ∈ payloads, Closed (interp.env.digest v) := fun v hv =>
    closed_digest.mpr (dumps_of_item hitems hv)
  rw [closed_mapM]
  clear hitems hlane hpayloads
  induction payloads with
  | nil => trivial
  | cons v payloads ih =>
    rw [List.forall_mem_cons] at hall
    exact ⟨hall.1, fun _ => ih hall.2⟩

/-- The tag that binds a round to its manifest and lane. -/
def tagged (env : Env) (fingerprint : Str) (lane : Lane) (fields : Fields) : Bool :=
  (Value.field fields "tag").eqv (.str (fingerprint ++ str "/" ++ str lane.name ++ str "/r" ++
    env.text (Value.field fields "repeat")))

/-- The repeat of a round has a text, and the frozen requests of a tagged one are an object. -/
structure RequestsUsable (env : Env) (manifest : Fields) (fingerprint : Str) (lane : Lane)
    (fields : Fields) : Prop where
  rep : (Value.field fields "repeat").prints = true
  requests : tagged env fingerprint lane fields = true →
    ((Value.lookup manifest "requests").getD (.dict [])).asDict?.isSome = true

theorem closed_checkRound {manifest fields : Fields} {fingerprint : Str} {lane : Lane}
    (hdumps : (fingerprintBody manifest).dumps = true) :
    Closed (checkRound interp.env manifest fingerprint lane fields) ↔
      RequestsUsable interp.env manifest fingerprint lane fields := by
  have hrest : ∀ requests, (Value.lookup manifest "requests").getD (.dict []) = .dict requests →
      Closed (do
        let payloads ← orReject ((Value.field requests lane.name).asList?.filter (·.length == 8))
          [.text "upstream promotion requires the frozen request values"]
        let hashes ← payloads.mapM interp.env.digest
        rejectIf (!(Value.field fields "request_hashes").eqv (.list (hashes.map .str)))
          [.text "actual upstream request sequence differs from the frozen corpus"]) := by
    intro requests hrequests
    refine closed_bind.mpr ⟨closed_orReject.mpr fun _ => rfl, fun payloads hok => ?_⟩
    obtain ⟨hlist, -⟩ := Option.filter_eq_some_iff.mp (orReject_ok.mp hok)
    have hfield := Value.asList?_eq_some.mp hlist
    refine closed_bind.mpr ⟨?_, fun _ _ => closed_rejectIf.mpr fun _ => rfl⟩
    cases hlookup : Value.lookup manifest "requests" with
    | none =>
      rw [hlookup] at hrequests
      cases hrequests
      cases hfield
    | some v =>
      rw [hlookup, Option.getD_some] at hrequests
      exact closed_payloads hdumps (hlookup.trans (by rw [hrequests])) hfield
  rw [checkRound, closed_seq, closed_reject, passes_reject, Bool.not_eq_false', closed_seq,
    closed_rejectIf, passes_rejectIf, Bool.not_eq_false', ← tagged, closed_bind]
  constructor
  · rintro ⟨hrep, h⟩
    refine ⟨hrep, fun htagged => ?_⟩
    have hdict := ((h hrep).2 htagged).1
    rw [dictOf, closed_orRaise] at hdict
    exact hdict
  · rintro ⟨hrep, h⟩
    refine ⟨hrep, fun _ => ⟨fun _ => rfl, fun htagged => ⟨?_, fun requests hok => ?_⟩⟩⟩
    · rw [dictOf, closed_orRaise]
      exact h htagged
    · exact hrest requests (dictOf_ok.mp hok)

/-- The row is bound to the manifest, the lane and the frozen input of its case. -/
def rowBound (manifest : Fields) (fingerprint : Str) (inputs : Fields) (lane : Lane)
    (fields : Fields) : Bool :=
  let modelId := Value.field manifest "model_id"
  (Value.field fields "epoch_verified").isTrue &&
    (Value.field fields "_evidence").asDict?.any fun binding =>
      ((Value.field binding "manifest_sha256").eqv (.str fingerprint) &&
        isText (Value.field binding "lane") lane.name) &&
      ((Value.field binding "model_id").eqv modelId &&
        ((Value.lookup fields "model").getD modelId).eqv modelId) &&
      (((caseOf fields).asStr?.bind (lookupStr inputs)).bind Value.asStr?).any fun expected =>
        (expected.length == 64 && (Value.field binding "input_sha256").eqv (.str expected)) &&
          ((Value.lookup fields "input_sha256").getD (.str expected)).eqv (.str expected)

theorem closed_checkBound {manifest fields inputs : Fields} {fingerprint : Str} {lane : Lane}
    (hdumps : (fingerprintBody manifest).dumps = true) :
    Closed (checkBound interp.env manifest fingerprint inputs lane fields) ↔
      (lane = .short ∨ lane = .medium → rowBound manifest fingerprint inputs lane fields = true →
        RequestsUsable interp.env manifest fingerprint lane fields) := by
  have hround : Closed (if lane = .short ∨ lane = .medium then
      checkRound interp.env manifest fingerprint lane fields else .ok ()) ↔
      (lane = .short ∨ lane = .medium →
        RequestsUsable interp.env manifest fingerprint lane fields) := by
    split
    · next h =>
      rw [closed_checkRound hdumps]
      exact ⟨fun hr _ => hr, fun hr => hr h⟩
    · next h => exact iff_of_true (closed_ok _) fun h' => absurd h' h
  rw [checkBound, rowBound, closed_seq, closed_rejectIf, passes_rejectIf, Bool.not_eq_false',
    closed_bind]
  cases hepoch : (Value.field fields "epoch_verified").isTrue with
  | false => simp
  | true =>
    cases hevidence : (Value.field fields "_evidence").asDict? with
    | none => simp [orReject, Effect.orRaise, refusal]
    | some binding =>
      rw [Option.filter_some]
      cases hproducer : ((Value.field binding "manifest_sha256").eqv (.str fingerprint) &&
        isText (Value.field binding "lane") lane.name) with
      | false => simp [orReject, Effect.orRaise, refusal, hproducer]
      | true =>
        simp only [orReject, Effect.orRaise, closed_ok, if_true, true_and, Except.ok.injEq,
          forall_eq', Option.any_some, hproducer, Bool.true_and, closed_seq, closed_rejectIf,
          passes_rejectIf, ← Bool.not_and]
        cases hmodels : ((Value.field binding "model_id").eqv (Value.field manifest "model_id") &&
          ((Value.lookup fields "model").getD (Value.field manifest "model_id")).eqv
            (Value.field manifest "model_id")) with
        | false => simp
        | true =>
          cases hexpected : ((caseOf fields).asStr?.bind (lookupStr inputs)).bind Value.asStr? with
          | none => simp [closed_bind, closed_refusal]
          | some expected =>
            rw [closed_bind]
            simp only [closed_ok, true_and, Except.ok.injEq, forall_eq', Option.any_some,
              Bool.true_and, closed_seq, closed_rejectIf, passes_rejectIf, hround]
            simp only [Bool.or_eq_false_iff, bne_eq_false_iff_eq, Bool.not_eq_false',
              Bool.and_eq_true, beq_iff_eq, List.all_cons, List.all_nil, Piece.prints_text,
              Bool.and_true, implies_true, true_and, and_imp, true_implies]
            exact ⟨fun h hlane hlength hbound hinput => h hlength hbound hinput hlane,
              fun h hlength hbound hinput hlane => h hlane hlength hbound hinput⟩

/-- The frozen inputs of a lane. -/
def laneInputs (manifest : Fields) (lane : Lane) : Option Fields :=
  (Value.field (fieldsOf (Value.field manifest "inputs")) lane.name).asDict?.filter fun inputs =>
    !inputs.isEmpty

/-- The measured rows of a lane. -/
def measuredFields (rows : List Value) : List Fields := (rows.map fieldsOf).filter isMeasured

/-- The cases of the rows are those of the frozen inputs. -/
def casesFrozen (inputs : Fields) (lane : Lane) (rows : List Value) : Bool :=
  sameCases inputs ((measuredFields rows).map caseOf) && !(lane == .vision && inputs.length != 43)

/-- The values that the binding of a lane reaches are ones it can use. -/
structure EvidenceUsable (interp : Interp) (manifest : Value) (rows : List Value) (lane : Lane) :
    Prop where
  promotion : ManifestUsable manifest
  cases : ∀ fields fingerprint, validateManifest interp.env manifest = .ok (fields, fingerprint) →
    (laneInputs fields lane).isSome = true →
    ∀ row ∈ measuredFields rows, hashable (caseOf row) = true
  rounds : ∀ fields fingerprint, validateManifest interp.env manifest = .ok (fields, fingerprint) →
    ∀ inputs ∈ laneInputs fields lane, casesFrozen inputs lane rows = true →
    UpTo (fun row => Passes (checkBound interp.env fields fingerprint inputs lane row))
      (fun row => lane = .short ∨ lane = .medium →
        rowBound fields fingerprint inputs lane row = true →
        RequestsUsable interp.env fields fingerprint lane row) (measuredFields rows)

theorem validateManifest_shape {manifest : Value} {fields : Fields} {fingerprint : Str}
    (h : validateManifest interp.env manifest = .ok (fields, fingerprint)) :
    (fingerprintBody fields).dumps = true ∧
      (Value.field fields "inputs").asDict?.isSome = true := by
  obtain ⟨-, hdigest, -, -⟩ := validateManifest_ok h
  refine ⟨closed_digest.mp (.inl ⟨fingerprint, hdigest⟩), ?_⟩
  simp only [validateManifest, Effect.bind_ok, orReject_ok, rejectIf_ok, Effect.pure_ok,
    Prod.mk.injEq] at h
  obtain ⟨fs, -, -, -, digest, -, -, -, -, -, -, -, -, hinputs, rfl, -⟩ := h
  rw [Option.isSome_iff_ne_none, ne_eq, ← Option.isNone_iff_eq_none, hinputs]
  exact Bool.false_ne_true

/-- The checks of a lane after those of its manifest. -/
theorem closed_laneChecks {fields frozen : Fields} {fingerprint : Str} {rows : List Value}
    {lane : Lane} (hdumps : (fingerprintBody fields).dumps = true)
    (hfrozen : frozen = fieldsOf (Value.field fields "inputs"))
    (hrows : ∀ row ∈ rows, row.asDict?.isSome = true) :
    Closed (do
      let inputs ← orReject ((Value.field frozen lane.name).asDict?.filter fun inputs =>
          !inputs.isEmpty)
        [.text "promotion manifest is missing frozen lane inputs"]
      let rowFields ← rows.mapM dictOf
      let measured := rowFields.filter isMeasured
      Effect.reject (measured.any fun fields => !hashable (caseOf fields)) (.raised "TypeError")
      rejectIf (!sameCases inputs (measured.map caseOf) ||
          (lane == .vision && inputs.length != 43))
        [.text "frozen input set is incomplete or differs from measured rows"]
      measured.forM (checkBound interp.env fields fingerprint inputs lane)) ↔
      ∀ inputs ∈ laneInputs fields lane,
        (∀ row ∈ measuredFields rows, hashable (caseOf row) = true) ∧
        (casesFrozen inputs lane rows = true →
          UpTo (fun row => Passes (checkBound interp.env fields fingerprint inputs lane row))
            (fun row => lane = .short ∨ lane = .medium →
              rowBound fields fingerprint inputs lane row = true →
              RequestsUsable interp.env fields fingerprint lane row) (measuredFields rows)) := by
  have hhashable : ((measuredFields rows).any fun row => !hashable (caseOf row)) = false ↔
      ∀ row ∈ measuredFields rows, hashable (caseOf row) = true := by
    rw [List.any_eq_false]
    refine forall_congr' fun row => imp_congr_right fun _ => ?_
    simp
  have hcases : ∀ inputs, (!sameCases inputs ((measuredFields rows).map caseOf) ||
      (lane == .vision && inputs.length != 43)) = !casesFrozen inputs lane rows := by
    intro inputs
    rw [casesFrozen, Bool.not_and, Bool.not_not]
  subst hfrozen
  rw [closed_bind, ← laneInputs]
  refine (and_iff_right (closed_orReject.mpr fun _ => rfl)).trans ?_
  refine forall_congr' fun inputs => imp_congr orReject_ok ?_
  rw [closed_mapM_bind (fun _ => dictOf_eq) fun _ => not_closed_dictOf]
  refine (and_iff_right hrows).trans ((forall_prop_of_true hrows).trans ?_)
  show Closed (Effect.reject ((measuredFields rows).any fun row => !hashable (caseOf row))
    (.raised "TypeError") >>= _) ↔ _
  rw [closed_seq, closed_reject, passes_reject, hhashable]
  refine and_congr_right fun hhash => (forall_prop_of_true hhash).trans ?_
  show Closed (rejectIf (!sameCases inputs ((measuredFields rows).map caseOf) ||
    (lane == .vision && inputs.length != 43)) _ >>= _) ↔ _
  rw [hcases, closed_seq, closed_rejectIf, passes_rejectIf, Bool.not_eq_false']
  refine (and_iff_right fun _ => rfl).trans (imp_congr_right fun _ => ?_)
  exact closed_forM.trans (UpTo.congr (fun _ _ => closed_checkBound hdumps) fun _ _ _ => Iff.rfl)

theorem closed_checkEvidenceBinding {manifest : Value} {rows : List Value} {lane : Lane}
    (hrows : ∀ row ∈ rows, row.asDict?.isSome = true) :
    Closed (checkEvidenceBinding interp.env manifest rows lane) ↔
      EvidenceUsable interp manifest rows lane := by
  have hlane : ∀ fields fingerprint,
      validateManifest interp.env manifest = .ok (fields, fingerprint) → (Closed (do
        let frozen ← dictOf (Value.field fields "inputs")
        let inputs ← orReject ((Value.field frozen lane.name).asDict?.filter fun inputs =>
            !inputs.isEmpty)
          [.text "promotion manifest is missing frozen lane inputs"]
        let rowFields ← rows.mapM dictOf
        let measured := rowFields.filter isMeasured
        Effect.reject (measured.any fun fields => !hashable (caseOf fields)) (.raised "TypeError")
        rejectIf (!sameCases inputs (measured.map caseOf) ||
            (lane == .vision && inputs.length != 43))
          [.text "frozen input set is incomplete or differs from measured rows"]
        measured.forM (checkBound interp.env fields fingerprint inputs lane)) ↔
      ∀ inputs ∈ laneInputs fields lane,
        (∀ row ∈ measuredFields rows, hashable (caseOf row) = true) ∧
        (casesFrozen inputs lane rows = true →
          UpTo (fun row => Passes (checkBound interp.env fields fingerprint inputs lane row))
            (fun row => lane = .short ∨ lane = .medium →
              rowBound fields fingerprint inputs lane row = true →
              RequestsUsable interp.env fields fingerprint lane row) (measuredFields rows))) := by
    intro fields fingerprint hvalid
    obtain ⟨hdumps, hinputs⟩ := validateManifest_shape hvalid
    rw [dictOf_eq hinputs, closed_bind]
    simp only [closed_ok, true_and, Except.ok.injEq, forall_eq']
    exact closed_laneChecks hdumps rfl hrows
  rw [checkEvidenceBinding, closed_bind, closed_validateManifest]
  constructor
  · rintro ⟨hmanifest, h⟩
    have hvalid : ∀ fields fingerprint,
        validateManifest interp.env manifest = .ok (fields, fingerprint) → _ :=
      fun fields fingerprint hvalid => (hlane fields fingerprint hvalid).mp (h _ hvalid)
    refine ⟨hmanifest, fun fields fingerprint hok hsome => ?_,
      fun fields fingerprint hok inputs hinputs => (hvalid fields fingerprint hok inputs hinputs).2⟩
    obtain ⟨inputs, hinputs⟩ := Option.isSome_iff_exists.mp hsome
    exact (hvalid fields fingerprint hok inputs hinputs).1
  · intro h
    refine ⟨h.promotion, fun valid hok => ?_⟩
    obtain ⟨fields, fingerprint⟩ := valid
    refine (hlane fields fingerprint hok).mpr fun inputs hinputs => ⟨?_, ?_⟩
    · exact h.cases fields fingerprint hok (Option.isSome_iff_exists.mpr ⟨inputs, hinputs⟩)
    · exact h.rounds fields fingerprint hok inputs hinputs

end Compare
end FlashNext
