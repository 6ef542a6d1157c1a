import FlashNext.Runtime.Profile
import Mathlib.Tactic.NormNum

/-!
# Accepted documents

What `validateDocument` asks of a document, said once: `Accepted` holds of the fields and the
values that were read exactly when the document is let through (`validateDocument_ok`).
-/

namespace FlashNext
namespace Runtime

open Effect
open Py (Str Value str)

/-! ## Fields -/

/-- The field has this value, or is left out where this is the default. -/
def OrDefault (raw : Fields) (key : String) (default value : Value) : Prop :=
  Value.lookup raw key = some value ∨ Value.lookup raw key = none ∧ value = default

/-- What the rule asks of an integer. -/
structure IntRule.Allows (rule : IntRule) (n : Int) : Prop where
  allowed : rule.allowed = [] ∨ n ∈ rule.allowed
  minimum : ∀ m, rule.minimum = some m → m ≤ n
  maximum : ∀ m, rule.maximum = some m → n ≤ m

section

variable {repr : Value → Str} {raw : Fields} {key : String}

theorem requireInt_ok {n : Int} :
    requireInt repr raw key = .ok n ↔ Value.lookup raw key = some (.int n) := by
  simp only [requireInt, bind_ok, orRaise_ok, Value.asInt?_eq_some]
  constructor
  · intro h
    obtain ⟨v, hv, hn⟩ := h
    rw [hv, hn]
  · intro h
    exact ⟨.int n, h, rfl⟩

theorem checkInt_ok {rule : IntRule} {v : Value} {n : Int} :
    checkInt repr rule key v = .ok n ↔ v = .int n ∧ rule.Allows n := by
  simp only [checkInt, bind_ok, orRaise_ok, reject_ok, pure_ok, Value.asInt?_eq_some]
  constructor
  · intro h
    obtain ⟨m, hv, _, hallowed, _, hminimum, _, hmaximum, hm⟩ := h
    subst hm
    refine ⟨hv, ?_, ?_, ?_⟩
    · simpa [List.isEmpty_iff, ← or_iff_not_imp_left] using hallowed
    · intro k hk
      rw [hk] at hminimum
      simpa using hminimum
    · intro k hk
      rw [hk] at hmaximum
      simpa using hmaximum
  · intro h
    obtain ⟨hv, hrule⟩ := h
    refine ⟨n, hv, (), ?_, (), ?_, (), ?_, rfl⟩
    · simpa [List.isEmpty_iff, ← or_iff_not_imp_left] using hrule.allowed
    · cases hk : rule.minimum with
      | none => rfl
      | some k => simpa using hrule.minimum k hk
    · cases hk : rule.maximum with
      | none => rfl
      | some k => simpa using hrule.maximum k hk

theorem optionalInt_ok {rule : IntRule} {default : Option Int} {n : Int} :
    optionalInt repr rule default raw key = .ok n ↔
      (Value.lookup raw key = some (.int n) ∧ rule.Allows n) ∨
        (Value.lookup raw key = none ∧ default = some n) := by
  unfold optionalInt
  cases hlookup : Value.lookup raw key with
  | none => simp [orRaise_ok]
  | some v => simp [checkInt_ok]

theorem checkEnum_ok {allowed : List String} {v : Value} {s : Str} :
    checkEnum repr allowed key v = .ok s ↔ v = .str s ∧ s ∈ allowed.map str := by
  simp only [checkEnum, orRaise_ok, Option.filter_eq_some_iff, Value.asStr?_eq_some,
    decide_eq_true_eq]

theorem requireEnum_ok {allowed : List String} {s : Str} :
    requireEnum repr allowed raw key = .ok s ↔
      Value.lookup raw key = some (.str s) ∧ s ∈ allowed.map str := by
  simp only [requireEnum, bind_ok, orRaise_ok, checkEnum_ok]
  constructor
  · intro h
    obtain ⟨v, hv, hs, hmem⟩ := h
    exact ⟨hs ▸ hv, hmem⟩
  · intro h
    exact ⟨.str s, h.1, rfl, h.2⟩

theorem optionalEnum_ok {allowed : List String} {default : String} {s : Str} :
    optionalEnum repr allowed default raw key = .ok s ↔
      (Value.lookup raw key = some (.str s) ∧ s ∈ allowed.map str) ∨
        (Value.lookup raw key = none ∧ s = str default) := by
  unfold optionalEnum
  cases hlookup : Value.lookup raw key with
  | none => simp [eq_comm]
  | some v => simp [checkEnum_ok]

/-- No integer is between the bounds. -/
theorem not_fraction (n : Int) :
    ¬ (memFractionStaticMin ≤ (n : ℚ) ∧ (n : ℚ) ≤ memFractionStaticMax) := by
  intro h
  have hmin : (0 : ℚ) < memFractionStaticMin := by norm_num [memFractionStaticMin]
  have hmax : memFractionStaticMax < (1 : ℚ) := by norm_num [memFractionStaticMax]
  have hpos : (0 : ℚ) < n := lt_of_lt_of_le hmin h.1
  have hone : (n : ℚ) < 1 := lt_of_le_of_lt h.2 hmax
  have hpos : 0 < n := by exact_mod_cast hpos
  have hone : n < 1 := by exact_mod_cast hone
  omega

theorem fraction_ok {q : ℚ} :
    optionalFloat repr memFractionStaticMin memFractionStaticMax memFractionStaticDefault raw key =
        .ok q ↔
      (Value.lookup raw key = some (.float q) ∧
        memFractionStaticMin ≤ q ∧ q ≤ memFractionStaticMax) ∨
      (Value.lookup raw key = none ∧ q = memFractionStaticDefault) := by
  unfold optionalFloat
  cases hlookup : Value.lookup raw key with
  | none => simp [eq_comm]
  | some v =>
    cases v with
    | float p =>
      show (reject _ _ >>= fun _ => Except.ok p) = .ok q ↔ _
      simp only [bind_ok, reject_ok, Bool.not_eq_false', Bool.and_eq_true, decide_eq_true_eq,
        Except.ok.injEq, exists_const, Option.some.injEq, Value.float.injEq, reduceCtorEq,
        false_and, or_false]
      constructor
      · intro h
        exact ⟨h.2, h.2 ▸ h.1⟩
      · intro h
        exact ⟨h.1 ▸ h.2, h.1⟩
    | int n =>
      by_cases hfloats : Py.floats n
      · -- an integer is let through to the bounds and fails there
        simp only [if_pos hfloats]
        show (reject _ _ >>= fun _ => Except.ok (n : ℚ)) = .ok q ↔ _
        simp only [bind_ok, reject_ok, Bool.not_eq_false', Bool.and_eq_true, decide_eq_true_eq,
          exists_const, Option.some.injEq, reduceCtorEq, false_and, or_false, iff_false]
        intro h
        exact not_fraction n h.1
      · simp only [if_neg hfloats]
        show Except.error _ = Except.ok q ↔ _
        simp
    | _ =>
      show Except.error _ = Except.ok q ↔ _
      simp

end

/-! ## Objects -/

/-- What is asked of `kv_calibration` under a KV dtype. -/
inductive Calibrated (dtype : Str) : Option Value → Prop
  | absent (hdtype : dtype ≠ str "nvfp4") : Calibrated dtype none
  | collect (fields : Fields) (hmode : Value.lookup fields "mode" = some (.str (str "collect")))
      (hkeys : hasExactly fields ["mode"] = true) (hdtype : dtype = str "bf16") :
      Calibrated dtype (some (.dict fields))
  | frozen (fields : Fields) (file sha256 : Str)
      (hmode : Value.lookup fields "mode" = some (.str (str "frozen")))
      (hkeys : hasExactly fields ["mode", "file", "sha256"] = true) (hdtype : dtype = str "nvfp4")
      (hfile : Value.lookup fields "file" = some (.str file)) (hsafe : isSafeBasename file = true)
      (hsha256 : Value.lookup fields "sha256" = some (.str sha256))
      (hhex : isSha256 sha256 = true) : Calibrated dtype (some (.dict fields))

/-- What is asked of `speculative` in a mode and under a KV dtype. -/
inductive Speculates (mode kvDtype : Str) : Value → Prop
  | off (hmode : mode ≠ str "nextn") : Speculates mode kvDtype .none
  | on (fields : Fields) (steps : Int) (draft quantization : Str) (hmode : mode = str "nextn")
      (hkeys : ∀ key ∈ fields.map (·.1),
        key ∈ ["steps", "kv_cache_dtype", "draft_quantization"].map str)
      (hsteps : Value.lookup fields "steps" = some (.int steps)) (hrange : 1 ≤ steps ∧ steps ≤ 3)
      (hdraft : OrDefault fields "kv_cache_dtype" (.str (str "bf16")) (.str draft) ∧
        draft ∈ ["bf16", "nvfp4"].map str ∧ (draft = str "nvfp4" → kvDtype = str "nvfp4"))
      (hquantization : OrDefault fields "draft_quantization" (.str (str "modelopt_mixed"))
        (.str quantization) ∧ quantization ∈ draftQuantizations.map str) :
      Speculates mode kvDtype (.dict fields)

/-- What is asked of `vision`. -/
inductive Sees : Value → Prop
  | mk (fields : Fields) (backend : Str) (cudaGraph : Bool)
      (hkeys : hasExactly fields ["backend", "cuda_graph"] = true)
      (hbackend : Value.lookup fields "backend" = some (.str backend))
      (hallowed : backend ∈ visionBackends.map str)
      (hgraph : Value.lookup fields "cuda_graph" = some (.bool cudaGraph)) : Sees (.dict fields)

section

variable {repr : Value → Str}

theorem field_some {raw : Fields} {key : String} {v : Value} (h : Value.lookup raw key = some v) :
    Value.field raw key = v := by
  rw [Value.field, h]
  rfl

theorem lookup_of_hasExactly {fields : Fields} {keys : List String} {key : String}
    (h : hasExactly fields keys = true) (hkey : key ∈ keys) :
    Value.lookup fields key = some (Value.field fields key) := by
  simp only [hasExactly, Bool.and_eq_true, List.all_eq_true] at h
  obtain ⟨v, hv⟩ := Option.isSome_iff_exists.mp (h.2 key hkey)
  rw [hv, field_some hv]

theorem asStr?_any {v : Value} {p : Str → Bool} :
    v.asStr?.any p = true ↔ ∃ s, v = .str s ∧ p s = true := by
  cases v with
  | str s => simp [Value.asStr?]
  | _ => simp [Value.asStr?]

theorem validateKvCalibration_ok {raw : Fields} {dtype : Str} :
    validateKvCalibration repr raw dtype = .ok () ↔
      Calibrated dtype (Value.lookup raw "kv_calibration") := by
  unfold validateKvCalibration
  cases hlookup : Value.lookup raw "kv_calibration" with
  | none =>
    simp only [reject_ok, decide_eq_false_iff_not]
    constructor
    · intro h
      exact .absent h
    · intro h
      cases h with
      | absent hdtype => exact hdtype
  | some v =>
    simp only [bind_ok, orRaise_ok, requireEnum_ok, Value.asDict?_eq_some]
    constructor
    · intro h
      obtain ⟨fields, rfl, mode, ⟨hmode, hallowed⟩, h⟩ := h
      by_cases hcollect : mode = str "collect"
      · rw [if_pos hcollect, reject_ok] at h
        simp only [Bool.or_eq_false_iff, Bool.not_eq_false', ne_eq, decide_not,
          decide_eq_true_eq] at h
        exact .collect fields (hcollect ▸ hmode) h.1 h.2
      · rw [if_neg hcollect] at h
        simp only [bind_ok, reject_ok, Bool.or_eq_false_iff, Bool.not_eq_false', ne_eq, decide_not,
          decide_eq_true_eq, asStr?_any] at h
        obtain ⟨_, ⟨hkeys, hdtype⟩, _, ⟨file, hfile, hsafe⟩, sha256, hsha256, hhex⟩ := h
        have hfrozen : mode = str "frozen" := by
          simpa [hcollect] using hallowed
        have hfile : Value.lookup fields "file" = some (.str file) := by
          rw [lookup_of_hasExactly hkeys (by simp), hfile]
        have hsha256 : Value.lookup fields "sha256" = some (.str sha256) := by
          rw [lookup_of_hasExactly hkeys (by simp), hsha256]
        exact .frozen fields file sha256 (hfrozen ▸ hmode) hkeys hdtype hfile hsafe hsha256 hhex
    · intro h
      cases h with
      | collect fields hmode hkeys hdtype =>
        refine ⟨fields, rfl, str "collect", ⟨hmode, by simp⟩, ?_⟩
        rw [if_pos rfl, reject_ok, hkeys, hdtype]
        simp
      | frozen fields file sha256 hmode hkeys hdtype hfile hsafe hsha256 hhex =>
        refine ⟨fields, rfl, str "frozen", ⟨hmode, by simp⟩, ?_⟩
        rw [if_neg (by decide)]
        simp [bind_ok, reject_ok, hkeys, hdtype, asStr?_any, field_some hfile, hsafe,
          field_some hsha256, hhex]

theorem orDefault_enum {raw : Fields} {key : String} {allowed : List String} {default : String}
    {s : Str} (hdefault : str default ∈ allowed.map str) :
    optionalEnum repr allowed default raw key = .ok s ↔
      OrDefault raw key (.str (str default)) (.str s) ∧ s ∈ allowed.map str := by
  rw [optionalEnum_ok, OrDefault, Value.str.injEq]
  constructor
  · intro h
    cases h with
    | inl h => exact ⟨Or.inl h.1, h.2⟩
    | inr h => exact ⟨Or.inr h, h.2 ▸ hdefault⟩
  · intro h
    obtain ⟨h, hmem⟩ := h
    cases h with
    | inl h => exact Or.inl ⟨h, hmem⟩
    | inr h => exact Or.inr h

theorem orDefault_int {raw : Fields} {key : String} {rule : IntRule} {default n : Int}
    (hdefault : rule.Allows default) :
    optionalInt repr rule (some default) raw key = .ok n ↔
      OrDefault raw key (.int default) (.int n) ∧ rule.Allows n := by
  rw [optionalInt_ok, OrDefault, Value.int.injEq, Option.some.injEq]
  constructor
  · intro h
    cases h with
    | inl h => exact ⟨Or.inl h.1, h.2⟩
    | inr h => exact ⟨Or.inr ⟨h.1, h.2.symm⟩, h.2 ▸ hdefault⟩
  · intro h
    obtain ⟨h, hmem⟩ := h
    cases h with
    | inl h => exact Or.inl ⟨h, hmem⟩
    | inr h => exact Or.inr ⟨h.1, h.2.symm⟩

theorem validateSpeculative_ok {mode kvDtype : Str} {v : Value} :
    validateSpeculative repr mode kvDtype v = .ok () ↔ Speculates mode kvDtype v := by
  unfold validateSpeculative
  by_cases hmode : mode = str "nextn"
  · rw [if_pos hmode]
    simp only [bind_ok, orRaise_ok, reject_ok, Value.asDict?_eq_some, optionalInt_ok,
      orDefault_enum (show str "bf16" ∈ ["bf16", "nvfp4"].map str by simp),
      orDefault_enum (show str "modelopt_mixed" ∈ draftQuantizations.map str by
        simp [draftQuantizations]), pure_ok, and_true]
    constructor
    · intro h
      obtain ⟨fields, rfl, _, hkeys, draft, ⟨hdraft, hallowed⟩, _, hfrozen, quantization,
        hquantization, steps, hsteps⟩ := h
      simp only [Bool.or_eq_false_iff, Bool.not_eq_false', List.all_eq_true,
        decide_eq_true_eq] at hkeys
      simp only [Bool.and_eq_false_iff, decide_eq_false_iff_not, ne_eq, not_not] at hfrozen
      cases hsteps with
      | inl hsteps =>
        obtain ⟨hsteps, hrule⟩ := hsteps
        refine .on fields steps draft quantization hmode ?_ hsteps
          ⟨hrule.minimum 1 rfl, hrule.maximum 3 rfl⟩ ⟨hdraft, hallowed, ?_⟩ hquantization
        · intro key hkey
          obtain ⟨f, hf, rfl⟩ := List.mem_map.mp hkey
          exact hkeys.2 f hf
        · intro heq
          cases hfrozen with
          | inl hne => exact absurd heq hne
          | inr hkv => exact hkv
      | inr hsteps => exact absurd hsteps.2 (by simp)
    · intro h
      cases h with
      | off hoff => exact absurd hmode hoff
      | on fields steps draft quantization _ hkeys hsteps hrange hdraft hquantization =>
        obtain ⟨hdraft, hallowed, hfrozen⟩ := hdraft
        refine ⟨fields, rfl, (), ?_, draft, ⟨hdraft, hallowed⟩, (), ?_, quantization,
          hquantization, steps, Or.inl ⟨hsteps, ?_⟩⟩
        · simp only [Bool.or_eq_false_iff, Bool.not_eq_false', List.all_eq_true, decide_eq_true_eq,
            hsteps]
          refine ⟨rfl, ?_⟩
          intro f hf
          exact hkeys f.1 (List.mem_map.mpr ⟨f, hf, rfl⟩)
        · simp only [Bool.and_eq_false_iff, decide_eq_false_iff_not, ne_eq, not_not]
          by_cases heq : draft = str "nvfp4"
          · exact Or.inr (hfrozen heq)
          · exact Or.inl heq
        · refine ⟨Or.inl rfl, ?_, ?_⟩
          · intro m hm
            obtain rfl := Option.some.inj hm
            exact hrange.1
          · intro m hm
            obtain rfl := Option.some.inj hm
            exact hrange.2
  · rw [if_neg hmode, reject_ok, Bool.not_eq_false', Value.isNone_iff]
    constructor
    · intro h
      rw [h]
      exact .off hmode
    · intro h
      cases h with
      | off => rfl
      | on _ _ _ _ hon => exact absurd hon hmode

theorem validateVision_ok {v : Value} : validateVision repr v = .ok () ↔ Sees v := by
  unfold validateVision
  simp only [bind_ok, orRaise_ok, reject_ok, Value.asDict?_eq_some, requireEnum_ok,
    Bool.not_eq_false']
  constructor
  · intro h
    obtain ⟨fields, rfl, _, hkeys, backend, ⟨hbackend, hallowed⟩, h⟩ := h
    split at h
    · next b hgraph =>
      have hgraph : Value.lookup fields "cuda_graph" = some (.bool b) := by
        rw [lookup_of_hasExactly hkeys (by simp), hgraph]
      exact .mk fields backend b hkeys hbackend hallowed hgraph
    · cases h
  · intro h
    cases h with
    | mk fields backend cudaGraph hkeys hbackend hallowed hgraph =>
      refine ⟨fields, rfl, (), hkeys, backend, ⟨hbackend, hallowed⟩, ?_⟩
      rw [field_some hgraph]

end

/-! ## The document -/

/-- What is asked of a document, and the values that are read from it. -/
structure Accepted (p : Validated) : Prop where
  schema : Value.lookup p.raw "schema" = some (.int p.schema) ∧ p.schema = profileSchema
  mode : Value.lookup p.raw "mode" = some (.str p.mode) ∧ p.mode ∈ modes.map str
  contextLength : Value.lookup p.raw "context_length" = some (.int p.contextLength) ∧
    p.contextLength ∈ contextLengthAllowed
  maxTotalTokens : Value.lookup p.raw "max_total_tokens" = some (.int p.maxTotalTokens) ∧
    p.maxTotalTokens = p.contextLength
  maxRunningRequests : OrDefault p.raw "max_running_requests" (.int maxRunningRequestsDefault)
    (.int p.maxRunningRequests) ∧
      IntRule.Allows { allowed := maxRunningRequestsAllowed } p.maxRunningRequests
  chunkedPrefillSize : OrDefault p.raw "chunked_prefill_size" (.int chunkedPrefillDefault)
    (.int p.chunkedPrefillSize) ∧
      IntRule.Allows { allowed := chunkedPrefillAllowed } p.chunkedPrefillSize
  maxMambaCacheSize : OrDefault p.raw "max_mamba_cache_size" (.int maxMambaCacheSizeDefault)
    (.int p.maxMambaCacheSize) ∧ IntRule.Allows
      { minimum := some maxMambaCacheSizeMin, maximum := some maxMambaCacheSizeMax }
      p.maxMambaCacheSize
  memFractionStatic :
    (Value.lookup p.raw "mem_fraction_static" = some (.float p.memFractionStatic) ∧
      memFractionStaticMin ≤ p.memFractionStatic ∧ p.memFractionStatic ≤ memFractionStaticMax) ∨
    (Value.lookup p.raw "mem_fraction_static" = none ∧
      p.memFractionStatic = memFractionStaticDefault)
  kvCacheDtype : OrDefault p.raw "kv_cache_dtype" (.str (str kvCacheDtypeDefault))
    (.str p.kvCacheDtype) ∧ p.kvCacheDtype ∈ kvCacheDtypes.map str
  calibrated : Calibrated p.kvCacheDtype (Value.lookup p.raw "kv_calibration")
  moeBackend : OrDefault p.raw "moe_backend" (.str (str "flashinfer_cutlass"))
    (.str p.moeBackend) ∧ p.moeBackend ∈ moeBackends.map str
  speculates : Speculates p.mode p.kvCacheDtype (Value.field p.raw "speculative")
  sees : Sees (Value.field p.raw "vision")
  pleRssGib : OrDefault p.raw "ple_rss_gib" (.int pleRssGibDefault) (.int p.pleRssGib) ∧
    IntRule.Allows { allowed := pleRssGibAllowed } p.pleRssGib
  mmProcessorWorkerNum : OrDefault p.raw "mm_processor_worker_num"
    (.int mmProcessorWorkerNumDefault) (.int p.mmProcessorWorkerNum) ∧
      IntRule.Allows { allowed := mmProcessorWorkerNumAllowed } p.mmProcessorWorkerNum
  known : ∀ key ∈ p.raw.map (·.1), key ∈ knownFields.map str
  decodeGraphBackend : OrDefault p.raw "decode_graph_backend" (.str (str "full"))
    (.str p.decodeGraphBackend) ∧ p.decodeGraphBackend ∈ decodeGraphBackends.map str

section

variable {repr : Value → Str}

theorem unknown_eq_nil {raw : Fields} :
    (!(((raw.map (·.1)).filter (· ∉ knownFields.map str)).mergeSort).isEmpty) = false ↔
      ∀ key ∈ raw.map (·.1), key ∈ knownFields.map str := by
  rw [Bool.not_eq_false', List.isEmpty_iff, ← List.length_eq_zero_iff, List.length_mergeSort,
    List.length_eq_zero_iff, List.filter_eq_nil_iff]
  simp only [decide_eq_true_eq, not_not]

theorem validateDocument_ok {v : Value} {p : Validated} :
    validateDocument repr v = .ok p ↔ v = .dict p.raw ∧ Accepted p := by
  have hrunning : IntRule.Allows { allowed := maxRunningRequestsAllowed }
      maxRunningRequestsDefault := ⟨by decide, by simp, by simp⟩
  have hprefill : IntRule.Allows { allowed := chunkedPrefillAllowed } chunkedPrefillDefault :=
    ⟨by decide, by simp, by simp⟩
  have hmamba : IntRule.Allows
      { minimum := some maxMambaCacheSizeMin, maximum := some maxMambaCacheSizeMax }
      maxMambaCacheSizeDefault := ⟨by simp, by decide, by decide⟩
  have hple : IntRule.Allows { allowed := pleRssGibAllowed } pleRssGibDefault :=
    ⟨by decide, by simp, by simp⟩
  have hworkers : IntRule.Allows { allowed := mmProcessorWorkerNumAllowed }
      mmProcessorWorkerNumDefault := ⟨by decide, by simp, by simp⟩
  simp only [validateDocument, bind_ok, orRaise_ok, reject_ok, pure_ok, Value.asDict?_eq_some,
    requireInt_ok, requireEnum_ok, orDefault_int hrunning, orDefault_int hprefill,
    orDefault_int hmamba, orDefault_int hple, orDefault_int hworkers, fraction_ok,
    orDefault_enum (show str kvCacheDtypeDefault ∈ kvCacheDtypes.map str by
      simp [kvCacheDtypes, kvCacheDtypeDefault]),
    orDefault_enum (show str "flashinfer_cutlass" ∈ moeBackends.map str by simp [moeBackends]),
    orDefault_enum (show str "full" ∈ decodeGraphBackends.map str by simp [decodeGraphBackends]),
    unknown_eq_nil]
  constructor
  · intro h
    obtain ⟨raw, hv, schema, hschema, _, hone, mode, hmode, contextLength, hcontext, _, hallowed,
      maxTotalTokens, htotal, _, hsame, maxRunningRequests, hrequests, chunkedPrefillSize, hchunked,
      maxMambaCacheSize, hcache, memFractionStatic, hfraction, kvCacheDtype, hkv, _, hcalibrated,
      moeBackend, hmoe, _, hspeculates, _, hsees, pleRssGib, hrss, mmProcessorWorkerNum, hnum, _,
      hknown, decodeGraphBackend, hgraph, hp⟩ := h
    subst hp
    refine ⟨hv, ?_⟩
    exact {
      schema := ⟨hschema, by simpa using hone⟩
      mode := hmode
      contextLength := ⟨hcontext, by simpa using hallowed⟩
      maxTotalTokens := ⟨htotal, by simpa using hsame⟩
      maxRunningRequests := hrequests
      chunkedPrefillSize := hchunked
      maxMambaCacheSize := hcache
      memFractionStatic := hfraction
      kvCacheDtype := hkv
      calibrated := validateKvCalibration_ok.mp hcalibrated
      moeBackend := hmoe
      speculates := validateSpeculative_ok.mp hspeculates
      sees := validateVision_ok.mp hsees
      pleRssGib := hrss
      mmProcessorWorkerNum := hnum
      known := hknown
      decodeGraphBackend := hgraph }
  · intro h
    obtain ⟨hv, h⟩ := h
    exact ⟨p.raw, hv, p.schema, h.schema.1, (), by simpa using h.schema.2, p.mode, h.mode,
      p.contextLength, h.contextLength.1, (), by simpa using h.contextLength.2, p.maxTotalTokens,
      h.maxTotalTokens.1, (), by simpa using h.maxTotalTokens.2, p.maxRunningRequests,
      h.maxRunningRequests, p.chunkedPrefillSize, h.chunkedPrefillSize, p.maxMambaCacheSize,
      h.maxMambaCacheSize, p.memFractionStatic, h.memFractionStatic, p.kvCacheDtype, h.kvCacheDtype,
      (), validateKvCalibration_ok.mpr h.calibrated, p.moeBackend, h.moeBackend, (),
      validateSpeculative_ok.mpr h.speculates, (), validateVision_ok.mpr h.sees, p.pleRssGib,
      h.pleRssGib, p.mmProcessorWorkerNum, h.mmProcessorWorkerNum, (), h.known,
      p.decodeGraphBackend, h.decodeGraphBackend, rfl⟩

end

end Runtime
end FlashNext
