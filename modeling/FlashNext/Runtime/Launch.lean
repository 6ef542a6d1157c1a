import FlashNext.Py.Argv
import FlashNext.Runtime.Payload

/-!
# The launch of a profile

`buildArgv` and `buildEnv` compile a profile and a sources lock into the argument vector and the
environment of the server.  For the profile of an accepted text they agree on the KV cache, on its
calibration, on the speculation and on the pool (`build_agrees`).
-/

namespace FlashNext
namespace Runtime

open Effect
open Py (Str Value str)
open Py.Argv

def modelId : Str := str "nvidia/Qwen3.8-Flash-Next-NVFP4"

/-! ## The checks of both arguments -/

/-- `re.fullmatch(r"[0-9a-f]{40}", value)`. -/
def isFullSha (s : Str) : Bool :=
  s.length == 40 && s.all fun c => (48 ≤ c && c ≤ 57) || (97 ≤ c && c ≤ 102)

/-- `_full_sha`. -/
def fullSha (value : Value) : Check Str :=
  orRaise (value.asStr?.filter isFullSha)
    (.profile (str "sources.model.sha must be a full lowercase Git SHA"))

/-- `_checked_sources`; only the commit is read of the model that it returns. -/
def checkedSources (sources : Value) : Check Str := do
  let missing := Exc.profile (str "sources.model must be an object")
  let fields ← orRaise sources.asDict? missing
  let model ← orRaise (Value.field fields "model").asDict? missing
  reject (Value.lookup fields "env").isSome
    (.profile (str "runtime environment overrides are not supported"))
  reject (!(Value.field model "id").eqv (.str modelId)) (.profile (str "unexpected model identity"))
  fullSha (Value.field model "sha")

/-- A field other than `raw` differs. -/
def differs (profile checked : Profile) : Bool :=
  (profile.asDict.zip checked.asDict).any fun (f, g) => f.1 != str "raw" && !f.2.eqv g.2

/-- `_checked_profile`. -/
def checkedProfile (interp : Interp) (profile : Profile) : Check Profile := do
  let checked ← profileFromDict interp.repr (.dict profile.raw)
  reject (differs profile checked)
    (.profile (str "profile fields differ from its validated source"))
  return checked

/-! ## The environment -/

/-- `str(value)`. -/
def strOf (interp : Interp) : Value → Str
  | .str s => s
  | v => interp.repr v

def isMode (p : Profile) (mode : String) : Bool := p.kvCalibrationMode.eqv (word mode)

def sidecarDir : Str := str "/opt/r0b0tlab/kv-calibration/"

def envOf (interp : Interp) (p : Profile) (sha : Str) : Fields :=
  [(str "HOME", word "/cache/home"),
    (str "TMPDIR", word "/cache/tmp"),
    (str "XDG_CACHE_HOME", word "/cache/xdg"),
    (str "HF_HOME", word "/cache/hf"),
    (str "SGLANG_CACHE_DIR", word "/cache/jit"),
    (str "SGLANG_VIT_ENABLE_CUDA_GRAPH", word (if p.visionCudaGraph then "1" else "0")),
    (str "SGLANG_VIT_ENABLE_VECTORIZED_POS_EMBED", word "1"),
    (str "SGLANG_QWEN4_PLE_FILE_RSS_BUDGET_GB", .str (Py.dumpInt p.pleRssGib)),
    (str "SGLANG_QWEN4_PLE_FILE_PREFETCH", word "1"),
    (str "SGLANG_QSA_KV_AMAX_CALIB", word (if isMode p "collect" then "1" else "0")),
    (str "SGLANG_QSA_KV_MODEL_REVISION", .str sha),
    (str "SGLANG_QSA_KV_SCALE_SIDECAR",
      .str (if isMode p "frozen" then sidecarDir ++ sha ++ str "/" ++ strOf interp p.kvScaleFile
        else [])),
    (str "SGLANG_QSA_KV_SCALE_SHA256", p.kvScaleSha256.orElse (.str [])),
    (str "SGLANG_QWEN4_PLE_FILE_SKIP_DEVICE_CHECK", word "0"),
    (str "SGLANG_DISABLE_DRAFT_EXTEND_CUDA_GRAPH", word "0"),
    (str "R0B0TLAB_PLE_PREPARED_PATH", .str []),
    (str "R0B0TLAB_PLE_PREPARED_SHA256", .str []),
    (str "MAX_JOBS", word "1"),
    (str "FLASHINFER_NVCC_THREADS", word "1"),
    (str "HF_HUB_OFFLINE", word "1"),
    (str "TRANSFORMERS_OFFLINE", word "1"),
    (str "PYTHONDONTWRITEBYTECODE", word "1")]

/-- `build_env`. -/
def buildEnv (interp : Interp) (profile : Profile) (sources : Value) : Check Fields := do
  let profile ← checkedProfile interp profile
  let sha ← checkedSources sources
  return envOf interp profile sha

/-! ## The arguments -/

/-- `ple_dir`, of a commit that was checked. -/
def pleDir (sha : Str) : Str := str "/cache/ple" ++ str "/" ++ sha

/-- `str(n)`. -/
def number (n : Int) : Value := .str (Py.dumpInt n)

/-- The sizes of the decode graphs. -/
def graphSizes (p : Profile) : List Value :=
  (([1, 2, 4, 8] : List Int).filter fun n => n ≤ p.maxRunningRequests).map number

/-- The arguments of every profile. -/
def baseArgs (interp : Interp) (p : Profile) (sha : Str) : List Value :=
  words ["sglang", "serve", "--model-path", "/model", "--served-model-name",
    "nvidia/Qwen3.8-Flash-Next-NVFP4", "--tp-size", "1", "--nnodes", "1", "--node-rank", "0",
    "--host", "0.0.0.0", "--port", "30000", "--dtype", "bfloat16", "--quantization",
    "modelopt_mixed", "--load-format", "safetensors", "--ple-offload-embedding",
    "--ple-offload-backend", "file"] ++
  (option "--ple-offload-dir" (.str (pleDir sha)) ++
  (words ["--fp4-gemm-backend", "flashinfer_cutlass"] ++
  (option "--moe-runner-backend" (.str p.moeBackend) ++
  (words ["--attention-backend", "triton", "--mamba-ssm-dtype", "float32",
    "--linear-attn-prefill-backend", "triton", "--linear-attn-decode-backend", "triton",
    "--linear-attn-verify-backend", "triton", "--reasoning-parser", "auto", "--tool-call-parser",
    "auto"] ++
  (option "--cuda-graph-backend-decode" (.str p.decodeGraphBackend) ++
  (words ["--cuda-graph-backend-prefill", "disabled", "--cuda-graph-bs-decode"] ++
  (graphSizes p ++
  (words ["--page-size", "64", "--enable-metrics", "--watchdog-timeout", "1800"] ++
  (option "--context-length" (number p.contextLength) ++
  (option "--max-total-tokens" (number p.maxTotalTokens) ++
  (option "--max-running-requests" (number p.maxRunningRequests) ++
  (option "--chunked-prefill-size" (number p.chunkedPrefillSize) ++
  (option "--max-prefill-tokens" (number p.chunkedPrefillSize) ++
  (option "--mem-fraction-static" (.str (interp.text p.memFractionStatic)) ++
  (option "--kv-cache-dtype" (.str p.kvCacheDtype) ++
  (option "--max-mamba-cache-size" (number p.maxMambaCacheSize) ++
  (option "--mm-attention-backend" p.visionBackend ++
  (option "--mm-processor-worker-num" (number p.mmProcessorWorkerNum) ++
  []))))))))))))))))))

/-- The arguments that the mode `nextn` adds. -/
def speculativeArgs (p : Profile) : List Value :=
  words ["--speculative-algorithm", "NEXTN"] ++
  (option "--speculative-num-steps" (number p.speculativeSteps) ++
  (words ["--speculative-eagle-topk", "1"] ++
  (option "--speculative-num-draft-tokens" (number (p.speculativeSteps + 1)) ++
  (option "--speculative-draft-model-quantization" p.draftQuantization ++
  (words ["--speculative-moe-runner-backend", "triton"] ++
  (option "--speculative-draft-kv-cache-dtype"
    (p.draftKvCacheDtype.orElse (.str p.kvCacheDtype)) ++
  []))))))

def argvOf (interp : Interp) (p : Profile) (sha : Str) : List Value :=
  baseArgs interp p sha ++ if p.mode = str "nextn" then speculativeArgs p else []

/-- `build_argv`. -/
def buildArgv (interp : Interp) (profile : Profile) (sources : Value) : Check (List Value) := do
  let profile ← checkedProfile interp profile
  let sha ← checkedSources sources
  return argvOf interp profile sha

/-! ## What is compiled -/

section

variable {interp : Interp}

theorem eqv_self {v : Value} (h : v ≠ .nonfinite .nan) : v.eqv v = true :=
  Value.eqv_iff.mpr ⟨rfl, h⟩

/-- A profile of an accepted document passes the comparison with itself. -/
theorem differs_self {p : Profile} (h : Consistent p) : differs p p = false := by
  obtain ⟨backend, _, hbackend⟩ := h.vision
  have hquantization : p.draftQuantization ≠ .nonfinite .nan := by
    cases h.speculation with
    | off _ _ _ hq => simp [hq]
    | on _ _ _ hq =>
      obtain ⟨s, _, hs⟩ := hq
      simp [hs]
  have hdraft : p.draftKvCacheDtype ≠ .nonfinite .nan := by
    cases h.speculation with
    | off _ _ hd => simp [hd]
    | on _ _ hd =>
      intro heq
      simp [heq] at hd
  have hcalibration : p.kvCalibrationMode ≠ .nonfinite .nan ∧ p.kvScaleFile ≠ .nonfinite .nan ∧
      p.kvScaleSha256 ≠ .nonfinite .nan := by
    cases h.calibration with
    | absent _ hm hf hs => simp [hm, hf, hs]
    | collect _ hm hf hs => simp [hm, hf, hs]
    | frozen file sha256 _ hm hf _ hs => simp [hm, hf, hs]
  have hself : ∀ f ∈ p.asDict, f.2.eqv f.2 = true := by
    intro f hf
    refine eqv_self ?_
    intro hnan
    have hmem : (f.1, Value.nonfinite .nan) ∈ p.asDict := by
      rw [← hnan]
      exact hf
    simp [Profile.asDict, hbackend, hquantization.symm, hdraft.symm, hcalibration.1.symm,
      hcalibration.2.1.symm, hcalibration.2.2.symm] at hmem
  unfold differs
  generalize p.asDict = fields at hself
  induction fields with
  | nil => rfl
  | cons f fields ih =>
    have hrest := ih fun g hg => hself g (List.mem_cons_of_mem _ hg)
    have hfirst := hself f (by simp)
    rw [List.zip_cons_cons, List.any_cons, hrest]
    simp [hfirst]

theorem checkedProfile_profileOf {p : Validated} (h : Accepted p)
    (hdistinct : (Value.dict p.raw).distinct = true) :
    checkedProfile interp (profileOf p) = .ok (profileOf p) := by
  have hcheck : profileFromDict interp.repr (.dict (profileOf p).raw) = .ok (profileOf p) :=
    profileFromDict_of_accepted h hdistinct
  unfold checkedProfile
  rw [hcheck, bind_ok]
  refine ⟨profileOf p, rfl, bind_ok.mpr ⟨(), ?_, rfl⟩⟩
  rw [reject_ok]
  exact differs_self (consistent_profileOf h)

/-- Both compilers succeed on the profile of an accepted document. -/
theorem build_of_accepted {p : Validated} {sources : Value} {sha : Str} (h : Accepted p)
    (hdistinct : (Value.dict p.raw).distinct = true) (hsources : checkedSources sources = .ok sha) :
    buildArgv interp (profileOf p) sources = .ok (argvOf interp (profileOf p) sha) ∧
      buildEnv interp (profileOf p) sources = .ok (envOf interp (profileOf p) sha) := by
  have hchecked := @checkedProfile_profileOf interp p h hdistinct
  unfold buildArgv buildEnv
  rw [hchecked, hsources]
  exact ⟨rfl, rfl⟩

/-! ## The flags -/

/-- What is relied on of the floats: the source's `0.80` is the default, and a fraction that was
read is written with its digits and is read back from them. -/
structure FloatLaws (interp : Interp) : Prop where
  default : interp.read (str "0.80") = some memFractionStaticDefault
  fraction : ∀ literal q, interp.read literal = some q → memFractionStaticMin ≤ q →
    q ≤ memFractionStaticMax →
      Py.FractionText (interp.text q) ∧ interp.read (interp.text q) = some q

theorem read_of_lookup {read : Str → Option ℚ} {fs : Fields} {key : String} {q : ℚ}
    (h : Py.FloatsReadFields read fs) (hq : Value.lookup fs key = some (.float q)) :
    ∃ literal, read literal = some q := by
  induction fs with
  | nil => cases hq
  | cons f fs ih =>
    obtain ⟨hfirst, hrest⟩ := h
    unfold Value.lookup at hq ih
    rw [List.find?_cons] at hq
    by_cases hkey : f.1 == str key
    · rw [hkey] at hq
      have hvalue : f.2 = .float q := Option.some.inj hq
      have hread : Py.FloatsRead read f.2 := hfirst
      rw [hvalue] at hread
      exact hread
    · rw [Bool.eq_false_iff.mpr hkey] at hq
      exact ih hrest hq

theorem fraction_text (hlaws : FloatLaws interp) {p : Validated} (h : Accepted p)
    (hread : Py.FloatsRead interp.read (.dict p.raw)) :
    Py.FractionText (interp.text p.memFractionStatic) ∧
      interp.read (interp.text p.memFractionStatic) = some p.memFractionStatic := by
  cases h.memFractionStatic with
  | inl hfraction =>
    obtain ⟨literal, hliteral⟩ := read_of_lookup hread hfraction.1
    exact hlaws.fraction literal _ hliteral hfraction.2.1 hfraction.2.2
  | inr hdefault =>
    have hmin : memFractionStaticMin ≤ memFractionStaticDefault := by
      norm_num [memFractionStaticMin, memFractionStaticDefault]
    have hmax : memFractionStaticDefault ≤ memFractionStaticMax := by
      norm_num [memFractionStaticMax, memFractionStaticDefault]
    rw [hdefault.2]
    exact hlaws.fraction _ _ hlaws.default hmin hmax

/-- No value of the profile is taken for a flag. -/
structure Silent (interp : Interp) (p : Profile) : Prop where
  moeBackend : isFlag (.str p.moeBackend) = false
  decodeGraphBackend : isFlag (.str p.decodeGraphBackend) = false
  fraction : isFlag (.str (interp.text p.memFractionStatic)) = false
  kvCacheDtype : isFlag (.str p.kvCacheDtype) = false
  visionBackend : isFlag p.visionBackend = false
  draftQuantization : isFlag p.draftQuantization = false
  draftKvCacheDtype : isFlag (p.draftKvCacheDtype.orElse (.str p.kvCacheDtype)) = false

theorem isFlag_str {s : Str} (h : isFlag (.str s) = true) : ∃ rest, s = 45 :: 45 :: rest := by
  have htake : s.take 2 = [45, 45] := by simpa [isFlag, Value.asStr?] using h
  exact ⟨s.drop 2, by rw [← List.take_append_drop 2 s, htake]; rfl⟩

theorem isFlag_number (n : Int) : isFlag (number n) = false := by
  rw [← Bool.not_eq_true]
  intro h
  obtain ⟨rest, hrest⟩ := isFlag_str h
  -- a dash would be among the digits
  have hdash : 45 ∈ Py.digitsOf n.natAbs := by
    rw [Py.dumpInt_eq] at hrest
    by_cases hneg : n < 0
    · rw [if_pos hneg] at hrest
      have hdigits : Py.digitsOf n.natAbs = 45 :: rest := (List.cons.inj hrest).2
      simp [hdigits]
    · rw [if_neg hneg] at hrest
      have hdigits : Py.digitsOf n.natAbs = 45 :: 45 :: rest := hrest
      simp [hdigits]
  exact absurd (Py.isDigit_digitsOf hdash) (by decide)

theorem isFlag_pleDir (sha : Str) : isFlag (.str (pleDir sha)) = false := by
  rw [← Bool.not_eq_true]
  intro h
  obtain ⟨rest, hrest⟩ := isFlag_str h
  have hroot : (str "/cache/ple").head? = some 47 := by decide
  have hfirst := congrArg List.head? hrest
  rw [pleDir, List.append_assoc, List.head?_append, hroot] at hfirst
  cases hfirst

theorem isFlag_of_mem {names : List String} {s : Str} (h : s ∈ names.map str)
    (hnames : ∀ name ∈ names, isFlag (word name) = false) : isFlag (.str s) = false := by
  obtain ⟨name, hname, rfl⟩ := List.mem_map.mp h
  exact hnames name hname

theorem silent_quantization {p : Profile} (h : Speculation p) :
    isFlag p.draftQuantization = false := by
  cases h with
  | off _ _ _ hquantization =>
    rw [hquantization]
    decide
  | on _ _ _ hquantization =>
    obtain ⟨s, hallowed, hs⟩ := hquantization
    rw [hs]
    exact isFlag_of_mem hallowed (by decide)

theorem silent_draft {p : Profile} (h : Speculation p)
    (hkv : isFlag (.str p.kvCacheDtype) = false) :
    isFlag (p.draftKvCacheDtype.orElse (.str p.kvCacheDtype)) = false := by
  cases h with
  | off _ _ hdraft =>
    rw [hdraft]
    exact hkv
  | on _ _ hdraft =>
    obtain hdraft | hdraft | ⟨hdraft, _⟩ := hdraft
    · rw [hdraft]
      exact hkv
    · rw [hdraft]
      show isFlag (word "bf16") = false
      decide
    · rw [hdraft]
      show isFlag (word "nvfp4") = false
      decide

theorem silent_kvCacheDtype {p : Profile} (h : Consistent p) :
    isFlag (.str p.kvCacheDtype) = false :=
  isFlag_of_mem h.accepted.kvCacheDtype.2 (by decide)

theorem silent_of_accepted (hlaws : FloatLaws interp) {p : Validated} (h : Accepted p)
    (hread : Py.FloatsRead interp.read (.dict p.raw)) : Silent interp (profileOf p) := by
  have hconsistent := consistent_profileOf h
  have hkv := silent_kvCacheDtype hconsistent
  refine ⟨isFlag_of_mem h.moeBackend.2 (by decide),
    isFlag_of_mem h.decodeGraphBackend.2 (by decide), ?_, hkv, ?_,
    silent_quantization hconsistent.speculation, silent_draft hconsistent.speculation hkv⟩
  · obtain ⟨ds, hds, _, _⟩ := (fraction_text hlaws h hread).1
    show isFlag (.str (interp.text p.memFractionStatic)) = false
    rw [hds]
    rfl
  · obtain ⟨backend, hallowed, hbackend⟩ := hconsistent.vision
    rw [hbackend]
    exact isFlag_of_mem hallowed (by decide)

variable {p : Profile} {sha : Str}

/-- The values of the flags of every launch. -/
theorem valueOf_base (hs : Silent interp p) :
    valueOf (argvOf interp p sha) "--context-length" = some (number p.contextLength) ∧
      valueOf (argvOf interp p sha) "--max-total-tokens" = some (number p.maxTotalTokens) ∧
      valueOf (argvOf interp p sha) "--kv-cache-dtype" = some (.str p.kvCacheDtype) := by
  obtain ⟨hmoe, hgraph, hfraction, hkv, hvision, hquantization, hdraft⟩ := hs
  have hdir := isFlag_pleDir sha
  have hnumber := isFlag_number
  have hsizes : ∀ v ∈ graphSizes p, isFlag v = false := by
    intro v hv
    obtain ⟨n, _, rfl⟩ := List.mem_map.mp hv
    exact isFlag_number n
  unfold argvOf baseArgs
  refine ⟨?_, ?_, ?_⟩ <;>
  simp (disch := first | assumption | exact isFlag_number _ | decide) only
    [List.append_assoc, valueOf_words, valueOf_other, valueOf_silent, valueOf_option]

/-- The flags of every launch, in order. -/
def baseFlags : List String :=
  ["--model-path", "--served-model-name", "--tp-size", "--nnodes", "--node-rank", "--host",
    "--port", "--dtype", "--quantization", "--load-format", "--ple-offload-embedding",
    "--ple-offload-backend", "--ple-offload-dir", "--fp4-gemm-backend", "--moe-runner-backend",
    "--attention-backend", "--mamba-ssm-dtype", "--linear-attn-prefill-backend",
    "--linear-attn-decode-backend", "--linear-attn-verify-backend", "--reasoning-parser",
    "--tool-call-parser", "--cuda-graph-backend-decode", "--cuda-graph-backend-prefill",
    "--cuda-graph-bs-decode", "--page-size", "--enable-metrics", "--watchdog-timeout",
    "--context-length", "--max-total-tokens", "--max-running-requests", "--chunked-prefill-size",
    "--max-prefill-tokens", "--mem-fraction-static", "--kv-cache-dtype", "--max-mamba-cache-size",
    "--mm-attention-backend", "--mm-processor-worker-num"]

/-- The flags that the mode `nextn` adds. -/
def speculativeFlags : List String :=
  ["--speculative-algorithm", "--speculative-num-steps", "--speculative-eagle-topk",
    "--speculative-num-draft-tokens", "--speculative-draft-model-quantization",
    "--speculative-moe-runner-backend", "--speculative-draft-kv-cache-dtype"]

theorem flagsOf_graphSizes (p : Profile) : flagsOf (graphSizes p) = [] := by
  refine flagsOf_silent ?_
  intro v hv
  obtain ⟨n, _, rfl⟩ := List.mem_map.mp hv
  exact isFlag_number n

theorem flagsOf_baseArgs (hs : Silent interp p) :
    flagsOf (baseArgs interp p sha) = words baseFlags := by
  obtain ⟨hmoe, hgraph, hfraction, hkv, hvision, hquantization, hdraft⟩ := hs
  have hdir := isFlag_pleDir sha
  unfold baseArgs
  simp (disch := first | assumption | exact isFlag_number _ | decide) only
    [flagsOf_append, flagsOf_words, flagsOf_option, flagsOf_graphSizes]
  decide

theorem flagsOf_speculativeArgs (hquantization : isFlag p.draftQuantization = false)
    (hdraft : isFlag (p.draftKvCacheDtype.orElse (.str p.kvCacheDtype)) = false) :
    flagsOf (speculativeArgs p) = words speculativeFlags := by
  unfold speculativeArgs
  simp (disch := first | assumption | exact isFlag_number _ | decide) only
    [flagsOf_append, flagsOf_words, flagsOf_option]
  decide

/-- The flags of a launch. -/
theorem flagsOf_argvOf (hs : Silent interp p) : flagsOf (argvOf interp p sha) =
    words (baseFlags ++ if p.mode = str "nextn" then speculativeFlags else []) := by
  rw [argvOf, flagsOf_append, flagsOf_baseArgs hs]
  by_cases hmode : p.mode = str "nextn"
  · rw [if_pos hmode, if_pos hmode, flagsOf_speculativeArgs hs.draftQuantization hs.draftKvCacheDtype, words, words, words, List.map_append]
  · rw [if_neg hmode, if_neg hmode, List.append_nil]
    exact List.append_nil _

/-- The values of the flags that the mode `nextn` adds. -/
theorem valueOf_speculative (hs : Silent interp p) (hmode : p.mode = str "nextn") :
    valueOf (argvOf interp p sha) "--speculative-num-steps" = some (number p.speculativeSteps) ∧
      valueOf (argvOf interp p sha) "--speculative-num-draft-tokens" =
        some (number (p.speculativeSteps + 1)) ∧
      valueOf (argvOf interp p sha) "--speculative-draft-kv-cache-dtype" =
        some (p.draftKvCacheDtype.orElse (.str p.kvCacheDtype)) := by
  have hbase : ∀ flag ∉ baseFlags, isFlag (word flag) = true →
      word flag ∉ baseArgs interp p sha := by
    intro flag hflag his hmem
    rw [mem_of_flag his, flagsOf_baseArgs hs, mem_words] at hmem
    exact hflag hmem
  obtain ⟨hmoe, hgraph, hfraction, hkv, hvision, hquantization, hdraft⟩ := hs
  unfold argvOf
  rw [if_pos hmode, valueOf_append (hbase _ (by decide) (by decide)),
    valueOf_append (hbase _ (by decide) (by decide)),
    valueOf_append (hbase _ (by decide) (by decide))]
  unfold speculativeArgs
  refine ⟨?_, ?_, ?_⟩ <;>
  simp (disch := first | assumption | exact isFlag_number _ | decide) only
    [valueOf_words, valueOf_other, valueOf_option]

/-- Without the mode the draft has no flag. -/
theorem valueOf_draft_eq_none (hs : Silent interp p) (hmode : p.mode ≠ str "nextn") :
    valueOf (argvOf interp p sha) "--speculative-draft-kv-cache-dtype" = none := by
  refine valueOf_eq_none ?_
  rw [mem_of_flag (by decide), flagsOf_argvOf hs, if_neg hmode, mem_words]
  decide

/-! ## The agreement -/

/-- The word is a flag of the speculation. -/
def isSpeculative (v : Value) : Bool :=
  v.asStr?.any fun s => s.take 14 == str "--speculative-"

theorem isFlag_speculative {v : Value} (h : isSpeculative v = true) : isFlag v = true := by
  cases v with
  | str s =>
    have htake : s.take 14 = str "--speculative-" := by simpa [isSpeculative, Value.asStr?] using h
    have hfirst : s.take 2 = [45, 45] := by
      have hprefix : (s.take 14).take 2 = [45, 45] := by
        rw [htake]
        decide
      rwa [List.take_take] at hprefix
    simpa [isFlag, Value.asStr?] using hfirst
  | _ => cases h

/-- The KV cache is scaled by a frozen calibration: the sidecar is a file below the directory of the
model's commit, with its digest, and nothing is collected. -/
def Frozen (p : Profile) (sha : Str) (env : Fields) : Prop :=
  p.kvCalibrationMode = word "frozen" ∧ ∃ file digest,
    isSafeBasename file = true ∧ 47 ∉ file ∧ isSha256 digest = true ∧
    Value.field env "SGLANG_QSA_KV_SCALE_SIDECAR" =
      .str (str "/opt/r0b0tlab/kv-calibration/" ++ sha ++ str "/" ++ file) ∧
    Value.field env "SGLANG_QSA_KV_SCALE_SHA256" = .str digest ∧
    Value.field env "SGLANG_QSA_KV_AMAX_CALIB" = word "0"

/-- The argument vector and the environment of a launch agree. -/
structure Agrees (p : Profile) (sha : Str) (argv : List Value) (env : Fields) : Prop where
  /-- No flag is there twice. -/
  once : (flagsOf argv).Nodup
  frozen : valueOf argv "--kv-cache-dtype" = some (word "nvfp4") ∨
    valueOf argv "--speculative-draft-kv-cache-dtype" = some (word "nvfp4") → Frozen p sha env
  collected : Value.field env "SGLANG_QSA_KV_AMAX_CALIB" = word "1" →
    valueOf argv "--kv-cache-dtype" = some (word "bf16") ∧
    (∀ v, valueOf argv "--speculative-draft-kv-cache-dtype" = some v → v = word "bf16") ∧
    Value.field env "SGLANG_QSA_KV_SCALE_SIDECAR" = .str [] ∧
    Value.field env "SGLANG_QSA_KV_SCALE_SHA256" = .str []
  speculative : (∃ v ∈ argv, isSpeculative v = true) ↔ p.mode = str "nextn"
  complete : p.mode = str "nextn" → ∀ flag ∈ speculativeFlags, word flag ∈ argv
  steps : p.mode = str "nextn" → ∃ steps : Int, 1 ≤ steps ∧ steps ≤ 3 ∧
    valueOf argv "--speculative-num-steps" = some (number steps) ∧
    valueOf argv "--speculative-num-draft-tokens" = some (number (steps + 1))
  pool : ∃ n : Int, valueOf argv "--context-length" = some (number n) ∧
    valueOf argv "--max-total-tokens" = some (number n)

/-- The variables of the calibration. -/
theorem field_envOf (interp : Interp) (p : Profile) (sha : Str) :
    Value.field (envOf interp p sha) "SGLANG_QSA_KV_AMAX_CALIB" =
        word (if isMode p "collect" then "1" else "0") ∧
      Value.field (envOf interp p sha) "SGLANG_QSA_KV_SCALE_SIDECAR" =
        .str (if isMode p "frozen" then sidecarDir ++ sha ++ str "/" ++ strOf interp p.kvScaleFile
          else []) ∧
      Value.field (envOf interp p sha) "SGLANG_QSA_KV_SCALE_SHA256" =
        p.kvScaleSha256.orElse (.str []) := by
  unfold envOf Value.field
  refine ⟨?_, ?_, ?_⟩ <;>
  simp (disch := decide) only [lookup_other, lookup_self, Option.getD_some]

theorem not_mem_basename {file : Str} (h : isSafeBasename file = true) : 47 ∉ file := by
  intro hslash
  simp only [isSafeBasename, Bool.and_eq_true, List.all_eq_true, Bool.or_eq_true,
    decide_eq_true_eq, beq_iff_eq] at h
  have hchar := h.2 47 hslash
  omega

theorem frozen_of_nvfp4 {p : Profile} (h : Calibration p) (hdtype : p.kvCacheDtype = str "nvfp4") :
    Frozen p sha (envOf interp p sha) := by
  obtain ⟨hamax, hsidecar, hsha256⟩ := field_envOf interp p sha
  cases h with
  | absent hne => exact absurd hdtype hne
  | collect hbf16 =>
    rw [hbf16] at hdtype
    exact absurd hdtype (by decide)
  | frozen file digest _ hmode hfile hsafe hdigest hhex =>
    have hfrozen : isMode p "frozen" = true := by
      rw [isMode, hmode]
      decide
    have hcollect : isMode p "collect" = false := by
      rw [isMode, hmode]
      decide
    have hne : digest ≠ [] := by
      intro hnil
      rw [hnil] at hhex
      cases hhex
    refine ⟨hmode, file, digest, hsafe, not_mem_basename hsafe, hhex, ?_, ?_, ?_⟩
    · rw [hsidecar, if_pos hfrozen, hfile]
      rfl
    · rw [hsha256, hdigest]
      simp [Value.orElse, Value.truthy, hne]
    · rw [hamax, hcollect]
      rfl

/-- The vector and the environment of a consistent profile agree. -/
theorem agrees_of_consistent {p : Profile} (hs : Silent interp p) (h : Consistent p) :
    Agrees p sha (argvOf interp p sha) (envOf interp p sha) := by
  obtain ⟨hcontext, htotal, hkv⟩ := @valueOf_base interp p sha hs
  obtain ⟨hamax, hsidecar, hsha256⟩ := field_envOf interp p sha
  have hflags := @flagsOf_argvOf interp p sha hs
  refine ⟨?_, ?_, ?_, ?_, ?_, ?_, ?_⟩
  · rw [hflags]
    by_cases hmode : p.mode = str "nextn"
    · rw [if_pos hmode]
      decide
    · rw [if_neg hmode]
      decide
  · intro hnvfp4
    have hdtype : p.kvCacheDtype = str "nvfp4" := by
      cases hnvfp4 with
      | inl hbase =>
        rw [hkv] at hbase
        exact Value.str.inj (Option.some.inj hbase)
      | inr hdraft =>
        cases h.speculation with
        | off hmode =>
          have hne : p.mode ≠ str "nextn" := by
            rw [hmode]
            decide
          rw [valueOf_draft_eq_none hs hne] at hdraft
          cases hdraft
        | on hmode _ hvalue =>
          rw [(valueOf_speculative hs hmode).2.2] at hdraft
          obtain hnone | hbf16 | ⟨_, hsame⟩ := hvalue
          · rw [hnone] at hdraft
            exact Value.str.inj (Option.some.inj hdraft)
          · rw [hbf16] at hdraft
            have hword : word "bf16" = word "nvfp4" := Option.some.inj hdraft
            exact absurd hword (by decide)
          · exact hsame
    exact frozen_of_nvfp4 h.calibration hdtype
  · intro hon
    rw [hamax] at hon
    cases h.calibration with
    | absent _ hmode =>
      rw [isMode, hmode] at hon
      exact absurd hon (by decide)
    | frozen _ _ _ hmode =>
      rw [isMode, hmode] at hon
      exact absurd hon (by decide)
    | collect hbf16 hmode hfile hdigest =>
      have hfrozen : isMode p "frozen" = false := by
        rw [isMode, hmode]
        decide
      refine ⟨?_, ?_, ?_, ?_⟩
      · rw [hkv, hbf16]
        rfl
      · intro v hv
        cases h.speculation with
        | off hoff =>
          have hne : p.mode ≠ str "nextn" := by
            rw [hoff]
            decide
          rw [valueOf_draft_eq_none hs hne] at hv
          cases hv
        | on hnextn _ hvalue =>
          rw [(valueOf_speculative hs hnextn).2.2] at hv
          have hv := Option.some.inj hv
          obtain hnone | hdraft | ⟨_, hsame⟩ := hvalue
          · rw [← hv, hnone, hbf16]
            rfl
          · rw [← hv, hdraft]
            rfl
          · rw [hbf16] at hsame
            exact absurd hsame (by decide)
      · rw [hsidecar, hfrozen]
        rfl
      · rw [hsha256, hdigest]
        rfl
  · constructor
    · intro hspeculative
      obtain ⟨v, hv, hprefix⟩ := hspeculative
      by_contra hmode
      have hflag : v ∈ flagsOf (argvOf interp p sha) := mem_flagsOf.mpr ⟨hv, isFlag_speculative hprefix⟩
      rw [hflags, if_neg hmode, List.append_nil, words, List.mem_map] at hflag
      obtain ⟨name, hname, rfl⟩ := hflag
      have hnone : ∀ name ∈ baseFlags, isSpeculative (word name) = false := by decide
      rw [hnone name hname] at hprefix
      cases hprefix
    · intro hmode
      refine ⟨word "--speculative-algorithm", ?_, by decide⟩
      rw [mem_of_flag (by decide), hflags, if_pos hmode, mem_words]
      decide
  · intro hmode flag hflag
    have his : ∀ flag ∈ speculativeFlags, isFlag (word flag) = true := by decide
    rw [mem_of_flag (his flag hflag), hflags, if_pos hmode, mem_words]
    exact List.mem_append_right _ hflag
  · intro hmode
    cases h.speculation with
    | off hoff =>
      rw [hoff] at hmode
      exact absurd hmode (by decide)
    | on _ hrange =>
      have hvalues := @valueOf_speculative interp p sha hs hmode
      exact ⟨p.speculativeSteps, hrange.1, hrange.2, hvalues.1, hvalues.2.1⟩
  · refine ⟨p.contextLength, hcontext, ?_⟩
    rw [htotal, h.accepted.maxTotalTokens.2]

/-- For every text that `validate_payload` accepts and every checked lock there is a launch, and its
argument vector and its environment agree. -/
theorem build_agrees {payload : Str} {sources : Value} {validated : Validated} {sha : Str}
    (hlaws : FloatLaws interp) (hpayload : validateText interp payload = .ok validated)
    (hsources : checkedSources sources = .ok sha) :
    ∃ profile argv env, profileFromJson interp payload = .ok profile ∧
      buildArgv interp profile sources = .ok argv ∧ buildEnv interp profile sources = .ok env ∧
      profile.mode = validated.mode ∧ Agrees profile sha argv env := by
  obtain ⟨hloads, haccepted⟩ := validateText_ok.mp hpayload
  obtain ⟨hdistinct, hread⟩ := Py.loads_read hloads
  obtain ⟨hargv, henv⟩ := @build_of_accepted interp validated sources sha haccepted hdistinct hsources
  have hprofile : profileFromJson interp payload = .ok (profileOf validated) :=
    profileFromJson_ok.mpr ⟨hloads, haccepted, rfl⟩
  exact ⟨profileOf validated, _, _, hprofile, hargv, henv, rfl,
    agrees_of_consistent (silent_of_accepted hlaws haccepted hread) (consistent_profileOf haccepted)⟩

end

/-! ## A launch with a frozen calibration -/

/-- Two doubles and their texts. -/
def twoFloats : Interp where
  repr _ := []
  decodeError _ := []
  read s := List.lookup s [(str "0.75", 3 / 4), (str "0.80", memFractionStaticDefault),
    (str "0.8", memFractionStaticDefault)]
  text q := if q = 3 / 4 then str "0.75" else str "0.8"

theorem twoFloats_laws : FloatLaws twoFloats where
  default := by decide +kernel
  fraction := by
    intro literal q hread _ _
    have hcases : q = 3 / 4 ∨ q = memFractionStaticDefault := by
      unfold twoFloats at hread
      simp only [List.lookup_cons, List.lookup_nil] at hread
      split at hread
      · exact Or.inl (Option.some.inj hread).symm
      split at hread
      · exact Or.inr (Option.some.inj hread).symm
      split at hread
      · exact Or.inr (Option.some.inj hread).symm
      · cases hread
    cases hcases with
    | inl hq =>
      rw [hq]
      exact ⟨⟨[55, 53], by decide +kernel, by decide, by decide⟩, by decide +kernel⟩
    | inr hq =>
      rw [hq]
      exact ⟨⟨[56], by decide +kernel, by decide, by decide⟩, by decide +kernel⟩

def frozenCalibration : Fields :=
  [(str "mode", word "frozen"), (str "file", word "scales.json"),
    (str "sha256", word "3f4a3f4a3f4a3f4a3f4a3f4a3f4a3f4a3f4a3f4a3f4a3f4a3f4a3f4a3f4a3f4a")]

def frozenRaw : Fields :=
  [(str "schema", .int 1), (str "mode", word "nextn"), (str "context_length", .int 32768),
    (str "max_total_tokens", .int 32768), (str "mem_fraction_static", .float (3 / 4)),
    (str "kv_cache_dtype", word "nvfp4"),
    (str "kv_calibration", .dict frozenCalibration),
    (str "speculative", .dict [(str "steps", .int 2)]),
    (str "vision", .dict [(str "backend", word "fa4"), (str "cuda_graph", .bool true)])]

def frozenValidated : Validated :=
  ⟨frozenRaw, 1, str "nextn", 32768, 32768, 1, 1024, 8, 3 / 4, str "nvfp4",
    str "flashinfer_cutlass", 8, 1, str "full"⟩

def lockedModel : Fields :=
  [(str "id", word "nvidia/Qwen3.8-Flash-Next-NVFP4"),
    (str "sha", word "0a1b2c3d4e0a1b2c3d4e0a1b2c3d4e0a1b2c3d4e")]

def lockedSources : Value := .dict [(str "model", .dict lockedModel)]

def lockedSha : Str := str "0a1b2c3d4e0a1b2c3d4e0a1b2c3d4e0a1b2c3d4e"

theorem lockedSources_checked : checkedSources lockedSources = .ok lockedSha := by
  unfold checkedSources fullSha
  simp only [bind_ok, reject_ok, orRaise_ok, lockedSources, Value.asDict?_eq_some]
  exact ⟨_, rfl, lockedModel, by decide, (), by decide, (), by decide,
    by decide⟩

theorem frozenValidated_accepted : Accepted frozenValidated where
  schema := by decide
  mode := by decide
  contextLength := by decide
  maxTotalTokens := by decide
  maxRunningRequests := ⟨Or.inr (by decide), ⟨by decide, by simp, by simp⟩⟩
  chunkedPrefillSize := ⟨Or.inr (by decide), ⟨by decide, by simp, by simp⟩⟩
  maxMambaCacheSize := ⟨Or.inr (by decide), ⟨by simp, by decide, by decide⟩⟩
  memFractionStatic := Or.inl (by decide +kernel)
  kvCacheDtype := ⟨Or.inl (by decide), by decide⟩
  calibrated := by
    rw [show Value.lookup frozenValidated.raw "kv_calibration" = some (.dict frozenCalibration) by
      decide]
    exact .frozen frozenCalibration (str "scales.json")
      (str "3f4a3f4a3f4a3f4a3f4a3f4a3f4a3f4a3f4a3f4a3f4a3f4a3f4a3f4a3f4a3f4a") (by decide)
      (by decide) rfl (by decide) (by decide) (by decide)
      (by decide)
  moeBackend := ⟨Or.inr (by decide), by decide⟩
  speculates := by
    rw [show Value.field frozenValidated.raw "speculative" = .dict [(str "steps", .int 2)] by
      decide]
    exact .on _ 2 (str "bf16") (str "modelopt_mixed") rfl (by decide) (by decide)
      (by decide) ⟨Or.inr (by decide), by decide, fun _ => rfl⟩
      ⟨Or.inr (by decide), by decide⟩
  sees := by
    rw [show Value.field frozenValidated.raw "vision" =
      .dict [(str "backend", word "fa4"), (str "cuda_graph", .bool true)] by decide]
    exact .mk _ (str "fa4") true (by decide) (by decide) (by decide)
      (by decide)
  pleRssGib := ⟨Or.inr (by decide), ⟨by decide, by simp, by simp⟩⟩
  mmProcessorWorkerNum := ⟨Or.inr (by decide), ⟨by decide, by simp, by simp⟩⟩
  known := by decide
  decodeGraphBackend := ⟨Or.inr (by decide), by decide⟩

/-- The text of the document. -/
def frozenPayload : Str := Py.write twoFloats.text Py.Style.plain 0 (.dict frozenRaw)

theorem frozenPayload_accepted : validateText twoFloats frozenPayload = .ok frozenValidated := by
  have hloadable : Py.Loadable twoFloats.read twoFloats.text (.dict frozenRaw) := by
    refine Admitted.loadable (admitted_of_accepted frozenValidated_accepted ?_ ?_ [])
    · decide
    · exact twoFloats_laws.fraction (str "0.75") (3 / 4) (by decide +kernel)
        (by norm_num [memFractionStaticMin]) (by norm_num [memFractionStaticMax])
  exact validateText_ok.mpr
    ⟨Py.loads_write Py.Style.plain_spaced hloadable, frozenValidated_accepted⟩

theorem build_agrees_frozen :
    ∃ profile argv env, profileFromJson twoFloats frozenPayload = .ok profile ∧
      buildArgv twoFloats profile lockedSources = .ok argv ∧
      buildEnv twoFloats profile lockedSources = .ok env ∧ profile.mode = str "nextn" ∧
      Agrees profile lockedSha argv env :=
  build_agrees twoFloats_laws frozenPayload_accepted lockedSources_checked

end Runtime
end FlashNext
