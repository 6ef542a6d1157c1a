import FlashNext.Checkpoint.ReceiptSound
import FlashNext.Guard.Opening

/-!
# What stands before the start of a container

A launch makes its gates one after the other, so the trace up to the start is known call by
call.  `StartGate` reads off it what each gate saw.
-/

namespace FlashNext
namespace Guard

open Effect Posix Text Checkpoint

/-- The preflight passed. -/
def PreflightPassed (log : Log) : Prop :=
  ∃ modelBytes pleBytes modelRoot pleDir findings,
    (⟨.preflight modelBytes pleBytes modelRoot pleDir, .ok findings⟩ : Event Op Ans) ∈ log ∧
      findings.get "status" = .ok (.str "PASS")

/-- The image that was asked for was inspected and found to be it. -/
def ImageMatched (args : Args) (log : Log) : Prop :=
  ∃ image, (⟨.imageInspect args.image, .ok image⟩ : Event Op Ans) ∈ log ∧
    image.get "Id" = .ok (.str args.image) ∧ image.get "Architecture" = .ok (.str "arm64") ∧
      image.get "Os" = .ok (.str "linux")

/-- The receipt was checked against these documents and accepted. -/
abbrev receiptChecked (args : Args) (a : Admitted) (receipt : Json) : Event Op Ans :=
  ⟨.checkReceipt a.receiptPath args.receiptSha256 a.model a.sources, .ok receipt⟩

def NoStart (op : Op) : Prop := ∀ cid, op ≠ .start cid

def NoCreate (op : Op) : Prop := ∀ argv cidfile, op ≠ .create argv cidfile

/-- What is known when the container is to be created. -/
structure Prepared (env : Env) (args : Args) (a : Admitted) (expect : Expect) (log : Log) :
    Prop where
  calls : ∀ e ∈ log, NoStart e.1 ∧ NoCreate e.1
  epoch : Epoch env args log expect
  receipt : ⟨.safePath args.receipt false, .ok a.receiptPath⟩ ∈ log
  model : ⟨.safePath args.modelRoot false, .ok a.model⟩ ∈ log
  sources : ∃ path, ⟨.readJson .sources path, .ok (a.sources, a.sourceRaw)⟩ ∈ log
  preflight : PreflightPassed log
  image : ImageMatched args log
  checked : ∃ first, receiptChecked args a first ∈ log

/-- `create` returned the identifier and, after the record was saved, the container was
inspected. -/
def Created (env : Env) (args : Args) (a : Admitted) (expect : Expect) (cid : String)
    (log : Log) : Prop :=
  ∃ prepared argv cidfile saves doc,
    log = prepared ++ ([⟨.create argv cidfile, .ok cid⟩] ++ saves ++
      [inspected .created cid (.ok doc)]) ∧
    Prepared env args a expect prepared ∧ (∀ e ∈ saves, Finishes e.1) ∧ Owned doc expect cid

/-- The gates a launch has passed when it starts the container. -/
def StartGate (env : Env) (args : Args) (a : Admitted) (expect : Expect) (cid : String)
    (log : Log) : Prop :=
  ∃ created second, log = created ++ [⟨.eventIsSet, false⟩, receiptChecked args a second] ∧
    Created env args a expect cid created

/-- What holds when a launch starts a container. -/
def MayStart (env : Env) (args : Args) (op : Op) (log : Log) : Prop :=
  ∀ cid, op = .start cid → ∃ a expect, StartGate env args a expect cid log

section

variable {env : Env} {ok : (op : Op) → Ans op → Prop} {w w' : World} {args : Args}
  {a : Admitted} {expect : Expect} {cid : String}

theorem mayStart_other {op : Op} {log : Log} (h : NoStart op) : MayStart env args op log :=
  fun cid hop => absurd hop (h cid)

/-- The gates before the container is created. -/
theorem prepareLaunch_value
    (h : Run (semantics env ok) (prepareLaunch args a) w (.value ()) w') :
    ∃ before first after, w'.log = w.log ++ (before ++ [receiptChecked args a first] ++ after) ∧
      PreflightPassed before ∧ ImageMatched args after ∧
      ∀ e ∈ before ++ [receiptChecked args a first] ++ after, Prepares e.1 := by
  obtain ⟨evs, hevs, hcalls⟩ := Run.log_extends prepareLaunch_calls h
  simp only [prepareLaunch, run_bind_value, run_attempt_value, run_ofExcept_value] at h
  obtain ⟨_, v₁, h₁, findings, v₂, h₂, _, v₃, h₃, status, _, ⟨hstatus, rfl⟩, _, v₄, h₄, _, v₅,
    h₅, receipt, v₆, h₆, image, v₇, h₇, id, _, ⟨hid, rfl⟩, architecture, _, ⟨harchitecture, rfl⟩,
    os, _, ⟨hos, rfl⟩, _, v₈, h₈, _, v₉, h₉, h₁₀⟩ := h
  obtain ⟨hpass, rfl⟩ := run_require_value.mp h₄
  obtain ⟨hmatch, rfl⟩ := run_require_value.mp h₈
  simp only [Bool.and_eq_true, Json.isText_iff] at hpass hmatch
  obtain ⟨⟨rfl, rfl⟩, rfl⟩ := hmatch
  subst hpass
  have l₃ : v₄.log = v₂.log ++ [⟨.writeTemp .preflight findings, .ok ()⟩,
    ⟨.replace .preflight findings, .ok ()⟩] := by rw [save_value h₃]
  have hlog := run_ask_log rfl h₁₀
  rw [run_ask_log rfl h₉, run_ask_log rfl h₇, run_ask_log rfl (run_attempt_value.mp h₆),
    run_assign_log h₅, l₃, run_ask_log rfl h₂, run_assign_log h₁] at hlog
  simp only [List.append_assoc, List.cons_append, List.nil_append] at hlog
  rw [hlog, List.append_cancel_left_eq] at hevs
  subst hevs
  refine ⟨_ :: _ :: _ :: [], receipt, _ :: _ :: _ :: [], hlog, ?_, ?_, hcalls⟩
  · exact ⟨_, _, _, _, findings, List.mem_cons_self, hstatus⟩
  · exact ⟨image, List.mem_cons_self, hid, harchitecture, hos⟩

/-- Creating the container and inspecting it. -/
theorem createContainer_value {command : List String}
    (h : Run (semantics env ok) (createContainer a expect command) w (.value cid) w') :
    ∃ argv cidfile after doc, w'.log = w.log ++ ([⟨.create argv cidfile, .ok cid⟩] ++ after ++
        [inspected .created cid (.ok doc)]) ∧
      (∀ e ∈ after, Finishes e.1) ∧ Owned doc expect cid := by
  simp only [createContainer, run_bind_value, run_attempt_value, run_ofExcept_value, run_pure,
    Outcome.value.injEq] at h
  obtain ⟨_, v₁, h₁, created, v₂, h₂, _, v₃, h₃, _, _, ⟨-, rfl⟩, _, v₄, h₄, _, v₅, h₅, doc, v₆, h₆,
    _, _, ⟨hverify, rfl⟩, rfl, rfl⟩ := h
  obtain ⟨rfl, howned⟩ := verifyOwnership_ok.mp hverify
  have l₅ : v₅.log = v₄.log ++ [⟨.writeTemp .launchRecord (.obj v₄.st.record), .ok ()⟩,
    ⟨.replace .launchRecord (.obj v₄.st.record), .ok ()⟩] := by rw [saveRecord_value h₅]
  have hlog := run_ask_log rfl h₆
  rw [l₅, run_assign_log h₄, run_assign_log h₃, run_ask_log rfl h₂, run_assign_log h₁] at hlog
  simp only [List.append_assoc] at hlog
  refine ⟨command, (a.state.child StateFile.cid.name).str, [⟨.writeTemp .launchRecord
    (.obj v₄.st.record), .ok ()⟩, ⟨.replace .launchRecord (.obj v₄.st.record), .ok ()⟩], _, ?_, ?_,
    howned⟩
  · simp only [List.append_assoc]
    exact hlog
  · simp [Finishes]

/-- Before a start nothing was started. -/
theorem StartGate.once {log : Log} (h : StartGate env args a expect cid log) :
    ∀ e ∈ log, NoStart e.1 := by
  obtain ⟨_, second, rfl, prepared, argv, cidfile, saves, doc, rfl, hprepared, hsaves, -⟩ := h
  intro e he
  simp only [List.append_assoc, List.mem_append, List.mem_cons, List.not_mem_nil, or_false] at he
  rcases he with he | rfl | he | rfl | rfl | rfl
  · exact (hprepared.calls e he).1
  · simp [NoStart]
  · intro c hc
    have hfin := hsaves e he
    rw [hc] at hfin
    exact hfin
  · simp [NoStart]
  · simp [NoStart]
  · simp [NoStart]

theorem Prepared.append {log evs : Log} (h : Prepared env args a expect log)
    (hevs : ∀ e ∈ evs, Neutral e.1 ∧ NoStart e.1 ∧ NoCreate e.1) :
    Prepared env args a expect (log ++ evs) := by
  have hmem : ∀ {e}, e ∈ log → e ∈ log ++ evs := fun he => List.mem_append_left evs he
  refine ⟨?_, h.epoch.append fun e he => (hevs e he).1, hmem h.receipt, hmem h.model, ?_, ?_, ?_,
    ?_⟩
  · intro e he
    rcases List.mem_append.mp he with he | he
    · exact h.calls e he
    · exact (hevs e he).2
  · obtain ⟨path, hpath⟩ := h.sources
    exact ⟨path, hmem hpath⟩
  · obtain ⟨m, p, r, d, findings, hev, hpass⟩ := h.preflight
    exact ⟨m, p, r, d, findings, hmem hev, hpass⟩
  · obtain ⟨image, hev, hmatch⟩ := h.image
    exact ⟨image, hmem hev, hmatch⟩
  · obtain ⟨first, hev⟩ := h.checked
    exact ⟨first, hmem hev⟩

theorem Prepared.of_run {α : Type} {p : GuardM α} {o : Outcome Exn α}
    (h : Prepared env args a expect w.log)
    (hp : p.Calls fun op => Neutral op ∧ NoStart op ∧ NoCreate op)
    (hrun : Run (semantics env ok) p w o w') : Prepared env args a expect w'.log := by
  obtain ⟨evs, hlog, hevs⟩ := Run.log_extends hp hrun
  rw [hlog]
  exact h.append hevs

theorem noStart_of_opens {op : Op} (h : Opens op ∨ Prepares op) : NoStart op ∧ NoCreate op := by
  refine ⟨?_, ?_⟩
  · rintro c rfl
    rcases h with (h | h) | h <;> exact h
  · rintro argv cidfile rfl
    rcases h with (h | h) | h <;> exact h

/-- A launch that is opened and has passed its gates is prepared. -/
theorem Opened.prepared (h : Opened args a w.log) {v v' : World}
    (hprepare : Run (semantics env ok) (prepareLaunch args a) w (.value ()) v)
    (hepoch : Run (semantics env ok) (newEpoch env args a) v (.value expect) v') :
    Prepared env args a expect v'.log := by
  obtain ⟨before, first, after, hlog, hpreflight, himage, hcalls⟩ := prepareLaunch_value hprepare
  have hneutral : ∀ op, Prepares op → Neutral op := by
    intro op hop
    cases op <;> first | exact hop.elim | trivial
  have hfresh := h.fresh.of_run (prepareLaunch_calls.mono hneutral) hprepare
  obtain ⟨he, rfl⟩ := newEpoch_value hfresh hepoch
  have hmem : ∀ {e}, e ∈ w.log → e ∈ v.log ++ [⟨.tokenHex, expect.nonce⟩] := by
    intro e hw
    rw [hlog, List.append_assoc]
    exact List.mem_append_left _ hw
  have hmem' : ∀ {e}, e ∈ before ++ [receiptChecked args a first] ++ after →
      e ∈ v.log ++ [⟨.tokenHex, expect.nonce⟩] := by
    intro e hw
    rw [hlog]
    exact List.mem_append_left _ (List.mem_append_right _ hw)
  refine ⟨?_, he, hmem h.receipt, hmem h.model, ?_, ?_, ?_, first, hmem' (by simp)⟩
  · intro e hev
    rw [hlog, List.append_assoc, List.mem_append, List.mem_append, List.mem_singleton] at hev
    rcases hev with hev | hev | rfl
    · exact noStart_of_opens (.inl (h.calls e hev))
    · exact noStart_of_opens (.inr (hcalls e hev))
    · exact ⟨by simp [NoStart], by simp [NoCreate]⟩
  · obtain ⟨path, hpath⟩ := h.sources
    exact ⟨path, hmem hpath⟩
  · obtain ⟨m, p, r, d, findings, hev, hpass⟩ := hpreflight
    exact ⟨m, p, r, d, findings, hmem' (by simp [hev]), hpass⟩
  · obtain ⟨image, hev, hmatch⟩ := himage
    exact ⟨image, hmem' (by simp [hev]), hmatch⟩

theorem noStart_creates {op : Op} (h : Creates op) : NoStart op := by
  rintro c rfl
  exact h

theorem noStart_watches {op : Op} (h : Watches op) : NoStart op := by
  rintro c rfl
  exact h

/-- Parts that start nothing are guarded, whatever starting asks for. -/
theorem guarded_of_noStart {α : Type} {p : GuardM α} (hp : p.Calls NoStart) (v : World) :
    Guarded (semantics env ok) (fun op u => MayStart env args op u.log) p v :=
  Guarded.of_calls hp (fun _ _ hop => mayStart_other hop) v

theorem startAndWatch_guarded {rounds : Nat} {created : Log}
    (h : Created env args a expect cid created) (hw : w.log = created ++ [⟨.eventIsSet, false⟩]) :
    Guarded (semantics env ok) (fun op v => MayStart env args op v.log)
      (startAndWatch args a expect cid rounds) w := by
  have hset : ∀ rc, (setRc rc).Calls NoStart := fun rc => calls_assign (by simp [NoStart])
  have hcall : ∀ {op : Op}, NoStart op → (ask op).Calls NoStart := fun h => calls_ask h
  have hcheck : (recheck args a).Calls NoStart := calls_attempt (hcall (by simp [NoStart]))
  refine (guarded_of_noStart (hset _) w).bind fun _ v₁ h₁ => ?_
  refine (guarded_of_noStart hcheck v₁).bind fun second v₂ h₂ => ?_
  refine (guarded_of_noStart (hset _) v₂).bind fun _ v₃ h₃ => ?_
  have hlog : v₃.log = created ++ [⟨.eventIsSet, false⟩, receiptChecked args a second] := by
    rw [run_assign_log h₃, run_ask_log rfl (run_attempt_value.mp h₂), run_assign_log h₁, hw,
      List.append_assoc]
    rfl
  refine Guarded.bind ?_ fun _ v₄ h₄ => guarded_of_noStart ?_ v₄
  · refine Guarded.bind (Guarded.perform ?_) fun r v _ => Guarded.ofExcept r v
    intro cid' hcid
    rw [Op.start.injEq] at hcid
    exact ⟨a, expect, created, second, hlog, hcid ▸ h⟩
  · refine (hset _).bind fun _ => Prog.Calls.bind (hcall (by simp [NoStart])) fun start => ?_
    refine Prog.Calls.bind (calls_attempt (hcall (by simp [NoStart]))) fun _ => ?_
    exact (watchLoop_calls.mono fun _ => noStart_watches).finally_
      (calls_attempt (hcall (by simp [NoStart])))

theorem spawn_guarded {command : List String} {rounds : Nat}
    (h : Prepared env args a expect w.log) :
    Guarded (semantics env ok) (fun op v => MayStart env args op v.log)
      (spawn args a expect command rounds) w := by
  have hcreates : ∀ {β : Type} {p : GuardM β} (v : World), p.Calls Creates →
      Guarded (semantics env ok) (fun op u => MayStart env args op u.log) p v :=
    fun v hp => guarded_of_noStart (hp.mono fun _ => noStart_creates) v
  have hevent : (ask .eventIsSet).Calls Creates := calls_ask trivial
  have hint : setInterrupted.Calls NoStart :=
    setInterrupted_calls (by simp [NoStart]) (by simp [NoStart])
  refine (hcreates w hevent).bind fun stop v₁ h₁ => ?_
  have hv₁ : Prepared env args a expect v₁.log := by
    rw [run_ask_log rfl h₁]
    exact h.append (by simp [Neutral, NoStart, NoCreate])
  split
  · exact guarded_of_noStart hint v₁
  · refine (hcreates v₁ createContainer_calls).bind fun cid v₂ h₂ => ?_
    obtain ⟨argv, cidfile, saves, doc, hlog, hsaves, howned⟩ := createContainer_value h₂
    refine (hcreates v₂ hevent).bind fun stop v₃ h₃ => ?_
    split
    · exact guarded_of_noStart hint v₃
    · next hstop =>
      rw [Bool.not_eq_true] at hstop
      subst hstop
      exact startAndWatch_guarded ⟨v₁.log, argv, cidfile, saves, doc, hlog, hv₁, hsaves, howned⟩
        (run_ask_log rfl h₃)

theorem launch_mayStart {rounds : Nat} (h : Opened args a w.log) :
    Guarded (semantics env ok) (fun op v => MayStart env args op v.log)
      (launch env args a rounds) w := by
  have hfinishes : ∀ op, Finishes op → Neutral op ∧ NoStart op ∧ NoCreate op := by
    intro op hop
    cases op <;> first | exact hop.elim | exact ⟨trivial, by simp [NoStart], by simp [NoCreate]⟩
  have hset : ∀ f, (assign f).Calls fun op => Neutral op ∧ NoStart op ∧ NoCreate op :=
    fun f => calls_assign ⟨trivial, by simp [NoStart], by simp [NoCreate]⟩
  have hother : ∀ {β : Type} {p : GuardM β} (v : World),
      p.Calls (fun op => Neutral op ∧ NoStart op ∧ NoCreate op) →
      Guarded (semantics env ok) (fun op u => MayStart env args op u.log) p v :=
    fun v hp => guarded_of_noStart (hp.mono fun op hop => hop.2.1) v
  have hsave := saveRecord_calls.mono hfinishes
  refine (guarded_of_noStart (prepareLaunch_calls.mono fun op hop =>
    (noStart_of_opens (.inr hop)).1) w).bind fun _ v₁ h₁ => ?_
  have hnonce : (newEpoch env args a).Calls NoStart :=
    Prog.Calls.bind (calls_ask (by simp [NoStart])) fun _ => calls_ret
  refine (guarded_of_noStart hnonce v₁).bind fun expect v₂ h₂ => ?_
  have hv₂ := h.prepared h₁ h₂
  refine (hother v₂ (hset _)).bind fun _ v₃ h₃ => ?_
  have hv₃ := hv₂.of_run (hset _) h₃
  refine (hother v₃ hsave).bind fun _ v₄ h₄ => ?_
  have hv₄ := hv₃.of_run hsave h₄
  refine (hother v₄ (hset _)).bind fun _ v₅ h₅ => ?_
  have hv₅ := hv₄.of_run (hset _) h₅
  refine Guarded.finally_ ?_ fun o v _ => guarded_of_noStart (cleanup_calls.mono ?_) v
  · refine (spawn_guarded hv₅).handle fun e v _ => hother v ?_
    exact recordError_calls fun _ _ => ⟨trivial, by simp [NoStart], by simp [NoCreate]⟩
  · rintro op (hop | hop | hop) c rfl <;> exact hop

def isStart (e : Event Op Ans) : Bool :=
  match e.1 with
  | .start _ => true
  | _ => false

theorem isStart_iff {e : Event Op Ans} : isStart e = true ↔ ∃ cid, e.1 = .start cid := by
  obtain ⟨op, r⟩ := e
  cases op <;> simp [isStart]

/-- A container is started at most once and only behind all gates; a run that only prints
does nothing else. -/
theorem run_gates_start {rounds : Nat} {o : Outcome Exn Nat}
    (h : Run (semantics env anyAnswer) (run env args rounds) initialWorld o w') :
    Clean (fun before e => MayStart env args e.1 before) w'.log ∧
      w'.log.countP isStart ≤ 1 ∧
      (args.printOnly = true → ∀ e ∈ w'.log, Shows e.1) := by
  have hguarded : Guarded (semantics env anyAnswer) (fun op v => MayStart env args op v.log)
      (run env args rounds) initialWorld := by
    refine run_guarded (fun op log hop => mayStart_other ?_) fun a v hv => launch_mayStart hv
    rintro c rfl
    exact hop
  have hclean : Clean (fun before e => MayStart env args e.1 before) w'.log :=
    Run.clean (fun op a w _ hop => hop) hguarded h clean_nil
  refine ⟨hclean, hclean.countP_le_one ?_, fun hprint e he => ?_⟩
  · intro before e hrule he e' he'
    obtain ⟨cid, hcid⟩ := isStart_iff.mp he
    obtain ⟨a, expect, hgate⟩ := hrule cid hcid
    rw [Bool.eq_false_iff, ne_eq, isStart_iff]
    rintro ⟨c, hc⟩
    exact hgate.once e' he' c hc
  · obtain ⟨evs, hlog, hevs⟩ := Run.log_extends (run_print_calls hprint) h
    have hlog' : w'.log = evs := hlog
    exact hevs e (hlog' ▸ he)

end

/-! ## A launch that succeeds -/

def launchLockText : String :=
  "\x7b\"model\":\x7b\"id\":\"nvidia/Qwen3.8-Flash-Next-NVFP4\"," ++
  "\"sha\":\"aaaaaaaaaaaaaaaaaaaaaaaaaaaaaaaaaaaaaaa1\",\"files\":[\x7b\"path\":\"a.bin\"," ++
  "\"size\":3,\"sha256\":" ++
  "\"ae4b3280e56e2faf83f414a6e3dabe9d5fbe18976544c05fed121accb85b53fc\"\x7d]\x7d\x7d"

def launchProfileText : String :=
  "\x7b\"schema\":1,\"mode\":\"ar\",\"context_length\":32768,\"max_total_tokens\":32768," ++
  "\"vision\":\x7b\"backend\":\"triton_attn\",\"cuda_graph\":true\x7d\x7d"

def launchReceiptText : String :=
  "\x7b\"kind\":\"CHECKPOINT_VERIFIED\",\"root\":\"/model\"," ++
  "\"model\":\x7b\"id\":\"nvidia/Qwen3.8-Flash-Next-NVFP4\"," ++
  "\"sha\":\"aaaaaaaaaaaaaaaaaaaaaaaaaaaaaaaaaaaaaaa1\"\x7d,\"file_count\":1," ++
  "\"files\":[\x7b\"path\":\"a.bin\",\"dev\":64,\"inode\":12,\"size\":3,\"mtime_ns\":1," ++
  "\"ctime_ns\":2,\"sha256\":" ++
  "\"ae4b3280e56e2faf83f414a6e3dabe9d5fbe18976544c05fed121accb85b53fc\"\x7d]," ++
  "\"total_bytes\":3\x7d"

def launchTree : Tree where
  node
    | ["model", "a.bin"] => some (.file ⟨64, 12, 1, 2, sampleWeights⟩)
    | ["model"] => some (.directory sampleStat)
    | ["sources.json"] => some (.file ⟨64, 13, 1, 2, encode launchLockText⟩)
    | ["profile.json"] => some (.file ⟨64, 14, 1, 2, encode launchProfileText⟩)
    | ["receipt.json"] => some (.file ⟨64, 15, 1, 2, encode launchReceiptText⟩)
    | [] => some (.directory sampleStat)
    | _ => none
  cwd := []
  maxLinks := 40

def launchReceiptSha256 : String :=
  "835a5e94aef903dd7c76bac793eb0cedd6bb2d0e8e7e571332c15883ca40741c"

def launchProfileSha256 : String :=
  "1d8166e188659bf981554cf953dc257a79d9997d11a234032240fa863d5a34d3"

/-- The server command of the profile. -/
def launchServerText : String := " ".intercalate [
  "sglang serve --model-path /model --served-model-name nvidia/Qwen3.8-Flash-Next-NVFP4",
  "--tp-size 1 --nnodes 1 --node-rank 0 --host 0.0.0.0 --port 30000 --dtype bfloat16",
  "--quantization modelopt_mixed --load-format safetensors --ple-offload-embedding",
  "--ple-offload-backend file",
  "--ple-offload-dir /cache/ple/aaaaaaaaaaaaaaaaaaaaaaaaaaaaaaaaaaaaaaa1",
  "--fp4-gemm-backend flashinfer_cutlass --moe-runner-backend flashinfer_cutlass",
  "--attention-backend triton --mamba-ssm-dtype float32 --linear-attn-prefill-backend triton",
  "--linear-attn-decode-backend triton --linear-attn-verify-backend triton",
  "--reasoning-parser auto --tool-call-parser auto --cuda-graph-backend-decode full",
  "--cuda-graph-backend-prefill disabled --cuda-graph-bs-decode 1 --page-size 64",
  "--enable-metrics --watchdog-timeout 1800 --context-length 32768 --max-total-tokens 32768",
  "--max-running-requests 1 --chunked-prefill-size 1024 --max-prefill-tokens 1024",
  "--mem-fraction-static 0.8 --kv-cache-dtype bf16 --max-mamba-cache-size 8",
  "--mm-attention-backend triton_attn --mm-processor-worker-num 1"]

def launchServerEnv : List (String × Json) :=
  [("HOME", .str "/cache/home"), ("TMPDIR", .str "/cache/tmp"),
    ("XDG_CACHE_HOME", .str "/cache/xdg"), ("HF_HOME", .str "/cache/hf"),
    ("SGLANG_CACHE_DIR", .str "/cache/jit"), ("SGLANG_VIT_ENABLE_CUDA_GRAPH", .str "1"),
    ("SGLANG_VIT_ENABLE_VECTORIZED_POS_EMBED", .str "1"),
    ("SGLANG_QWEN4_PLE_FILE_RSS_BUDGET_GB", .str "8"),
    ("SGLANG_QWEN4_PLE_FILE_PREFETCH", .str "1"), ("SGLANG_QSA_KV_AMAX_CALIB", .str "0"),
    ("SGLANG_QSA_KV_MODEL_REVISION", .str "aaaaaaaaaaaaaaaaaaaaaaaaaaaaaaaaaaaaaaa1"),
    ("SGLANG_QSA_KV_SCALE_SIDECAR", .str ""), ("SGLANG_QSA_KV_SCALE_SHA256", .str ""),
    ("SGLANG_QWEN4_PLE_FILE_SKIP_DEVICE_CHECK", .str "0"),
    ("SGLANG_DISABLE_DRAFT_EXTEND_CUDA_GRAPH", .str "0"), ("R0B0TLAB_PLE_PREPARED_PATH", .str ""),
    ("R0B0TLAB_PLE_PREPARED_SHA256", .str ""), ("MAX_JOBS", .str "1"),
    ("FLASHINFER_NVCC_THREADS", .str "1"), ("HF_HUB_OFFLINE", .str "1"),
    ("TRANSFORMERS_OFFLINE", .str "1"), ("PYTHONDONTWRITEBYTECODE", .str "1")]

theorem launchProfileSha256_isHex : isHex 64 launchProfileSha256 = true := by decide

def launchEnv : Env where
  loads := sampleLoads
  sha256 data :=
    if data = encode launchReceiptText then ⟨launchReceiptSha256, by decide⟩
    else if data = encode launchProfileText then ⟨launchProfileSha256, launchProfileSha256_isHex⟩
    else ⟨"05ba05bb2f396e647ceb8cf82bf45f9471a560a20855999f40b8e349e0cd7bb6", by decide⟩
  build _ _ := .ok (.obj [("argv", .arr ((launchServerText.splitOn " ").map .str)),
    ("env", .obj launchServerEnv)])

def launchImage : String :=
  "sha256:0123456789abcdef0123456789abcdef0123456789abcdef0123456789abcdef"

def launchArgs : Args where
  image := launchImage
  profile := "/profile.json"
  modelRoot := "/model"
  cacheDir := "/cache"
  sources := "/sources.json"
  receipt := "/receipt.json"
  receiptSha256 := launchReceiptSha256
  stateDir := "/state"
  printOnly := false
  maxWatchSeconds := some ⟨0, 0⟩
  memAvailableFloorGib := ⟨4, 0⟩

def launchCid : String := "fedcba9876543210fedcba9876543210fedcba9876543210fedcba9876543210"

def launchNonce : Hex 32 := ⟨"00112233445566778899aabbccddeeff", by decide⟩

/-- `docker container inspect`. -/
def containerDoc (running : Bool) (exitCode : Int) : Json := .obj
  [("Id", .str launchCid), ("Image", .str launchImage),
    ("Config", .obj [("Labels", .obj
      [(ownerLabelKey, .str launchNonce.text), (labelProfile, .str launchProfileSha256),
        (labelImage, .str launchImage)])]),
    ("State", .obj
      [("Running", .bool running), ("ExitCode", .int exitCode), ("OOMKilled", .bool false)])]

/-- Answers under which the launch succeeds. -/
def launchInput : (op : Op) → In op
  | .safePath value _ => ⟨.ok false, .ok (.ofString value), .ofString "/root"⟩
  | .readJson _ _ => treeView launchTree
  | .checkReceipt _ _ _ _ => treeView launchTree
  | .locals => ()
  | .assign _ => ()
  | .imageInspect image => .ok (.obj
      [("Id", .str image), ("Architecture", .str "arm64"), ("Os", .str "linux")])
  | .create _ _ => (.ok launchCid : Except Exn String)
  | .start _ => (.ok () : Except Exn Unit)
  | .inspect _ _ => (.ok (containerDoc false 0) : Except Exn Json)
  | .stop _ => (.ok () : Except Exn Unit)
  | .logs _ => (.ok "" : Except Exn String)
  | .preflight _ _ _ _ => (.ok (.obj [("status", .str "PASS")]) : Except Exn Json)
  | .isDir _ => (.ok true : Except Exn Bool)
  | .mkdir _ => (.ok () : Except Exn Unit)
  | .openLock _ => (.ok () : Except Exn Unit)
  | .flock => (.ok () : Except Exn Unit)
  | .closeLock => ()
  | .writeTemp _ _ => (.ok () : Except Exn Unit)
  | .replace _ _ => (.ok () : Except Exn Unit)
  | .writeNew _ _ => (.ok () : Except Exn Unit)
  | .writeText _ _ => (.ok () : Except Exn Unit)
  | .openTelemetry => (.ok () : Except Exn Unit)
  | .writeTelemetry _ => (.ok () : Except Exn Unit)
  | .closeTelemetry => (.ok () : Except Exn Unit)
  | .cidfileExists => (.ok true : Except Exn Bool)
  | .cidfileRead => (.ok launchCid : Except Exn String)
  | .tokenHex => launchNonce
  | .eventIsSet => false
  | .signal => none
  | .monotonic => ⟨0, 0⟩
  | .time => ⟨0, 0⟩
  | .memAvailable => (.ok (.int 100000000) : Except Exn Json)
  | .sleep => (.ok () : Except Exn Unit)
  | .print _ => (.ok () : Except Exn Unit)
  | .report _ => ()

theorem launch_starts : ((exec (semantics launchEnv anyAnswer) (fun _ => launchInput)
    (run launchEnv launchArgs 1) 0 initialWorld).map fun r => (r.1, r.2.log.countP isStart)) =
      some (Outcome.value 0, 1) := by
  decide +kernel

theorem run_gates_start_sample :
    ∃ w', Run (semantics launchEnv anyAnswer) (run launchEnv launchArgs 1) initialWorld
        (.value 0) w' ∧
      w'.log.countP isStart = 1 ∧
      Clean (fun before e => MayStart launchEnv launchArgs e.1 before) w'.log := by
  obtain ⟨⟨o, w'⟩, hexec, heq⟩ := Option.map_eq_some_iff.mp launch_starts
  rw [Prod.mk.injEq] at heq
  obtain ⟨rfl, hcount⟩ := heq
  have hrun := run_of_exec hexec
  exact ⟨w', hrun, hcount, (run_gates_start hrun).1⟩

end Guard
end FlashNext
