import FlashNext.Sandbox.Forgery

/-!
# The line of a receipt

A receipt carries the last bytes of both outputs, decoded with replacement and then escaped,
and a receipt that is too long is replaced by one that blames the driver.  `main_carries_iff`
says for which outputs that happens.
-/

namespace FlashNext
namespace Sandbox

open Effect Text
open Py (Str Value str costs encodes)

/-! ## What an admitted request holds -/

/-- A text that costs one byte a character. -/
theorem plain_text {s : Str} (h : ∀ c ∈ s, 32 < c ∧ c ≠ 34 ∧ c ≠ 92 ∧ c < 0x80) :
    costs s = s.length ∧ encodes s = true := by
  constructor
  · induction s with
    | nil => rfl
    | cons c s ih =>
      rw [List.forall_mem_cons] at h
      obtain ⟨⟨hlow, hquote, hslash, hhigh⟩, hs⟩ := h
      have hcost : Py.cost c = 1 := by
        unfold Py.cost Py.utf8Width
        rw [if_neg (by omega), if_neg (by omega), if_pos hhigh]
      show Py.cost c + costs s = s.length + 1
      rw [hcost, ih hs]
      omega
  · exact Py.encodes_of_ascii fun c hc => (h c hc).2.2.2

theorem isHash_plain {s : Str} (h : isHash s = true) : costs s = 64 ∧ encodes s = true := by
  rw [isHash, Bool.and_eq_true, beq_iff_eq, List.all_eq_true] at h
  obtain ⟨hlen, hdigits⟩ := h
  rw [← hlen]
  apply plain_text
  intro c hc
  have hdigit := hdigits c hc
  simp only [Bool.or_eq_true, Bool.and_eq_true, decide_eq_true_eq] at hdigit
  omega

theorem isImageId_plain {s : Str} (h : isImageId s = true) : costs s = 71 ∧ encodes s = true := by
  rw [isImageId, Bool.and_eq_true, beq_iff_eq] at h
  obtain ⟨hstart, hhash⟩ := h
  obtain ⟨hcosts, henc⟩ := isHash_plain hhash
  have hsplit : s = str "sha256:" ++ s.drop 7 := by
    rw [← hstart, List.take_append_drop]
  constructor
  · rw [hsplit]
    show (List.map Py.cost (str "sha256:" ++ s.drop 7)).sum = 71
    rw [List.map_append, List.sum_append]
    show 7 + costs (s.drop 7) = 71
    omega
  · rw [hsplit, Py.encodes_append, henc, Py.encodes_str]
    rfl

theorem hex_plain (h : Hex 64) : costs (str h.text) = 64 := by
  have hhex := h.isHex
  rw [isHex, Bool.and_eq_true, beq_iff_eq, List.all_eq_true] at hhex
  obtain ⟨hlen, hdigits⟩ := hhex
  have hcosts : costs (str h.text) = (str h.text).length := by
    refine (plain_text fun c hc => ?_).1
    obtain ⟨d, hd, rfl⟩ := List.mem_map.mp hc
    have hdigit := hdigits d hd
    simp only [isHexDigit, Bool.or_eq_true, Bool.and_eq_true, decide_eq_true_eq,
      Char.le_def, UInt32.le_iff_toNat_le] at hdigit
    have hnum : d.toNat = d.val.toNat := rfl
    have h0 : ('0' : Char).val.toNat = 48 := rfl
    have h9 : ('9' : Char).val.toNat = 57 := rfl
    have ha : ('a' : Char).val.toNat = 97 := rfl
    have hf : ('f' : Char).val.toNat = 102 := rfl
    omega
  rw [hcosts, str, List.length_map, hlen]

theorem boundedText_ok {v : Value} {limit : Nat} {name : String} {text : Str}
    (h : boundedText v limit name = .ok text) : v = .str text ∧ encodes text = true := by
  simp only [boundedText, bind_ok, orRaise_ok, reject_ok, pure_ok] at h
  obtain ⟨s, hs, _, henc, _, -, rfl⟩ := h
  exact ⟨Py.Value.asStr?_eq_some.mp hs, by simpa using henc⟩

variable {interp : Interp}

theorem isEntryPoint_encodes {s : Str} (h : isEntryPoint interp s = true) :
    encodes s = true := by
  cases s with
  | nil => rfl
  | cons c s =>
    rw [isEntryPoint, Bool.and_eq_true, Bool.and_eq_true] at h
    obtain ⟨⟨hfirst, -⟩, hrest⟩ := h
    rw [List.all_eq_true] at hrest
    have hc : isSurrogate c = false := by
      simp only [Bool.or_eq_true, Bool.and_eq_true, decide_eq_true_eq, beq_iff_eq] at hfirst
      simp only [isSurrogate, Bool.and_eq_false_iff, decide_eq_false_iff_not]
      omega
    rw [Py.encodes_cons, hc, encodes, List.all_eq_true.mpr]
    · rfl
    · intro d hd
      rw [interp.word_encodes (hrest d hd)]
      rfl

/-- A value whose dictionary has no key twice gives each field by its key. -/
theorem field_of_mem {fs : List (Str × Value)} {key : String} {v : Value}
    (hnodup : (fs.map (·.1)).Nodup) (hmem : (str key, v) ∈ fs) :
    Value.field fs key = v ∧ hasKey fs key = true := by
  have hlookup : Value.lookup fs key = some v := by
    unfold Value.lookup
    rw [Option.map_eq_some_iff]
    induction fs with
    | nil => cases hmem
    | cons f fs ih =>
      rw [List.map_cons, List.nodup_cons] at hnodup
      rw [List.find?_cons]
      rcases List.mem_cons.mp hmem with rfl | hmem
      · exact ⟨_, by rw [beq_self_eq_true], rfl⟩
      · have hne : (f.1 == str key) = false := by
          rw [beq_eq_false_iff_ne]
          intro heq
          exact hnodup.1 (heq ▸ List.mem_map_of_mem hmem)
        rw [hne]
        exact ih hnodup.2 hmem
  rw [Value.field, hasKey, hlookup]
  exact ⟨rfl, rfl⟩

/-- A dictionary of texts can be written. -/
theorem texts_of_fields {fs : List (Str × Value)}
    (h : ∀ f ∈ fs, encodes f.1 = true ∧ ∃ s, f.2 = .str s ∧ encodes s = true) :
    (Value.dict fs).dumps = true ∧ (Value.dict fs).textual interp.floatText = true := by
  rw [Value.dumps, Value.textual]
  induction fs with
  | nil => exact ⟨rfl, rfl⟩
  | cons f fs ih =>
    obtain ⟨key, v⟩ := f
    obtain ⟨⟨hkey, s, rfl, hs⟩, hrest⟩ := List.forall_mem_cons.mp h
    obtain ⟨hdumps, htextual⟩ := ih hrest
    rw [Value.dumpsFields, Value.textualFields, hdumps, htextual, hkey]
    exact ⟨rfl, by rw [Value.textual, hs]; rfl⟩

/-- An admitted reference holds nothing but texts. -/
theorem validateReference_ok {reference : Value} {u : Unit} (hdistinct : reference.distinct = true)
    (h : validateReference interp reference = .ok u) :
    reference.dumps = true ∧ reference.textual interp.floatText = true := by
  simp only [validateReference, bind_ok, orRaise_ok, reject_ok] at h
  obtain ⟨fs, hfs, _, hkeys, h⟩ := h
  obtain rfl := Py.Value.asDict?_eq_some.mp hfs
  rw [Value.distinct, Bool.and_eq_true, decide_eq_true_eq] at hdistinct
  obtain ⟨hnodup, -⟩ := hdistinct
  -- the optional checks, one after the other
  have htest : hasKey fs "test" = true → ∃ s, Value.field fs "test" = .str s ∧
      encodes s = true := by
    intro hkey
    rw [if_pos hkey] at h
    obtain ⟨s, hs, -⟩ := bind_ok.mp h
    exact ⟨s, boundedText_ok hs⟩
  have hrest : ∃ u', (if hasKey fs "canonical" = true then do
      let _ ← boundedText (Value.field fs "canonical") maxCandidateBytes "reference.canonical"
      reject (hasKey fs "entry_point" &&
          !((Value.field fs "entry_point").asStr?.any (isEntryPoint interp)))
        (valueError (str "reference.entry_point is not a safe Python identifier"))
      reject (!(hasKey fs "test" || hasKey fs "entry_point"))
        (valueError (str "reference must contain test or entry_point"))
    else do
      reject (hasKey fs "entry_point" &&
          !((Value.field fs "entry_point").asStr?.any (isEntryPoint interp)))
        (valueError (str "reference.entry_point is not a safe Python identifier"))
      reject (!(hasKey fs "test" || hasKey fs "entry_point"))
        (valueError (str "reference must contain test or entry_point"))) = .ok u' := by
    by_cases hkey : hasKey fs "test" = true
    · rw [if_pos hkey] at h
      obtain ⟨_, -, h⟩ := bind_ok.mp h
      exact ⟨u, h⟩
    · rw [if_neg hkey] at h
      exact ⟨u, h⟩
  obtain ⟨u', hrest⟩ := hrest
  have hcanonical : hasKey fs "canonical" = true → ∃ s, Value.field fs "canonical" = .str s ∧
      encodes s = true := by
    intro hkey
    rw [if_pos hkey] at hrest
    obtain ⟨s, hs, -⟩ := bind_ok.mp hrest
    exact ⟨s, boundedText_ok hs⟩
  have hentry : hasKey fs "entry_point" = true → ∃ s, Value.field fs "entry_point" = .str s ∧
      encodes s = true := by
    intro hkey
    have hlast : (hasKey fs "entry_point" &&
        !((Value.field fs "entry_point").asStr?.any (isEntryPoint interp))) = false := by
      by_cases hkey' : hasKey fs "canonical" = true
      · rw [if_pos hkey'] at hrest
        obtain ⟨_, -, hrest⟩ := bind_ok.mp hrest
        obtain ⟨_, hentry, -⟩ := bind_ok.mp hrest
        exact reject_ok.mp hentry
      · rw [if_neg hkey'] at hrest
        obtain ⟨_, hentry, -⟩ := bind_ok.mp hrest
        exact reject_ok.mp hentry
    rw [hkey, Bool.true_and, Bool.not_eq_false', Option.any_eq_true] at hlast
    obtain ⟨s, hs, hname⟩ := hlast
    exact ⟨s, Py.Value.asStr?_eq_some.mp hs, isEntryPoint_encodes hname⟩
  have hall : ∀ f ∈ fs, encodes f.1 = true ∧ ∃ s, f.2 = .str s ∧ encodes s = true := by
    intro f hf
    obtain ⟨key, v⟩ := f
    rw [Bool.not_eq_false', List.all_eq_true] at hkeys
    have hkey := hkeys _ hf
    simp only [List.map_cons, List.map_nil, List.mem_cons, List.not_mem_nil, or_false,
      decide_eq_true_eq] at hkey
    rcases hkey with rfl | rfl | rfl
    · obtain ⟨hfield, hhas⟩ := field_of_mem hnodup hf
      exact ⟨Py.encodes_str _, hfield ▸ hentry hhas⟩
    · obtain ⟨hfield, hhas⟩ := field_of_mem hnodup hf
      exact ⟨Py.encodes_str _, hfield ▸ hcanonical hhas⟩
    · obtain ⟨hfield, hhas⟩ := field_of_mem hnodup hf
      exact ⟨Py.encodes_str _, hfield ▸ htest hhas⟩
  exact texts_of_fields hall

theorem distinct_field {fs : List (Str × Value)} (key : String)
    (h : Value.distinctFields fs = true) : (Value.field fs key).distinct = true := by
  rw [Value.field, Value.lookup]
  induction fs with
  | nil => rfl
  | cons f fs ih =>
    rw [Value.distinctFields, Bool.and_eq_true] at h
    rw [List.find?_cons]
    cases f.1 == str key with
    | true => exact h.1
    | false => exact ih h.2

/-- What the driver may rely on in an admitted request. -/
structure Admitted (interp : Interp) (request : Request) : Prop where
  imageId : isImageId request.imageId = true
  requestHash : isHash request.requestHash = true
  dumps : request.reference.dumps = true
  textual : request.reference.textual interp.floatText = true

theorem validateRequest_ok {v : Value} {request : Request} (hdistinct : v.distinct = true)
    (h : validateRequest interp v = .ok request) : Admitted interp request := by
  simp only [validateRequest, bind_ok, orRaise_ok, reject_ok, pure_ok] at h
  obtain ⟨fs, hfs, _, -, _, -, _, -, _, -, _, -, imageId, -, _, himage, candidate, -, _, hreference,
    seconds, -, _, -, supplied, -, _, hhash, _, -, _, -, rfl⟩ := h
  obtain rfl := Py.Value.asDict?_eq_some.mp hfs
  rw [Value.distinct, Bool.and_eq_true] at hdistinct
  obtain ⟨hdumps, htextual⟩ :=
    validateReference_ok (distinct_field "reference" hdistinct.2) hreference
  exact ⟨by simpa using himage, by simpa using hhash, hdumps, htextual⟩

theorem admitRequest_ok {raw : Bytes} {request : Request}
    (h : admitRequest interp raw = .ok request) : Admitted interp request := by
  simp only [admitRequest, bind_ok] at h
  obtain ⟨_, -, v, hv, h⟩ := h
  exact validateRequest_ok (interp.loads_distinct hv) h

/-! ## The size of a receipt -/

theorem canonical_ok {v : Value} (hdumps : v.dumps = true)
    (htext : v.textual interp.floatText = true) : ∃ bytes, canonical interp v = .ok bytes ∧
      bytes.length = v.size interp.floatText := by
  obtain ⟨bytes, hbytes, hlen⟩ := Py.Value.canonical_ok hdumps htext
  refine ⟨bytes, ?_, hlen⟩
  rw [canonical, hbytes]
  rfl

theorem manifest_dumps : runtimeManifest.dumps = true := by
  have hfits : ∀ n ∈ [(9 : Int), 256 * 1024 * 1024, 1024 * 1024, 32, 64, maxOutputBytes,
      64 * 1024 * 1024], Py.fits n = true := by
    intro n hn
    apply Py.fits_of_lt
    revert n
    decide
  simp only [List.forall_mem_cons] at hfits
  obtain ⟨h₁, h₂, h₃, h₄, h₅, h₆, h₇, -⟩ := hfits
  simp only [runtimeManifest, Value.dumps, Value.dumpsFields, h₁, h₂, h₃, h₄, h₅, h₆, h₇]
  rfl

theorem manifest_textual : runtimeManifest.textual interp.floatText = true := by
  simp only [runtimeManifest, Value.textual, Value.textualFields, Py.encodes_str]
  rfl

theorem manifest_size {floatText : ℚ → Str} : runtimeManifest.size floatText = 256 := by
  simp only [runtimeManifest, Value.size, Value.sizeFields]
  decide

def receiptNames : List Str :=
  ["schema", "driver_version", "driver_source_sha256", "image_id", "request_sha256",
    "candidate_sha256", "reference_sha256", "runtime_manifest_sha256", "runtime_manifest",
    "status", "passed", "failure_class", "returncode", "stdout_bytes", "stderr_bytes",
    "stdout_tail", "stderr_tail", "reason", "stdin_isolated"].map str

theorem names_costs {fs : List (Str × Value)} (h : fs.map (·.1) = receiptNames) :
    (fs.map fun f => costs f.1).sum = 234 := by
  have hnames : (fs.map fun f => costs f.1) = (fs.map (·.1)).map costs := by
    rw [List.map_map]
    rfl
  rw [hnames, h]
  decide

/-- The bytes of a receipt line besides the two outputs: the texts and numbers of the result,
and what is the same in every receipt. -/
def overhead (r : RunResult) : Nat :=
  1064 + costs (str r.status.text) + (if r.passed then 4 else 5) +
    (optText r.failureClass).size (fun _ => []) +
    (r.returncode.elim Value.none .int).size (fun _ => []) + Py.width (Py.dumpInt r.stdoutBytes) +
    Py.width (Py.dumpInt r.stderrBytes) + costs (str r.reason)

theorem size_receiptOf {request : Request} {r : RunResult} (h : Admitted interp request)
    (sourceHash candidateHash referenceHash manifestHash : Hex 64) :
    (receiptOf request sourceHash candidateHash referenceHash manifestHash r).size
        interp.floatText + 1 =
      costs r.stdoutTail + costs r.stderrTail + overhead r := by
  have himage := (isImageId_plain h.imageId).1
  have hhash := (isHash_plain h.requestHash).1
  have hpassed : (Value.bool r.passed).size interp.floatText = if r.passed then 4 else 5 := by
    cases r.passed <;> rfl
  have hclass : (optText r.failureClass).size interp.floatText =
      (optText r.failureClass).size (fun _ => []) := by
    cases r.failureClass <;> rfl
  have hcode : (r.returncode.elim Value.none .int).size interp.floatText =
      (r.returncode.elim Value.none .int).size (fun _ => []) := by
    cases r.returncode <;> rfl
  have hschema : costs receiptSchema = 39 := by decide
  have hversion : costs driverVersion = 38 := by decide
  rw [receiptOf, Value.size, Value.sizeFields_eq, names_costs rfl]
  simp only [List.map_cons, List.map_nil, List.sum_cons, List.sum_nil, List.length_cons,
    List.length_nil, manifest_size, hpassed, hclass, hcode]
  simp only [Value.size, hex_plain, himage, hhash, hschema, hversion, overhead]
  omega

theorem int_dumps {n : Int} (h : n.natAbs < 10 ^ 9) : (Value.int n).dumps = true := by
  rw [Value.dumps]
  exact Py.fits_of_lt h

/-- Every receipt of a candidate can be written. -/
theorem receiptOf_written {request : Request} {r : RunResult} {w : World}
    (h : Admitted interp request) (hr : Judged r w)
    (sourceHash candidateHash referenceHash manifestHash : Hex 64) :
    ∃ bytes, canonical interp (receiptOf request sourceHash candidateHash referenceHash
        manifestHash r) = .ok bytes ∧
      bytes.length + 1 = costs r.stdoutTail + costs r.stderrTail + overhead r := by
  have hclass : (optText r.failureClass).dumps = true ∧
      (optText r.failureClass).textual interp.floatText = true := by
    cases r.failureClass with
    | none => exact ⟨rfl, rfl⟩
    | some text => exact ⟨rfl, Py.encodes_str text⟩
  have hcode : (r.returncode.elim Value.none .int).dumps = true ∧
      (r.returncode.elim Value.none .int).textual interp.floatText = true := by
    cases hc : r.returncode with
    | none => exact ⟨rfl, rfl⟩
    | some c =>
      have hlow := hr.signal c hc
      have hhigh := hr.exitStatus c hc
      exact ⟨int_dumps (n := c) (by omega), rfl⟩
  have hbytes : ∀ n, n ≤ maxOutputBytes + 4096 → (Value.int (n : Nat)).dumps = true := by
    intro n hn
    apply int_dumps
    have hmax : maxOutputBytes + 4096 = 69632 := rfl
    omega
  have htail : ∀ bytes, encodes (decodeReplace bytes) = true := by
    intro bytes
    rw [encodes, List.all_eq_true]
    intro c hc
    rw [decodeReplace_encodes bytes c hc]
    rfl
  have hdumps : (receiptOf request sourceHash candidateHash referenceHash manifestHash r).dumps =
      true := by
    rw [receiptOf, Value.dumps]
    simp only [Value.dumpsFields, manifest_dumps, hclass.1, hcode.1,
      hbytes _ hr.stdoutBytes, hbytes _ hr.stderrBytes]
    rfl
  have htextual : (receiptOf request sourceHash candidateHash referenceHash manifestHash
      r).textual interp.floatText = true := by
    rw [receiptOf, Value.textual]
    simp only [Value.textualFields, manifest_textual, hclass.2, hcode.2, Py.encodes_str]
    simp only [Value.textual, receiptSchema, driverVersion, Py.encodes_str, hr.stdoutTail,
      hr.stderrTail, htail, (isImageId_plain h.imageId).2, (isHash_plain h.requestHash).2]
    rfl
  obtain ⟨bytes, hok, hlen⟩ := canonical_ok hdumps htextual
  exact ⟨bytes, hok, by rw [hlen, size_receiptOf h]⟩

/-- A receipt that blames the driver can be written. -/
theorem errorReceipt_written (interp : Interp) (manifestHash : Hex 64) (reason : String) :
    ∃ bytes, canonical interp (errorReceipt manifestHash (str reason)) = .ok bytes := by
  have hreason : encodes ((str reason).take 256) = true := by
    have hall := Py.encodes_str reason
    rw [encodes, List.all_eq_true] at hall ⊢
    exact fun c hc => hall c (List.mem_of_mem_take hc)
  have hzero : (Value.int 0).dumps = true := int_dumps (by decide)
  have hdumps : (errorReceipt manifestHash (str reason)).dumps = true := by
    rw [errorReceipt, Value.dumps]
    simp only [Value.dumpsFields, manifest_dumps, hzero]
    rfl
  have htextual : (errorReceipt manifestHash (str reason)).textual interp.floatText = true := by
    rw [errorReceipt, Value.textual]
    simp only [Value.textualFields, manifest_textual, Py.encodes_str]
    simp only [Value.textual, receiptSchema, driverVersion, Py.encodes_str, hreason]
    rfl
  obtain ⟨bytes, hok, -⟩ := canonical_ok hdumps htextual
  exact ⟨bytes, hok⟩

/-! ## What `main` writes -/

section

variable (interp)

/-- `main` from a receipt on. -/
def conclude (receipt : Value) : DriverM Value := do
  let receipt ← Prog.ofExcept (bounded interp receipt)
  let line ← Prog.ofExcept (canonical interp receipt)
  ask (.emit (line ++ [10]))
  return receipt

/-- `main` once `_run_candidate` has returned. -/
def report (request : Request) (r : RunResult) : DriverM Value := do
  let receipt ← (Prog.ofExcept (assemble interp request r)).handle (refuse interp)
  conclude interp receipt

end

/-- The status, the verdict and the class of failure are those of the result. -/
structure Carries (receipt : Value) (r : RunResult) : Prop where
  status : Value.field (receipt.asDict?.getD []) "status" = .str (str r.status.text)
  passed : Value.field (receipt.asDict?.getD []) "passed" = .bool r.passed
  failureClass : Value.field (receipt.asDict?.getD []) "failure_class" = optText r.failureClass

theorem receiptOf_carries {request : Request} {r : RunResult}
    (sourceHash candidateHash referenceHash manifestHash : Hex 64) :
    Carries (receiptOf request sourceHash candidateHash referenceHash manifestHash r) r :=
  ⟨rfl, rfl, rfl⟩

theorem not_carries_errorReceipt {manifestHash : Hex 64} {reason : Str} {r : RunResult} :
    ¬ Carries (errorReceipt manifestHash reason) r := by
  intro h
  have hpassed : Value.none = .bool r.passed := h.passed
  cases hpassed

theorem sha256Json_ok {v : Value} (hdumps : v.dumps = true)
    (htext : v.textual interp.floatText = true) : ∃ hash, sha256Json interp v = .ok hash := by
  obtain ⟨bytes, hbytes, -⟩ := canonical_ok hdumps htext
  exact ⟨interp.sha256 bytes, map_ok.mpr ⟨bytes, hbytes, rfl⟩⟩

variable (interp) in
theorem manifestHash_ok : ∃ hash, manifestHash interp = .ok hash :=
  sha256Json_ok manifest_dumps manifest_textual

/-- The receipt of an admitted request can always be put together. -/
theorem assemble_ok {request : Request} (h : Admitted interp request) (r : RunResult) :
    ∃ candidateHash referenceHash manifestHash, assemble interp request r =
      .ok (receiptOf request interp.sourceHash candidateHash referenceHash manifestHash r) := by
  obtain ⟨referenceHash, hreference⟩ := sha256Json_ok h.dumps h.textual
  obtain ⟨manifestHash, hmanifest⟩ := manifestHash_ok interp
  refine ⟨interp.sha256 (Py.encodeUtf8 request.candidate), referenceHash, manifestHash, ?_⟩
  exact bind_ok.mpr ⟨referenceHash, hreference, bind_ok.mpr ⟨manifestHash, hmanifest, rfl⟩⟩

variable {program : Program} {w w' : World}

/-- The end of `main`, for a receipt that stays as it is or is replaced. -/
theorem run_conclude {receipt final : Value} {line : Bytes} {o : Outcome Exc Value}
    (hbounded : bounded interp receipt = .ok final) (hline : canonical interp final = .ok line) :
    Run (sandbox program) (conclude interp receipt) w o w' ↔
      ∃ acts, MayAct program w acts ∧ o = .value final ∧ w' = w.act acts := by
  have hconclude : conclude interp receipt =
      ask (.emit (line ++ [10])) >>= fun _ => Prog.ret final := by
    rw [conclude, hbounded]
    show (Prog.ofExcept (canonical interp final) >>= fun line => _) = _
    rw [hline]
    rfl
  rw [hconclude, run_ask_bind]
  constructor
  · rintro ⟨acts, _, hacts, _, ho, hw⟩
    exact ⟨acts, hacts, ho, hw⟩
  · rintro ⟨acts, hacts, ho, hw⟩
    exact ⟨acts, (), hacts, trivial, ho, hw⟩

/-- What becomes of a receipt that can be written, and whether it is still that of the
candidate. -/
theorem bounded_ok {receipt : Value} {bytes : Bytes} {r : RunResult}
    (hbytes : canonical interp receipt = .ok bytes) (hcarries : Carries receipt r) :
    ∃ final line, bounded interp receipt = .ok final ∧ canonical interp final = .ok line ∧
      (Carries final r ↔ bytes.length + 1 ≤ maxReceiptBytes) := by
  obtain ⟨manifestHash, hmanifest⟩ := manifestHash_ok interp
  have hbounded : bounded interp receipt = if maxReceiptBytes < bytes.length + 1 then
      .ok (errorReceipt manifestHash (str "receipt exceeded bounded protocol size"))
      else .ok receipt := by
    rw [bounded, hbytes, hmanifest]
    rfl
  by_cases hlong : maxReceiptBytes < bytes.length + 1
  · rw [if_pos hlong] at hbounded
    obtain ⟨line, hline⟩ := errorReceipt_written interp manifestHash
      "receipt exceeded bounded protocol size"
    refine ⟨_, line, hbounded, hline, ?_⟩
    constructor
    · intro h
      exact absurd h not_carries_errorReceipt
    · intro h
      exact absurd hlong (Nat.not_lt.mpr h)
  · rw [if_neg hlong] at hbounded
    exact ⟨receipt, bytes, hbounded, hbytes, fun _ => Nat.not_lt.mp hlong, fun _ => hcarries⟩

/-- What is left of the receipt of a candidate, and whether it still carries the result. -/
theorem report_spec {raw : Bytes} {request : Request} {rounds : Nat} {r : RunResult}
    (haccept : admitRequest interp raw = .ok request)
    (hrun : Run (sandbox program) (runCandidate interp request.candidate request.reference
      request.timeoutSeconds rounds) World.start (.value r) w) :
    ∃ receipt final line, assemble interp request r = .ok receipt ∧
      bounded interp receipt = .ok final ∧ canonical interp final = .ok line ∧
      (Carries final r ↔
        costs (decodeReplace (tailOf (w.carried .stdout)).bytes) +
          costs (decodeReplace (tailOf (w.carried .stderr)).bytes) + overhead r ≤
            maxReceiptBytes) := by
  have hrequest := admitRequest_ok haccept
  have hjudged := runCandidate_judged hrun
  obtain ⟨candidateHash, referenceHash, manifestHash, hassemble⟩ := assemble_ok hrequest r
  obtain ⟨bytes, hbytes, hlen⟩ := receiptOf_written hrequest hjudged interp.sourceHash
    candidateHash referenceHash manifestHash
  obtain ⟨final, line, hbounded, hline, hcarries⟩ := bounded_ok hbytes
    (receiptOf_carries interp.sourceHash candidateHash referenceHash manifestHash)
  refine ⟨_, final, line, hassemble, hbounded, hline, ?_⟩
  rw [hcarries, hlen, hjudged.stdoutTail, hjudged.stderrTail]

theorem report_eq {request : Request} {r : RunResult} {receipt : Value}
    (hassemble : assemble interp request r = .ok receipt) :
    report interp request r = conclude interp receipt := by
  rw [report, hassemble]
  rfl

/-- What `main` writes for a candidate whose run gave `r` is one receipt, and it carries that
result when the two outputs, escaped, leave room for the rest. -/
theorem main_carries_iff {raw : Bytes} {request : Request} {rounds : Nat} {r : RunResult}
    (haccept : admitRequest interp raw = .ok request)
    (hrun : Run (sandbox program) (runCandidate interp request.candidate request.reference
      request.timeoutSeconds rounds) World.start (.value r) w) :
    ∃ receipt, (∀ o w', Run (sandbox program) (report interp request r) w o w' →
        o = .value receipt) ∧
      Run (sandbox program) (report interp request r) w (.value receipt) w ∧
      Run (sandbox program) (main interp rounds) World.start (.value receipt) w ∧
      (Carries receipt r ↔
        costs (decodeReplace (tailOf (w.carried .stdout)).bytes) +
          costs (decodeReplace (tailOf (w.carried .stderr)).bytes) + overhead r ≤
            maxReceiptBytes) := by
  obtain ⟨receipt, final, line, hassemble, hbounded, hline, hcarries⟩ := report_spec haccept hrun
  have hconclude : Run (sandbox program) (conclude interp receipt) w (.value final) w :=
    (run_conclude hbounded hline).mpr
      ⟨[], mayAct_nil (run_can hrun program.start), rfl, (act_nil w).symm⟩
  refine ⟨final, ?_, ?_, ?_, hcarries⟩
  · intro o w' h
    rw [report_eq hassemble] at h
    obtain ⟨_, -, ho, -⟩ := (run_conclude hbounded hline).mp h
    exact ho
  · rw [report_eq hassemble]
    exact hconclude
  · refine run_quietly (c := .readRequest) raw program.start trivial ?_
    refine run_bind_value.mpr ⟨_, w, run_handle.mpr (.inl ⟨receipt, rfl, ?_⟩), hconclude⟩
    refine run_bind_value.mpr ⟨request, World.start, run_ofExcept_value.mpr ⟨haccept, rfl⟩, ?_⟩
    exact run_bind_value.mpr ⟨r, w, hrun, run_ofExcept_value.mpr ⟨hassemble, rfl⟩⟩

/-! ## A candidate that prints zeros -/

/-- A digest, given by its text. -/
def digest (text : String) (h : isHex 64 text = true) : Hex 64 := ⟨text, h⟩

def sampleSourceHash : Hex 64 :=
  digest "cac0513ca9bfcf5bbaa8ef55b0b14f1bda86262faf3ab9557f7a90d49aa6bccf" (by decide)

def sampleRequestHash : Hex 64 :=
  digest "0010536beae427b6b3aba0598d8607e2d04984946f3c30212005e8982d918d04" (by decide)

/-- The digests of the sample, whose inputs differ in their lengths. -/
def sampleSha256 (bytes : Bytes) : Hex 64 :=
  if bytes.length = 729 then sampleRequestHash
  else if bytes.length = 64 then
    digest "b50c96348fb383361ccba561fd6109b479ab0dfc76a8287af4c769ad47e45ef1" (by decide)
  else if bytes.length = 53 then
    digest "054d10b687c7a249de1aed42451588b29d22abf76e160fd3f7ea4e17c2904823" (by decide)
  else digest "283a1b35e08abbf8c83d995036711bda867b6b110eac1b5481b133df846f7b23" (by decide)

def sampleCandidate : Str :=
  str "import sys\nsys.stdout.write(chr(0) * 4096)\ndef f(): return True\n"

def sampleImageId : Str :=
  str "sha256:0000000000000000000000000000000000000000000000000000000000000000"

/-- The fields of the sample's request besides its hash. -/
def sampleFields : List (Str × Value) :=
  [(str "candidate", .str sampleCandidate),
    (str "driver_source_sha256", .str (str sampleSourceHash.text)),
    (str "driver_version", .str driverVersion),
    (str "image_id", .str sampleImageId),
    (str "reference", sampleReference),
    (str "runtime_manifest", runtimeManifest.sortKeys),
    (str "schema", .str requestSchema),
    (str "timeout_seconds", .int 9)]

def sampleRequest : Value :=
  .dict (sampleFields.take 5 ++ (str "request_sha256", .str (str sampleRequestHash.text)) ::
    sampleFields.drop 5)

/-- The bytes of the request. -/
def sampleRaw : Bytes := Py.encodeUtf8 (sampleRequest.dump fun _ => [])

def sampleLoads (raw : Bytes) : Except Exc Value :=
  if raw = sampleRaw then .ok sampleRequest else .error ⟨"JSONDecodeError", [], false⟩

/-- The interpreter as it is on the sample. -/
def sampleInterp : Interp := { asciiInterp with
  loads := sampleLoads
  loads_distinct := by
    intro raw v h
    unfold sampleLoads at h
    split at h
    · rw [Except.ok.injEq] at h
      rw [← h]
      decide
    · cases h
  sha256 := sampleSha256
  sourceHash := sampleSourceHash }

def sampleAdmitted : Request :=
  ⟨sampleImageId, sampleCandidate, sampleReference, 9, str sampleRequestHash.text⟩

theorem sampleFields_written : (Value.dict sampleFields).dumps = true ∧
    (Value.dict sampleFields).textual sampleInterp.floatText = true ∧
    (Value.dict sampleFields).size sampleInterp.floatText = 729 := by
  have hnine : Py.fits 9 = true := Py.fits_of_lt (by decide)
  refine ⟨?_, by decide, ?_⟩
  · simp only [sampleFields, Value.dumps, Value.dumpsFields, Py.Value.dumps_sortKeys,
      manifest_dumps, hnine]
    decide
  · simp only [sampleFields, Value.size, Value.sizeFields, Py.Value.size_sortKeys, manifest_size]
    decide

theorem sample_hashed :
    sha256Json sampleInterp (.dict sampleFields) = .ok sampleRequestHash := by
  obtain ⟨hdumps, htextual, hsize⟩ := sampleFields_written
  obtain ⟨bytes, hbytes, hlen⟩ := canonical_ok hdumps htextual
  refine map_ok.mpr ⟨bytes, hbytes, ?_⟩
  show sampleSha256 bytes = sampleRequestHash
  rw [sampleSha256, if_pos (by rw [hlen, hsize])]

theorem sample_reference : validateReference sampleInterp sampleReference = .ok () := rfl

theorem sample_manifest : runtimeManifest.sortKeys.eqv runtimeManifest = true := by
  decide

theorem sample_timeout : validateTimeout (.int 9) = .ok 9 := by
  have hsmall : decide (2 ^ 1024 - 2 ^ 970 ≤ (9 : Int).natAbs) = false := by decide +kernel
  have hrange : (!(decide ((0 : ℚ) < 9) && decide ((9 : ℚ) ≤ 30))) = false := by decide
  simp only [validateTimeout, bind_ok, reject_ok, pure_ok]
  exact ⟨(), hsmall, 9, rfl, (), hrange, rfl⟩

theorem sample_validated : validateRequest sampleInterp sampleRequest = .ok sampleAdmitted := by
  simp only [validateRequest, bind_ok, orRaise_ok, reject_ok, pure_ok]
  refine ⟨_, rfl, (), by decide, (), by decide, str sampleSourceHash.text, rfl, (), by decide, (),
    by decide, sampleImageId, rfl, (), by decide, sampleCandidate, rfl, (), sample_reference,
    9, sample_timeout, (), ?_, str sampleRequestHash.text, rfl, (), by decide, sampleRequestHash,
    sample_hashed, (), by decide, rfl⟩
  rw [Bool.not_eq_false']
  exact sample_manifest

theorem sample_admitted : admitRequest sampleInterp sampleRaw = .ok sampleAdmitted := by
  have hnine : Py.fits 9 = true := Py.fits_of_lt (by decide)
  have hdumps : sampleRequest.dumps = true := by
    simp only [sampleRequest, sampleFields, List.take, List.drop, List.cons_append, List.nil_append,
      Value.dumps, Value.dumpsFields, Py.Value.dumps_sortKeys, manifest_dumps, hnine]
    decide
  have hsize : sampleRequest.size (fun _ => []) = 813 := by
    simp only [sampleRequest, sampleFields, List.take, List.drop, List.cons_append, List.nil_append,
      Value.size, Value.sizeFields, Py.Value.size_sortKeys, manifest_size]
    decide
  have hlen : ¬ maxRequestBytes < sampleRaw.length := by
    rw [sampleRaw, Py.length_encodeUtf8, Py.Value.width_dump _ hdumps, hsize]
    decide
  have hloads : sampleInterp.loads sampleRaw = .ok sampleRequest := by
    have hsame : sampleInterp.loads = sampleLoads := rfl
    rw [hsame, sampleLoads, if_pos rfl]
  simp only [admitRequest, bind_ok, reject_ok]
  exact ⟨(), decide_eq_false hlen, sampleRequest, hloads, sample_validated⟩

/-- A program that prints zeros, returns and exits well. -/
def noisy (n : Nat) : Program :=
  .of ([.write .stdout (List.replicate n 0), .finish] ++ [.exit .success])

theorem decodeReplace_zeros (n : Nat) :
    decodeReplace (List.replicate n 0) = List.replicate n 0 := by
  induction n with
  | zero => rfl
  | succ n ih =>
    rw [List.replicate_succ, List.replicate_succ, ← ih]
    rfl

theorem costs_zeros (n : Nat) : costs (List.replicate n 0) = 6 * n := by
  induction n with
  | zero => rfl
  | succ n ih =>
    rw [List.replicate_succ]
    show 6 + costs (List.replicate n 0) = 6 * (n + 1)
    omega

/-- A run of the noisy program, which the driver calls good. -/
theorem exists_noisy_run {n : Nat} (hn : n ≤ maxOutputTailBytes) : ∃ rounds r w,
    Run (sandbox (noisy n)) (runCandidate sampleInterp sampleAdmitted.candidate
      sampleAdmitted.reference sampleAdmitted.timeoutSeconds rounds) World.start (.value r) w ∧
    r.status = .ok ∧ (tailOf (w.carried .stdout)).bytes = List.replicate n 0 := by
  have htimeout : 0 < sampleAdmitted.timeoutSeconds := by decide
  have hstdout : written .stdout ([.write .stdout (List.replicate n 0), .finish] ++
      [.exit .success]) = List.replicate n 0 := by
    simp [written, Action.sends]
  have hmark : written .completion [.write .stdout (List.replicate n 0), .finish] =
      completionMarker := by
    simp [written, Action.sends]
  have hbound : maxOutputTailBytes ≤ maxOutputBytes := by decide
  have hcan : (noisy n).can ([.write .stdout (List.replicate n 0), .finish] ++
      [.exit .success]) := List.prefix_rfl
  obtain ⟨rounds, r, w, hrun, hok, htrace⟩ := exists_ok_run htimeout hcan hmark rfl
    (by rw [hstdout, List.length_replicate]; omega) (Nat.zero_le _)
  refine ⟨rounds, r, w, hrun, hok, ?_⟩
  have hcut : n - maxOutputTailBytes = 0 := Nat.sub_eq_zero_of_le hn
  rw [((runCandidate_judged hrun).whole hok).1, htrace, hstdout, tailOf]
  dsimp only
  rw [List.length_replicate, hcut, List.drop_zero]

theorem main_carries_iff_sample : ∃ rounds r w receipt,
    Run (sandbox (noisy 1)) (runCandidate sampleInterp sampleAdmitted.candidate
      sampleAdmitted.reference sampleAdmitted.timeoutSeconds rounds) World.start (.value r) w ∧
    Run (sandbox (noisy 1)) (main sampleInterp rounds) World.start (.value receipt) w ∧
    (Carries receipt r ↔
      costs (decodeReplace (tailOf (w.carried .stdout)).bytes) +
        costs (decodeReplace (tailOf (w.carried .stderr)).bytes) + overhead r ≤
          maxReceiptBytes) := by
  obtain ⟨rounds, r, w, hrun, -, -⟩ := exists_noisy_run (show 1 ≤ maxOutputTailBytes by decide)
  obtain ⟨receipt, -, -, hmain, hcarries⟩ := main_carries_iff sample_admitted hrun
  exact ⟨rounds, r, w, receipt, hrun, hmain, hcarries⟩

/-- The result of a candidate that prints 4096 zeros is not the one its receipt carries. -/
theorem noisy_blamed : ∃ rounds r w,
    Run (sandbox (noisy 4096)) (runCandidate sampleInterp sampleAdmitted.candidate
      sampleAdmitted.reference sampleAdmitted.timeoutSeconds rounds) World.start (.value r) w ∧
    r.status = .ok ∧ ∀ receipt w', Run (sandbox (noisy 4096))
      (report sampleInterp sampleAdmitted r) w (.value receipt) w' → ¬ Carries receipt r := by
  obtain ⟨rounds, r, w, hrun, hok, htail⟩ := exists_noisy_run (le_refl maxOutputTailBytes)
  obtain ⟨_, final, line, hassemble, hbounded, hline, hcarries⟩ :=
    report_spec sample_admitted hrun
  refine ⟨rounds, r, w, hrun, hok, ?_⟩
  intro receipt w' hreport hcarried
  rw [report_eq hassemble] at hreport
  obtain ⟨_, -, ho, -⟩ := (run_conclude hbounded hline).mp hreport
  rw [Outcome.value.injEq] at ho
  have hfits := hcarries.mp (ho ▸ hcarried)
  rw [htail, decodeReplace_zeros, costs_zeros] at hfits
  have hlong : maxReceiptBytes < 6 * maxOutputTailBytes := by decide
  omega

end Sandbox
end FlashNext
