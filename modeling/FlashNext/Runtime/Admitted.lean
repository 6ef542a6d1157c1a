import FlashNext.Py.SortedKeys
import FlashNext.Py.Write
import FlashNext.Runtime.Accepted

/-!
# What an accepted document is made of

Under each key an accepted document has a value of one kind (`admitted_of_accepted`).  So the
document is its own text read back, and Python's `==` of two of them, which takes `1`, `1.0` and
`True` for one another, tells apart what their texts tell apart.
-/

namespace FlashNext
namespace Runtime

open Py (Str Value str Unescaped)

def integerFields : List String :=
  ["schema", "context_length", "max_total_tokens", "max_running_requests", "chunked_prefill_size",
    "max_mamba_cache_size", "ple_rss_gib", "mm_processor_worker_num", "steps"]

/-- The value is of the kind that belongs to the key; a fraction is one with this property. -/
inductive Admitted (P : ℚ → Prop) : Str → Value → Prop
  | none (key : Str) : Admitted P key .none
  | bool (b : Bool) : Admitted P (str "cuda_graph") (.bool b)
  | int (key : Str) (n : Int) (hkey : key ∈ integerFields.map str) (hn : n.natAbs < 10 ^ 9) :
      Admitted P key (.int n)
  | fraction (q : ℚ) (hq : P q) : Admitted P (str "mem_fraction_static") (.float q)
  | text (key s : Str) (hs : Unescaped s) : Admitted P key (.str s)
  | dict (key : Str) (fs : Fields) (hkeys : (fs.map (·.1)).Nodup)
      (htext : ∀ f ∈ fs, Unescaped f.1) (hfields : ∀ f ∈ fs, Admitted P f.1 f.2) :
      Admitted P key (.dict fs)

variable {P : ℚ → Prop}

/-! ## What is admitted is read back -/

theorem loadableFields_iff {read : Str → Option ℚ} {text : ℚ → Str} {fs : Fields} :
    Py.LoadableFields read text fs ↔ ∀ f ∈ fs, Unescaped f.1 ∧ Py.Loadable read text f.2 := by
  induction fs with
  | nil => simp [Py.LoadableFields]
  | cons f fs ih => simp [Py.LoadableFields, ih, and_assoc]

theorem Admitted.loadable {read : Str → Option ℚ} {text : ℚ → Str} {key : Str} {v : Value}
    (h : Admitted (fun q => Py.FractionText (text q) ∧ read (text q) = some q) key v) :
    Py.Loadable read text v := by
  induction h with
  | none => trivial
  | bool => trivial
  | int key n hkey hn => exact Py.fits_of_lt hn
  | fraction q hq => exact hq
  | text key s hs => exact hs
  | dict key fs hkeys htext hfields ih =>
    exact ⟨hkeys, loadableFields_iff.mpr fun f hf => ⟨htext f hf, ih f hf⟩⟩

/-- No surrogate is among the characters that need no escape. -/
theorem joinPairs_unescaped {s : Str} (h : Unescaped s) : joinPairs s = s := by
  induction s with
  | nil => rfl
  | cons a s ih =>
    have hrest := ih fun c hc => h c (by simp [hc])
    have ha := h a (by simp)
    cases s with
    | nil => rfl
    | cons b s =>
      rw [joinPairs, if_neg (by omega), hrest]

theorem reloadFields_eq {fs : Fields} (h : ∀ f ∈ fs, joinPairs f.1 = f.1 ∧ reload f.2 = f.2) :
    reloadFields fs = fs := by
  induction fs with
  | nil => rfl
  | cons f fs ih =>
    obtain ⟨hkey, hvalue⟩ := h f (by simp)
    have hrest := ih fun f' hf' => h f' (by simp [hf'])
    show (joinPairs f.1, reload f.2) :: reloadFields fs = f :: fs
    rw [hkey, hvalue, hrest]

theorem Admitted.reload {key : Str} {v : Value} (h : Admitted P key v) : Runtime.reload v = v := by
  induction h with
  | none => rfl
  | bool => rfl
  | int => rfl
  | fraction => rfl
  | text key s hs => rw [Runtime.reload, joinPairs_unescaped hs]
  | dict key fs hkeys htext hfields ih =>
    rw [Runtime.reload, reloadFields_eq fun f hf => ⟨joinPairs_unescaped (htext f hf), ih f hf⟩]

theorem printsFields_iff {fs : Fields} :
    Value.printsFields fs = true ↔ ∀ f ∈ fs, f.2.prints = true := by
  induction fs with
  | nil => simp [Value.printsFields]
  | cons f fs ih => simp [Value.printsFields, ih]

theorem dumpsFields_iff {fs : Fields} :
    Value.dumpsFields fs = true ↔ ∀ f ∈ fs, f.2.dumps = true := by
  induction fs with
  | nil => simp [Value.dumpsFields]
  | cons f fs ih => simp [Value.dumpsFields, ih]

theorem Admitted.prints {key : Str} {v : Value} (h : Admitted P key v) : v.prints = true := by
  induction h with
  | none => rfl
  | bool => rfl
  | int key n hkey hn => exact Py.fits_of_lt hn
  | fraction => rfl
  | text => rfl
  | dict key fs hkeys htext hfields ih => exact printsFields_iff.mpr ih

theorem Admitted.dumps {key : Str} {v : Value} (h : Admitted P key v) : v.dumps = true := by
  induction h with
  | none => rfl
  | bool => rfl
  | int key n hkey hn => exact Py.fits_of_lt hn
  | fraction => rfl
  | text => rfl
  | dict key fs hkeys htext hfields ih => exact dumpsFields_iff.mpr ih

theorem Admitted.distinct {key : Str} {v : Value} (h : Admitted P key v) : v.distinct = true := by
  induction h with
  | dict key fs hkeys htext hfields ih =>
    rw [Value.distinct, Bool.and_eq_true, decide_eq_true_eq, Value.distinctFields_iff]
    exact ⟨hkeys, ih⟩
  | _ => rfl

/-! ## Equality -/

/-- Under one key `==` tells apart what the order of the keys does not make the same. -/
theorem Admitted.canon_eq_iff {key : Str} {v w : Value} (hv : Admitted P key v)
    (hw : Admitted P key w) :
    Value.canon v = Value.canon w ↔ Value.sortKeys v = Value.sortKeys w := by
  induction hv generalizing w with
  | none => cases hw <;> simp [Value.canon, Value.sortKeys]
  | text => cases hw <;> simp [Value.canon, Value.sortKeys]
  | bool b =>
    generalize hgraph : str "cuda_graph" = key at hw
    cases hw with
    | bool c => cases b <;> cases c <;> simp [Value.canon, Value.sortKeys]
    | int _ n hkey => exact absurd (hgraph ▸ hkey) (by decide)
    | fraction q => exact absurd hgraph (by decide)
    | _ => simp [Value.canon, Value.sortKeys]
  | int key n hkey =>
    cases hw with
    | bool c => exact absurd hkey (by decide)
    | int _ m => simp [Value.canon, Value.sortKeys]
    | fraction q => exact absurd hkey (by decide)
    | _ => simp [Value.canon, Value.sortKeys]
  | fraction q =>
    generalize hfraction : str "mem_fraction_static" = key at hw
    cases hw with
    | bool c => exact absurd hfraction (by decide)
    | int _ n hkey => exact absurd (hfraction ▸ hkey) (by decide)
    | fraction p => simp [Value.canon, Value.sortKeys]
    | _ => simp [Value.canon, Value.sortKeys]
  | dict key fs hkeys htext hfields ih =>
    cases hw with
    | dict _ gs _ _ hothers =>
      simp only [Value.canon, Value.sortKeys, Value.dict.injEq]
      refine Value.canonFields_eq_iff ?_
      intro f hf f' hf' hkey
      exact ih f hf (hkey.symm ▸ hothers f' hf')
    | _ => simp [Value.canon, Value.sortKeys]

/-! ## Accepted documents -/

theorem lookup_of_mem {fs : Fields} (hkeys : (fs.map (·.1)).Nodup) {name : String} {v : Value}
    (h : (str name, v) ∈ fs) : Value.lookup fs name = some v := by
  induction fs with
  | nil => cases h
  | cons f fs ih =>
    rw [List.map_cons, List.nodup_cons] at hkeys
    unfold Value.lookup at ih ⊢
    rw [List.find?_cons]
    by_cases hf : f.1 = str name
    · have hv : f = (str name, v) := by
        cases List.mem_cons.mp h with
        | inl h => exact h.symm
        | inr h => exact absurd (hf ▸ List.mem_map.mpr ⟨_, h, rfl⟩) hkeys.1
      simp [hv]
    · have hrest : (str name, v) ∈ fs := by
        cases List.mem_cons.mp h with
        | inl h => exact absurd (congrArg Prod.fst h.symm) hf
        | inr h => exact h
      rw [beq_eq_false_iff_ne.mpr hf]
      exact ih hkeys.2 hrest

theorem OrDefault.eq_of_lookup {raw : Fields} {key : String} {default value v : Value}
    (h : OrDefault raw key default value) (hv : Value.lookup raw key = some v) : v = value := by
  unfold OrDefault at h
  rw [hv] at h
  simpa using h

/-- The characters of all words that a document may have. -/
theorem unescaped_of_mem {names : List String} {s : Str} (h : s ∈ names.map str)
    (hnames : ∀ name ∈ names, Unescaped (str name)) : Unescaped s := by
  obtain ⟨name, hname, rfl⟩ := List.mem_map.mp h
  exact hnames name hname

instance (s : Str) : Decidable (Unescaped s) := inferInstanceAs (Decidable (∀ c ∈ s, _))

theorem unescaped_basename {s : Str} (h : isSafeBasename s = true) : Unescaped s := by
  intro c hc
  simp only [isSafeBasename, Bool.and_eq_true, List.all_eq_true, Bool.or_eq_true,
    decide_eq_true_eq, beq_iff_eq] at h
  have hchar := h.2 c hc
  omega

theorem unescaped_sha256 {s : Str} (h : isSha256 s = true) : Unescaped s := by
  intro c hc
  simp only [isSha256, Bool.and_eq_true, List.all_eq_true, Bool.or_eq_true,
    decide_eq_true_eq] at h
  have hchar := h.2 c hc
  omega

theorem admitted_dict {key : Str} {fs : Fields} {names : List String}
    (hdistinct : (Value.dict fs).distinct = true) (hkeys : ∀ f ∈ fs, f.1 ∈ names.map str)
    (hnames : ∀ name ∈ names, Unescaped (str name))
    (hvalues : ∀ name ∈ names, ∀ v, Value.lookup fs name = some v → v.distinct = true →
      Admitted P (str name) v) : Admitted P key (.dict fs) := by
  rw [Value.distinct, Bool.and_eq_true, decide_eq_true_eq, Value.distinctFields_iff] at hdistinct
  refine .dict key fs hdistinct.1 ?_ ?_
  · intro f hf
    exact unescaped_of_mem (hkeys f hf) hnames
  · intro f hf
    obtain ⟨name, hname, hkey⟩ := List.mem_map.mp (hkeys f hf)
    have hlookup : Value.lookup fs name = some f.2 := by
      refine lookup_of_mem hdistinct.1 ?_
      rw [hkey]
      exact hf
    exact hkey ▸ hvalues name hname f.2 hlookup (hdistinct.2 f hf)

theorem keys_of_hasExactly {fields : Fields} {keys : List String}
    (h : hasExactly fields keys = true) : ∀ f ∈ fields, f.1 ∈ keys.map str := by
  simp only [hasExactly, Bool.and_eq_true, List.all_eq_true, decide_eq_true_eq] at h
  exact h.1

/-- A word of a list has no character that is escaped. -/
theorem admitted_word {key s : Str} {names : List String} (h : s ∈ names.map str)
    (hnames : ∀ name ∈ names, Unescaped (str name)) : Admitted P key (.str s) :=
  .text key s (unescaped_of_mem h hnames)

theorem Calibrated.admitted {dtype key : Str} {v : Value} (h : Calibrated dtype (some v))
    (hdistinct : v.distinct = true) : Admitted P key v := by
  cases h with
  | collect fields hmode hkeys hdtype =>
    refine admitted_dict hdistinct (keys_of_hasExactly hkeys) (by decide) ?_
    simp only [List.forall_mem_cons]
    refine ⟨?_, by simp⟩
    intro v hv _
    obtain rfl := Option.some.inj (hmode.symm.trans hv)
    exact .text _ _ (by decide)
  | frozen fields file sha256 hmode hkeys hdtype hfile hsafe hsha256 hhex =>
    refine admitted_dict hdistinct (keys_of_hasExactly hkeys) (by decide) ?_
    simp only [List.forall_mem_cons]
    refine ⟨?_, ?_, ?_, by simp⟩
    · intro v hv _
      obtain rfl := Option.some.inj (hmode.symm.trans hv)
      exact .text _ _ (by decide)
    · intro v hv _
      obtain rfl := Option.some.inj (hfile.symm.trans hv)
      exact .text _ _ (unescaped_basename hsafe)
    · intro v hv _
      obtain rfl := Option.some.inj (hsha256.symm.trans hv)
      exact .text _ _ (unescaped_sha256 hhex)

theorem Speculates.admitted {mode kvDtype key : Str} {v : Value} (h : Speculates mode kvDtype v)
    (hdistinct : v.distinct = true) : Admitted P key v := by
  cases h with
  | off => exact .none key
  | on fields steps draft quantization hmode hkeys hsteps hrange hdraft hquantization =>
    have hmem : ∀ f ∈ fields, f.1 ∈ ["steps", "kv_cache_dtype", "draft_quantization"].map str :=
      fun f hf => hkeys f.1 (List.mem_map.mpr ⟨f, hf, rfl⟩)
    refine admitted_dict hdistinct hmem (by decide) ?_
    simp only [List.forall_mem_cons]
    refine ⟨?_, ?_, ?_, by simp⟩
    · intro v hv _
      obtain rfl := Option.some.inj (hsteps.symm.trans hv)
      exact .int _ _ (by decide) (by omega)
    · intro v hv _
      rw [hdraft.1.eq_of_lookup hv]
      exact admitted_word hdraft.2.1 (by decide)
    · intro v hv _
      rw [hquantization.1.eq_of_lookup hv]
      exact admitted_word hquantization.2 (by decide)

theorem Sees.admitted {key : Str} {v : Value} (h : Sees v) (hdistinct : v.distinct = true) :
    Admitted P key v := by
  cases h with
  | mk fields backend cudaGraph hkeys hbackend hallowed hgraph =>
    refine admitted_dict hdistinct (keys_of_hasExactly hkeys) (by decide) ?_
    simp only [List.forall_mem_cons]
    refine ⟨?_, ?_, by simp⟩
    · intro v hv _
      obtain rfl := Option.some.inj (hbackend.symm.trans hv)
      exact admitted_word hallowed (by decide)
    · intro v hv _
      obtain rfl := Option.some.inj (hgraph.symm.trans hv)
      exact .bool cudaGraph

/-- What the rule of a field lets through is a small number. -/
theorem IntRule.Allows.small {rule : IntRule} {n : Int} (h : rule.Allows n)
    (hrule : (rule.allowed ≠ [] ∧ ∀ m ∈ rule.allowed, m.natAbs < 10 ^ 9) ∨
      ∃ lo hi, rule.minimum = some lo ∧ rule.maximum = some hi ∧ 0 ≤ lo ∧ hi < 10 ^ 9) :
    n.natAbs < 10 ^ 9 := by
  cases hrule with
  | inl hlist =>
    cases h.allowed with
    | inl hempty => exact absurd hempty hlist.1
    | inr hmem => exact hlist.2 n hmem
  | inr hbounds =>
    obtain ⟨lo, hi, hlo, hhi, hpos, hlt⟩ := hbounds
    have hmin := h.minimum lo hlo
    have hmax := h.maximum hi hhi
    omega

theorem admitted_int {raw : Fields} {name : String} {rule : IntRule} {default n : Int} {v : Value}
    (h : OrDefault raw name (.int default) (.int n) ∧ rule.Allows n)
    (hrule : (rule.allowed ≠ [] ∧ ∀ m ∈ rule.allowed, m.natAbs < 10 ^ 9) ∨
      ∃ lo hi, rule.minimum = some lo ∧ rule.maximum = some hi ∧ 0 ≤ lo ∧ hi < 10 ^ 9)
    (hname : name ∈ integerFields) (hv : Value.lookup raw name = some v) :
    Admitted P (str name) v := by
  rw [h.1.eq_of_lookup hv]
  exact .int _ n (List.mem_map.mpr ⟨name, hname, rfl⟩) (h.2.small hrule)

theorem admitted_enum {raw : Fields} {name : String} {names : List String} {default s : Str}
    {v : Value} (h : OrDefault raw name (.str default) (.str s) ∧ s ∈ names.map str)
    (hnames : ∀ name ∈ names, Unescaped (str name)) (hv : Value.lookup raw name = some v) :
    Admitted P (str name) v := by
  rw [h.1.eq_of_lookup hv]
  exact admitted_word h.2 hnames

/-- An accepted document has under each key a value of the kind that belongs there. -/
theorem admitted_of_accepted {p : Validated} (h : Accepted p)
    (hdistinct : (Value.dict p.raw).distinct = true) (hP : P p.memFractionStatic) (key : Str) :
    Admitted P key (.dict p.raw) := by
  have hknown : ∀ f ∈ p.raw, f.1 ∈ knownFields.map str :=
    fun f hf => h.known f.1 (List.mem_map.mpr ⟨f, hf, rfl⟩)
  refine admitted_dict hdistinct hknown (by decide) ?_
  simp only [knownFields, List.forall_mem_cons]
  refine ⟨?_, ?_, ?_, ?_, ?_, ?_, ?_, ?_, ?_, ?_, ?_, ?_, ?_, ?_, ?_, ?_, by simp⟩
  · intro v hv _
    obtain rfl := Option.some.inj (h.schema.1.symm.trans hv)
    rw [h.schema.2]
    exact .int _ _ (by decide) (by decide)
  · intro v hv _
    obtain rfl := Option.some.inj (h.mode.1.symm.trans hv)
    exact admitted_word h.mode.2 (by decide)
  · intro v hv _
    obtain rfl := Option.some.inj (h.contextLength.1.symm.trans hv)
    have hsmall : ∀ n ∈ contextLengthAllowed, n.natAbs < 10 ^ 9 := by decide
    exact .int _ _ (by decide) (hsmall _ h.contextLength.2)
  · intro v hv _
    obtain rfl := Option.some.inj (h.maxTotalTokens.1.symm.trans hv)
    rw [h.maxTotalTokens.2]
    have hsmall : ∀ n ∈ contextLengthAllowed, n.natAbs < 10 ^ 9 := by decide
    exact .int _ _ (by decide) (hsmall _ h.contextLength.2)
  · intro v hv _
    exact admitted_int h.maxRunningRequests (.inl (by decide)) (by simp [integerFields]) hv
  · intro v hv _
    exact admitted_int h.chunkedPrefillSize (.inl (by decide)) (by simp [integerFields]) hv
  · intro v hv _
    exact admitted_int h.maxMambaCacheSize (.inr ⟨4, 64, rfl, rfl, by decide, by decide⟩)
      (by simp [integerFields]) hv
  · intro v hv _
    cases h.memFractionStatic with
    | inl hfraction =>
      obtain rfl := Option.some.inj (hfraction.1.symm.trans hv)
      exact .fraction _ hP
    | inr hfraction =>
      rw [hfraction.1] at hv
      cases hv
  · intro v hv _
    exact admitted_enum h.kvCacheDtype (by decide) hv
  · intro v hv hd
    have hspeculates := h.speculates
    rw [field_some hv] at hspeculates
    exact hspeculates.admitted hd
  · intro v hv hd
    have hsees := h.sees
    rw [field_some hv] at hsees
    exact hsees.admitted hd
  · intro v hv _
    exact admitted_int h.pleRssGib (.inl (by decide)) (by simp [integerFields]) hv
  · intro v hv _
    exact admitted_int h.mmProcessorWorkerNum (.inl (by decide)) (by simp [integerFields]) hv
  · intro v hv hd
    have hcalibrated := h.calibrated
    rw [hv] at hcalibrated
    exact hcalibrated.admitted hd
  · intro v hv _
    exact admitted_enum h.moeBackend (by decide) hv
  · intro v hv _
    exact admitted_enum h.decodeGraphBackend (by decide) hv

end Runtime
end FlashNext
