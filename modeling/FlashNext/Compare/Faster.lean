import FlashNext.Compare.Handled
import FlashNext.Stats.Samples

/-!
# Faster prose rows

A candidate whose measured rows took less wall time, in any order of its rows, keeps its rows and
its counts, and its median rates are no less: `proseStage_eased`.  The baseline's rows may come in
another order as well.
-/

namespace FlashNext
namespace Compare

open Py (Str Value str)
open Stats (Below)

/-! ## Statistics -/

theorem medianOf_mono {xs ys : List ℚ} (h : Below xs ys) : medianOf xs ≤ medianOf ys := by
  have hsort : List.Forall₂ (· ≤ ·) (sorted xs) (sorted ys) := h.sort
  have hlen := hsort.length_eq
  unfold medianOf
  simp only [← hlen]
  split
  · exact Stats.getD_mono hsort _ 0
  · have hlow := Stats.getD_mono hsort ((sorted xs).length / 2 - 1) 0
    have hhigh := Stats.getD_mono hsort ((sorted xs).length / 2) 0
    linarith

theorem percentileOf_mono {xs ys : List ℚ} (h : Below xs ys) (q : ℚ) :
    percentileOf xs q ≤ percentileOf ys q := by
  rw [percentileOf, percentileOf, h.length_eq]
  exact Stats.getD_mono h.sort _ 0

/-! ## One row -/

/-- The value is no float above the largest double. -/
def isDouble : Value → Bool
  | .float q => Py.floats ⌊q⌋
  | _ => true

theorem floats_mono {m n : Int} (h : Py.floats n = true) (hm : 0 ≤ m) (hle : m ≤ n) :
    Py.floats m = true := by
  have habs : m.natAbs ≤ n.natAbs := by omega
  unfold Py.floats at h ⊢
  rw [decide_eq_true_eq] at h ⊢
  exact lt_of_le_of_lt habs h

/-- `float` takes a positive number that is no larger than one that it takes. -/
theorem floatable_of_le {x x' : Value} {q q' : ℚ} (hx : number? x = some q)
    (hfloat : floatable x = true) (hdouble : isDouble x = true) (hx' : number? x' = some q')
    (hpos : 0 < q') (hle : q' ≤ q) : floatable x' = true := by
  cases x' with
  | int m =>
    obtain rfl := Option.some.inj hx'
    have hm : 0 ≤ m := by exact_mod_cast hpos.le
    show Py.floats m = true
    cases x with
    | int n =>
      obtain rfl := Option.some.inj hx
      exact floats_mono hfloat hm (by exact_mod_cast hle)
    | float p =>
      obtain rfl := Option.some.inj hx
      exact floats_mono hdouble hm (Int.le_floor.mpr hle)
    | _ => cases hx
  | _ => rfl

/-- The dictionaries have the same items but for the keys. -/
def AgreeBut (keys : List String) (fields fields' : Fields) : Prop :=
  ∀ key, key ∉ keys → Value.lookup fields' key = Value.lookup fields key

theorem AgreeBut.field {keys : List String} {fields fields' : Fields}
    (h : AgreeBut keys fields fields') {key : String} (hkey : key ∉ keys) :
    Value.field fields' key = Value.field fields key := by
  rw [Value.field, Value.field, h key hkey]

theorem AgreeBut.mono {keys keys' : List String} {fields fields' : Fields}
    (h : AgreeBut keys fields fields') (hkeys : keys ⊆ keys') : AgreeBut keys' fields fields' :=
  fun key hkey => h key fun hmem => hkey (hkeys hmem)

theorem AgreeBut.refl (keys : List String) (fields : Fields) : AgreeBut keys fields fields :=
  fun _ _ => rfl

/-- The row took less wall time, no less than its first token did.  A rate that it states is
recomputed. -/
structure LowersWall (env : Env) (fields fields' : Fields) : Prop where
  agree : AgreeBut ["wall_s", "e2erate"] fields fields'
  wall : ∃ wall wall' ttft, number? (Value.field fields "wall_s") = some wall ∧
    number? (Value.field fields' "wall_s") = some wall' ∧
    number? (Value.field fields "ttft_s") = some ttft ∧ ttft ≤ wall' ∧ wall' ≤ wall
  double : isDouble (Value.field fields "wall_s") = true
  stated : (Value.field fields' "e2erate").isNone = true ∨
    floatOf env (Value.field fields' "e2erate") = .ok (.finite (proseRate (.dict fields')))

inductive EasedProse (env : Env) : Value → Value → Prop where
  | same (row : Value) : EasedProse env row row
  | lowered (fields fields' : Fields) : LowersWall env fields fields' →
    EasedProse env (.dict fields) (.dict fields')

/-- The row that is kept is as fast or faster. -/
def AsFast (p p' : ProseRow) : Prop :=
  AgreeBut ["wall_s", "e2erate"] p.fields p'.fields ∧ p.rate ≤ p'.rate

theorem AsFast.refl (p : ProseRow) : AsFast p p := ⟨AgreeBut.refl _ _, le_refl _⟩

theorem checkStated_ok {env : Env} {variant : String} {row : Nat} {fields : Fields} {rate : ℚ}
    {u : Unit} : checkStated env variant row fields rate = .ok u ↔
      (Value.field fields "e2erate").isNone = true ∨
        ∃ stated, floatOf env (Value.field fields "e2erate") = .ok stated ∧
          disagrees (1 / 100) rate stated = false := by
  rw [checkStated]
  split
  · next hnone => exact ⟨fun _ => .inl hnone, fun _ => rfl⟩
  · next hsome =>
    simp only [Effect.bind_ok, rejectIf_ok, hsome, Bool.false_eq_true, false_or]

/-- The rate that was recomputed agrees with itself. -/
theorem disagrees_self (rate : ℚ) : disagrees (1 / 100) rate (.finite rate) = false := by
  rw [disagrees, decide_eq_false_iff_not, sub_self, abs_zero, not_lt]
  exact le_trans (by norm_num) (le_max_left _ _)

/-- Whether a row passes depends neither on its place nor on its side. -/
theorem checkProseRow_any {env : Env} {variant variant' : String} {i i' : Nat} {fields : Fields}
    {rate : ℚ} (h : checkProseRow env variant i fields = .ok rate) :
    checkProseRow env variant' i' fields = .ok rate := by
  simp only [checkProseRow, checkUsage, checkWall, Effect.bind_ok, rejectIf_ok, orReject_ok,
    requireFinitePositive_ok, checkStated_ok] at h ⊢
  exact h

theorem proseRate_eq {fields usage : Fields} {completion : Int} {wall : ℚ}
    (husage : Value.field fields "usage" = .dict usage)
    (hcompletion : Value.field usage "completion_tokens" = .int completion)
    (hwall : number? (Value.field fields "wall_s") = some wall) :
    proseRate (.dict fields) = completion / wall := by
  show (intOf (Value.field (fieldsOf (Value.field fields "usage")) "completion_tokens") : ℚ) /
    (number? (Value.field fields "wall_s")).getD 0 = completion / wall
  rw [husage, hwall]
  show (intOf (Value.field usage "completion_tokens") : ℚ) / wall = completion / wall
  rw [hcompletion]
  rfl

theorem lookup_of_number {fields : Fields} {key : String} {q : ℚ}
    (h : number? (Value.field fields key) = some q) : (Value.lookup fields key).isNone = false := by
  rw [Value.field] at h
  cases hlookup : Value.lookup fields key with
  | none =>
    rw [hlookup] at h
    cases h
  | some v => rfl

/-- A kept row still passes when it took less wall time, and its rate is no less. -/
theorem checkProseRow_lowered {env : Env} {variant : String} {i : Nat} {fields fields' : Fields}
    {rate : ℚ} (h : checkProseRow env variant i fields = .ok rate)
    (hlowers : LowersWall env fields fields') :
    ∃ rate', checkProseRow env variant i fields' = .ok rate' ∧ rate ≤ rate' := by
  obtain ⟨wall, wall', ttft, hwall, hwall', httft, hfirst, hle⟩ := hlowers.wall
  have hfield : ∀ key, key ∉ ["wall_s", "e2erate"] →
      Value.field fields' key = Value.field fields key := fun _ hkey => hlowers.agree.field hkey
  obtain ⟨hevidence, hrate⟩ := checkProseRow_ok h
  obtain ⟨usage, prompt, completion, husage, -, hcompletion, -, -, hcpos⟩ := hevidence.usage
  obtain ⟨ttft₀, wall₀, httft₀, -, hpos, -⟩ := hevidence.times
  obtain rfl : ttft₀ = ttft := Option.some.inj (httft₀.symm.trans httft)
  have husage : Value.field fields "usage" = .dict usage := husage
  have hpos' : 0 < wall' := lt_of_lt_of_le hpos hfirst
  have hrate' : proseRate (.dict fields') = completion / wall' :=
    proseRate_eq ((hfield "usage" (by decide)).trans husage) hcompletion hwall'
  refine ⟨completion / wall', ?_, ?_⟩
  · have hmissing : missingKeys fields' proseKeys = missingKeys fields proseKeys := by
      refine List.filter_congr fun key hkey => ?_
      by_cases hwallKey : key = "wall_s"
      · rw [hwallKey, lookup_of_number hwall, lookup_of_number hwall']
      · rw [hlowers.agree key]
        rw [List.mem_cons, List.mem_singleton]
        rintro (hsame | rfl)
        · exact hwallKey hsame
        · exact absurd hkey (by decide)
    have hstated : (Value.field fields' "e2erate").isNone = true ∨
        ∃ stated, floatOf env (Value.field fields' "e2erate") = .ok stated ∧
          disagrees (1 / 100) (completion / wall') stated = false := by
      rcases hlowers.stated with hnone | hfloat
      · exact .inl hnone
      · rw [hrate'] at hfloat
        exact .inr ⟨_, hfloat, disagrees_self _⟩
    simp only [checkProseRow, checkUsage, checkWall, Effect.bind_ok, rejectIf_ok, orReject_ok,
      requireFinitePositive_ok, checkStated_ok, Effect.pure_ok] at h ⊢
    obtain ⟨-, hkeys, -, hvalid, -, hmodel, comp, ⟨usage₁, husage₁, -, hints, -, htotals, hcomp⟩,
      -, ⟨old, ⟨⟨hold, -⟩, hfloat⟩, first, hfirsts, -⟩, -, hok, -⟩ := h
    have hfloat' := floatable_of_le hold hfloat hlowers.double hwall' hpos'
      (hle.trans (le_of_eq (Option.some.inj (hwall.symm.trans hold))))
    obtain rfl : first = ttft₀ := Option.some.inj (hfirsts.1.1.symm.trans httft)
    obtain rfl : usage₁ = usage := by
      rw [husage] at husage₁
      exact (Option.some.inj husage₁).symm
    obtain rfl : (completion : ℚ) = comp := by
      rw [hcompletion] at hcomp
      exact Option.some.inj hcomp.1.1
    rw [hmissing, hfield "valid" (by decide), hfield "model" (by decide),
      hfield "finish_reason" (by decide), hfield "usage" (by decide), hfield "ok" (by decide),
      hfield "error" (by decide), hfield "raw_events" (by decide), hfield "ttft_s" (by decide)]
    exact ⟨(), hkeys, (), hvalid, (), hmodel, completion,
      ⟨usage₁, husage₁, (), hints, (), htotals, hcomp⟩, wall',
      ⟨wall', ⟨⟨hwall', hpos'⟩, hfloat'⟩, first, hfirsts, (),
        decide_eq_false (not_lt.mpr hfirst), rfl⟩, (), hok, (), hstated, rfl⟩
  · rw [hrate, proseRate_eq husage hcompletion hwall]
    have hcompletion₀ : (0 : ℚ) ≤ completion := by exact_mod_cast Int.le_of_lt hcpos
    exact div_le_div_of_nonneg_left hcompletion₀ hpos' hle

/-! ## All rows of a side -/

section Rows

variable {env : Env} {variant variant' : String} {rows mid rows' : List Value}
  {out omid out' : List ProseRow}

/-- The row is kept with its rate. -/
def Measures (env : Env) (row : Value) (p : ProseRow) : Prop :=
  row = .dict p.fields ∧ checkProseRow env "" 0 p.fields = .ok p.rate

theorem measuredProseRows_iff {i : Nat} : measuredProseRows env variant i rows = .ok out ↔
    (∀ row ∈ rows, ∃ fields, row = .dict fields) ∧
      List.Forall₂ (Measures env) (rows.filter keptProse) out := by
  induction rows generalizing i out with
  | nil =>
    rw [measuredProseRows, Except.ok.injEq, List.filter_nil, List.forall₂_nil_left_iff, eq_comm]
    exact (and_iff_right fun row hrow => absurd hrow List.not_mem_nil).symm
  | cons row rows ih =>
    rw [measuredProseRows, Effect.bind_ok, List.forall_mem_cons, List.filter_cons]
    constructor
    · rintro ⟨fields, hfields, h⟩
      obtain rfl := dictOf_ok.mp hfields
      have hkept : keptProse (.dict fields) = !skippedProse fields := rfl
      rw [hkept]
      cases hskip : skippedProse fields with
      | true =>
        rw [if_pos hskip] at h
        obtain ⟨hdicts, hall⟩ := ih.mp h
        exact ⟨⟨⟨fields, rfl⟩, hdicts⟩, hall⟩
      | false =>
        rw [if_neg (by rw [hskip]; exact Bool.false_ne_true)] at h
        simp only [Effect.bind_ok, Effect.pure_ok] at h
        obtain ⟨rate, hrate, rest, hrest, rfl⟩ := h
        obtain ⟨hdicts, hall⟩ := ih.mp hrest
        exact ⟨⟨⟨fields, rfl⟩, hdicts⟩, .cons ⟨rfl, checkProseRow_any hrate⟩ hall⟩
    · rintro ⟨⟨⟨fields, rfl⟩, hdicts⟩, hall⟩
      refine ⟨fields, rfl, ?_⟩
      have hkept : keptProse (.dict fields) = !skippedProse fields := rfl
      rw [hkept] at hall
      cases hskip : skippedProse fields with
      | true =>
        rw [hskip] at hall
        rw [if_pos rfl]
        exact ih.mpr ⟨hdicts, hall⟩
      | false =>
        rw [hskip] at hall
        rw [if_neg Bool.false_ne_true]
        obtain ⟨p, rest, ⟨hp, hrate⟩, hrest, rfl⟩ := List.forall₂_cons_left_iff.mp hall
        obtain rfl : fields = p.fields := Value.dict.inj hp
        simp only [Effect.bind_ok, Effect.pure_ok]
        exact ⟨p.rate, checkProseRow_any hrate, rest, ih.mpr ⟨hdicts, hrest⟩, rfl⟩

/-- A relation of rows that carries over to what is read from them. -/
theorem forall₂_step {α β : Type} {E : α → α → Prop} {M : α → β → Prop} {F : β → β → Prop}
    (hstep : ∀ x x' y, E x x' → M x y → ∃ y', M x' y' ∧ F y y') {xs xs' : List α} {ys : List β}
    (hxs : List.Forall₂ E xs xs') (hys : List.Forall₂ M xs ys) :
    ∃ ys', List.Forall₂ M xs' ys' ∧ List.Forall₂ F ys ys' := by
  induction hxs generalizing ys with
  | nil =>
    cases hys
    exact ⟨[], .nil, .nil⟩
  | cons hx _ ih =>
    obtain ⟨y, rest, hy, hrest, rfl⟩ := List.forall₂_cons_left_iff.mp hys
    obtain ⟨y', hm, hf⟩ := hstep _ _ y hx hy
    obtain ⟨ys', hms, hfs⟩ := ih hrest
    exact ⟨y' :: ys', .cons hm hms, .cons hf hfs⟩

/-- What is read from the kept rows, when the rows are changed one by one and then put into
another order. -/
theorem forall₂_kept {α β : Type} {kept : α → Bool} {E : α → α → Prop} {M : α → β → Prop}
    {F : β → β → Prop} (hkept : ∀ x x', E x x' → kept x' = kept x)
    (hstep : ∀ x x' y, E x x' → M x y → ∃ y', M x' y' ∧ F y y') {xs mid xs' : List α} {ys : List β}
    (hys : List.Forall₂ M (xs.filter kept) ys) (hmid : List.Forall₂ E xs mid)
    (hperm : mid.Perm xs') : ∃ ymid ys', List.Forall₂ M (xs'.filter kept) ys' ∧
      List.Forall₂ F ys ymid ∧ ymid.Perm ys' := by
  have hfilter : List.Forall₂ E (xs.filter kept) (mid.filter kept) :=
    List.rel_filter (fun x x' hx => by
      show kept x = true ↔ kept x' = true
      rw [hkept x x' hx]) hmid
  obtain ⟨ymid, hymid, hsteps⟩ := forall₂_step hstep hfilter hys
  obtain ⟨ys', hys', hymids⟩ := List.perm_comp_forall₂ (hperm.filter kept).symm hymid
  exact ⟨ymid, ys', hys', hsteps, hymids.symm⟩

/-- Rows that are changed one by one and put into another order are dictionaries when they were. -/
theorem dicts_eased {E : Value → Value → Prop}
    (hdict : ∀ row row', E row row' → (∃ fields, row = .dict fields) → ∃ fields, row' = .dict fields)
    (hrows : ∀ row ∈ rows, ∃ fields, row = .dict fields) (hmid : List.Forall₂ E rows mid)
    (hperm : mid.Perm rows') : ∀ row ∈ rows', ∃ fields, row = .dict fields := by
  intro row hrow
  obtain ⟨row₀, hrow₀, heased⟩ := Effect.forall₂_exists_left hmid row (hperm.mem_iff.mpr hrow)
  exact hdict row₀ row heased (hrows row₀ hrow₀)

/-- Rows that are changed one by one and put into another order are kept, and what is kept of
them is changed alike. -/
theorem measuredProseRows_step {E : Value → Value → Prop} {F : ProseRow → ProseRow → Prop} {i : Nat}
    (hkept : ∀ row row', E row row' → keptProse row' = keptProse row)
    (hdict : ∀ row row', E row row' → (∃ fields, row = .dict fields) → ∃ fields, row' = .dict fields)
    (hstep : ∀ row row' p, E row row' → Measures env row p → ∃ p', Measures env row' p' ∧ F p p')
    (h : measuredProseRows env variant i rows = .ok out) (hmid : List.Forall₂ E rows mid)
    (hperm : mid.Perm rows') :
    ∃ omid out', measuredProseRows env variant i rows' = .ok out' ∧ List.Forall₂ F out omid ∧
      omid.Perm out' := by
  obtain ⟨hdicts, hmeasures⟩ := measuredProseRows_iff.mp h
  obtain ⟨omid, out', hout', hsteps, hout⟩ := forall₂_kept hkept hstep hmeasures hmid hperm
  exact ⟨omid, out', measuredProseRows_iff.mpr ⟨dicts_eased hdict hdicts hmid hperm, hout'⟩, hsteps,
    hout⟩

theorem measuredProseRows_perm {i : Nat} (h : measuredProseRows env variant i rows = .ok out)
    (hperm : rows.Perm rows') :
    ∃ out', measuredProseRows env variant i rows' = .ok out' ∧ out.Perm out' := by
  obtain ⟨omid, out', hout', hsame, hout⟩ := measuredProseRows_step (E := Eq) (F := Eq)
    (fun row row' hrow => by rw [hrow]) (fun row row' hrow hfields => hrow ▸ hfields)
    (fun row row' p hrow hp => ⟨p, hrow ▸ hp, rfl⟩) h (List.forall₂_same.mpr fun _ _ => rfl) hperm
  obtain rfl := List.forall₂_eq_eq_eq ▸ hsame
  exact ⟨out', hout', hout⟩

theorem measuredProseRows_eased {i : Nat} (h : measuredProseRows env variant i rows = .ok out)
    (hmid : List.Forall₂ (EasedProse env) rows mid) (hperm : mid.Perm rows') :
    ∃ omid out', measuredProseRows env variant i rows' = .ok out' ∧
      List.Forall₂ AsFast out omid ∧ omid.Perm out' := by
  refine measuredProseRows_step ?_ ?_ ?_ h hmid hperm
  · intro row row' heased
    cases heased with
    | same => rfl
    | lowered fields fields' hlowers =>
      show (!skippedProse fields') = !skippedProse fields
      rw [skippedProse, skippedProse, hlowers.agree.field (by decide),
        hlowers.agree.field (by decide)]
  · intro row row' heased hfields
    cases heased with
    | same => exact hfields
    | lowered fields fields' hlowers => exact ⟨fields', rfl⟩
  · intro row row' p heased hp
    cases heased with
    | same => exact ⟨p, hp, AsFast.refl p⟩
    | lowered fields fields' hlowers =>
      obtain ⟨hfields, hrate⟩ := hp
      obtain rfl : fields = p.fields := Value.dict.inj hfields
      obtain ⟨rate', hrate', hle⟩ := checkProseRow_lowered hrate hlowers
      exact ⟨⟨fields', rate'⟩, ⟨rfl, hrate'⟩, hlowers.agree, hle⟩

/-! ## The counts -/

/-- What the counts read of a kept row. -/
def countKey (p : ProseRow) : Value × Value :=
  (Value.field p.fields "case", Value.field p.fields "repeat")

def keysOf (keys : List (Value × Value)) (case : String) : List (Value × Value) :=
  keys.filter fun key => isText key.1 case

/-- The fixed repeats of the fixed cases. -/
def Counted (repeats : Nat) (keys : List (Value × Value)) : Prop :=
  (∀ key ∈ keys, ∃ case ∈ proseCases, key.1 = .str (str case)) ∧
    ∀ case ∈ proseCases, keysOf keys case ≠ [] ∧
      ((keysOf keys case).map (·.2)).Perm ((List.range repeats).map fun n : Nat => .int n)

theorem Counted.perm {repeats : Nat} {keys keys' : List (Value × Value)} (h : Counted repeats keys)
    (hperm : keys.Perm keys') : Counted repeats keys' := by
  refine ⟨fun key hkey => h.1 key (hperm.mem_iff.mpr hkey), fun case hcase => ?_⟩
  obtain ⟨hne, hrepeats⟩ := h.2 case hcase
  have hsel : (keysOf keys case).Perm (keysOf keys' case) := hperm.filter _
  refine ⟨fun hnil => hne ?_, (hsel.map _).symm.trans hrepeats⟩
  rw [hnil] at hsel
  exact hsel.eq_nil

theorem keysOf_countKey (rows : List ProseRow) (case : String) :
    keysOf (rows.map countKey) case = (byCase rows case).map countKey := by
  rw [keysOf, List.filter_map]
  rfl

theorem mem_sortedCases {case : String} : case ∈ sortedCases ↔ case ∈ proseCases := by
  simp only [proseCases, sortedCases, List.mem_cons, List.not_mem_nil, or_false]
  tauto

theorem checkRepeats_of_perm {case : String} {repeats : Nat} {kept : List ProseRow}
    (h : (kept.map fun row => Value.field row.fields "repeat").Perm
      ((List.range repeats).map fun n : Nat => .int n)) :
    checkRepeats variant case repeats kept = .ok () := by
  have hints : ((kept.map fun row => Value.field row.fields "repeat").map intOf).Perm
      ((List.range repeats).map Int.ofNat) := by
    have hrange : ((List.range repeats).map fun n : Nat => Value.int n).map intOf =
        (List.range repeats).map Int.ofNat := by
      rw [List.map_map]
      rfl
    rw [← hrange]
    exact h.map intOf
  have hsorted : ((List.range repeats).map Int.ofNat).Pairwise (· ≤ ·) :=
    List.pairwise_map.mpr (List.pairwise_lt_range.imp fun hlt => Int.ofNat_le.mpr (Nat.le_of_lt hlt))
  have hnodup : ((List.range repeats).map Int.ofNat).Nodup :=
    List.nodup_range.map fun _ _ heq => Int.ofNat.inj heq
  have hsort : (((kept.map fun row => Value.field row.fields "repeat").map intOf).insertionSort
      (· ≤ ·)) = (List.range repeats).map Int.ofNat := by
    rw [Stats.sort_perm hints]
    exact hsorted.insertionSort_eq
  have hlen : (kept.map fun row => Value.field row.fields "repeat").length = repeats := by
    rw [h.length_eq, List.length_map, List.length_range]
  simp only [checkRepeats, Effect.bind_ok, rejectIf_ok]
  refine ⟨(), ?_, (), ?_, (), ?_, ?_⟩
  · refine List.any_eq_false.mpr fun value hvalue => ?_
    obtain ⟨n, -, rfl⟩ := List.mem_map.mp (h.mem_iff.mp hvalue)
    exact Bool.false_ne_true
  · rw [decide_eq_true (hints.nodup_iff.mpr hnodup)]
    rfl
  · rw [hlen]
    exact bne_self_eq_false repeats
  · rw [hsort]
    exact bne_self_eq_false _

theorem checkCounts_iff {repeats : Nat} {kept : List ProseRow} :
    checkCounts variant repeats kept = .ok () ↔ Counted repeats (kept.map countKey) := by
  constructor
  · intro h
    obtain ⟨hcases, hrepeats⟩ := checkCounts_ok h
    refine ⟨List.forall_mem_map.mpr hcases, fun case hcase => ?_⟩
    rw [keysOf_countKey, ne_eq, List.map_eq_nil_iff, List.map_map]
    exact ⟨byCase_ne_nil ⟨(), h⟩ hcase, hrepeats case hcase⟩
  · rintro ⟨hcases, hrepeats⟩
    rw [List.forall_mem_map] at hcases
    simp only [checkCounts, Effect.bind_ok, rejectIf_ok, Effect.reject_ok, Effect.forM_ok]
    refine ⟨(), ?_, (), ?_, fun case hcase => ?_⟩
    · refine List.any_eq_false.mpr fun row hrow => ?_
      obtain ⟨case, -, hcase⟩ := hcases row hrow
      rw [show Value.field row.fields "case" = .str (str case) from hcase]
      exact Bool.false_ne_true
    · rw [Bool.or_eq_false_iff, Bool.not_eq_false', List.isEmpty_iff, List.filter_eq_nil_iff]
      constructor
      · intro case hcase
        have hne := (hrepeats case (mem_sortedCases.mp hcase)).1
        rw [keysOf_countKey, ne_eq, List.map_eq_nil_iff] at hne
        rwa [List.isEmpty_iff]
      · refine List.any_eq_false.mpr fun row hrow => ?_
        obtain ⟨case, hmem, hcase⟩ := hcases row hrow
        rw [Bool.not_eq_true, Bool.not_eq_false', List.any_eq_true]
        exact ⟨case, mem_sortedCases.mpr hmem, isText_iff.mpr hcase⟩
    · have hperm := (hrepeats case (mem_sortedCases.mp hcase)).2
      rw [keysOf_countKey, List.map_map] at hperm
      exact checkRepeats_of_perm hperm

/-! ## The prose stage -/

theorem countKeys_eased (h : List.Forall₂ AsFast out omid) :
    out.map countKey = omid.map countKey := by
  rw [← List.forall₂_eq_eq_eq, List.forall₂_map_left_iff, List.forall₂_map_right_iff]
  refine h.imp fun p p' hp => ?_
  rw [countKey, countKey, hp.1.field (by decide), hp.1.field (by decide)]

theorem rates_below (h : List.Forall₂ AsFast out omid) (hperm : omid.Perm out') (case : String) :
    Below ((byCase out case).map ProseRow.rate) ((byCase out' case).map ProseRow.rate) := by
  have hcase : List.Forall₂ AsFast (byCase out case) (byCase omid case) :=
    List.rel_filter (fun p p' hp => by
      show isText (Value.field p.fields "case") case = true ↔
        isText (Value.field p'.fields "case") case = true
      rw [hp.1.field (by decide)]) h
  refine ⟨(byCase omid case).map ProseRow.rate, ?_, (hperm.filter _).map _⟩
  rw [List.forall₂_map_left_iff, List.forall₂_map_right_iff]
  exact hcase.imp fun p p' hp => hp.2

theorem proseRate_pos {fields : Fields} (h : ProseEvidence (.dict fields)) :
    0 < proseRate (.dict fields) := by
  obtain ⟨usage, prompt, completion, husage, -, hcompletion, -, -, hcpos⟩ := h.usage
  obtain ⟨ttft, wall, -, hwall, hpos, hle⟩ := h.times
  have hcpos' : (0 : ℚ) < completion := by exact_mod_cast hcpos
  have hrate : proseRate (.dict fields) = completion / wall :=
    proseRate_eq husage hcompletion hwall
  rw [hrate]
  exact div_pos hcpos' (lt_of_lt_of_le hpos hle)

theorem median_rates_pos {i : Nat} (h : measuredProseRows env variant i rows = .ok out)
    {case : String} (hne : byCase out case ≠ []) :
    0 < medianOf ((byCase out case).map ProseRow.rate) := by
  refine medianOf_pos (by rwa [ne_eq, List.map_eq_nil_iff]) fun x hx => ?_
  obtain ⟨p, hp, rfl⟩ := List.mem_map.mp hx
  obtain ⟨hevidence, hrate⟩ := (measuredProseRows_ok h).2 p (List.mem_filter.mp hp).1
  rw [hrate]
  exact proseRate_pos hevidence

theorem gainOf_pass_of {b c : ℚ} (hb : 0 < b) (h : 21 / 20 * b ≤ c) :
    (gainOf b c).pass = true := by
  refine decide_eq_true ?_
  rw [threshold, le_div_iff₀ hb]
  linarith

theorem proseLoop_of {base cand : List ProseRow} {cases : List String}
    (h : ∀ case ∈ cases, byCase base case ≠ [] ∧ byCase cand case ≠ [] ∧
      0 < medianOf ((byCase base case).map ProseRow.rate) ∧
      Improves ((byCase base case).map ProseRow.rate) ((byCase cand case).map ProseRow.rate)) :
    ∃ gates, proseLoop base cand cases = .ok (gates, none) := by
  induction cases with
  | nil => exact ⟨[], rfl⟩
  | cons case cases ih =>
    obtain ⟨⟨hbase, hcand, hpos, himproves⟩, hrest⟩ := List.forall_mem_cons.mp h
    obtain ⟨gates, hgates⟩ := ih hrest
    have hb : (byCase base case).map ProseRow.rate ≠ [] := by rwa [ne_eq, List.map_eq_nil_iff]
    have hc : (byCase cand case).map ProseRow.rate ≠ [] := by rwa [ne_eq, List.map_eq_nil_iff]
    have hgain := gainOf_pass_of hpos himproves
    refine ⟨(case, gainOf (medianOf ((byCase base case).map ProseRow.rate))
      (medianOf ((byCase cand case).map ProseRow.rate))) :: gates, ?_⟩
    rw [proseLoop, passes_median hb, passes_median hc]
    refine Effect.bind_ok.mpr ⟨_, rfl, Effect.bind_ok.mpr ⟨_, rfl, ?_⟩⟩
    rw [if_neg (not_le.mpr hpos), if_pos hgain]
    exact Effect.bind_ok.mpr ⟨_, hgates, rfl⟩

/-- The stage lets the run go on when the rows of the baseline come in another order and those of
the candidate were as fast or faster. -/
theorem proseStage_eased {repeats : Nat} {base base' cand cmid cand' : List ProseRow}
    (hrows : measuredProseRows env variant 0 rows = .ok base) (hbase : base.Perm base')
    (hcand : List.Forall₂ AsFast cand cmid) (hperm : cmid.Perm cand')
    (h : Goes (proseStage repeats base cand)) : Goes (proseStage repeats base' cand') := by
  obtain ⟨hbcounts, hccounts, himproves⟩ := proseStage_pass h
  have hbcounts' : checkCounts "baseline" repeats base' = .ok () :=
    checkCounts_iff.mpr ((checkCounts_iff.mp hbcounts).perm (hbase.map _))
  have hccounts' : checkCounts "candidate" repeats cand' = .ok () := by
    refine checkCounts_iff.mpr ((checkCounts_iff.mp hccounts).perm ?_)
    rw [countKeys_eased hcand]
    exact hperm.map _
  obtain ⟨prose, hprose⟩ : ∃ prose, proseLoop base' cand' proseCases = .ok (prose, none) := by
    refine proseLoop_of fun case hcase => ?_
    have hmedian : medianOf ((byCase base' case).map ProseRow.rate) =
        medianOf ((byCase base case).map ProseRow.rate) := by
      have hrates := (hbase.filter fun row => isText (Value.field row.fields "case") case).map
        ProseRow.rate
      exact le_antisymm (medianOf_mono (Stats.below_of_perm hrates.symm))
        (medianOf_mono (Stats.below_of_perm hrates))
    refine ⟨byCase_ne_nil ⟨(), hbcounts'⟩ hcase, byCase_ne_nil ⟨(), hccounts'⟩ hcase, ?_, ?_⟩
    · rw [hmedian]
      exact median_rates_pos hrows (byCase_ne_nil ⟨(), hbcounts⟩ hcase)
    · rw [Improves, hmedian]
      exact le_trans (himproves case hcase) (medianOf_mono (rates_below hcand hperm case))
  obtain ⟨gates, -, -⟩ := h
  refine ⟨gates, { gates with prose := (prose, none) }, ?_⟩
  refine Effect.bind_ok.mpr ⟨.ok (), ?_, Effect.bind_ok.mpr ⟨_, hprose, rfl⟩⟩
  exact caught_ok.mpr (Effect.bind_ok.mpr ⟨(), hbcounts', hccounts'⟩)

end Rows

end Compare
end FlashNext
