import FlashNext.Compare.Number

/-!
# The measured prose rows

`measuredProseRows` keeps the rows that are no warmup and refuses the whole side when one of them
is not valid evidence; `checkCounts` refuses a side that does not have the fixed repeats of the
fixed cases.
-/

namespace FlashNext
namespace Compare

open Py (Str Value str)

def modelId : Str := str "nvidia/Qwen3.8-Flash-Next-NVFP4"

def isText (v : Value) (s : String) : Bool := v.eqv (.str (str s))

/-! ## One row -/

/-- A row that is not measured. -/
def skippedProse (fields : Fields) : Bool :=
  (Value.field fields "warmup").isTrue || isText (Value.field fields "repeat") "warmup"

def proseKeys : List String :=
  ["case", "repeat", "valid", "finish_reason", "usage", "wall_s", "ttft_s"]

def missingKeys (fields : Fields) (keys : List String) : List String :=
  keys.filter fun key => (Value.lookup fields key).isNone

/-- `type(value) is int` gives the number, anything else gives 0. -/
def intOf (v : Value) : Int := v.asInt?.getD 0

def checkUsage (variant : String) (row : Nat) (fields : Fields) : Check ℚ := do
  let usage ← orReject (Value.field fields "usage").asDict?
    [.text variant, .text ": row ", .number row, .text " usage is not an object"]
  rejectIf (["prompt_tokens", "completion_tokens", "total_tokens"].any fun key =>
      (Value.field usage key).asInt?.isNone)
    [.text variant, .text ": usage must be exact JSON integers"]
  rejectIf (decide (intOf (Value.field usage "prompt_tokens") < 0) ||
      intOf (Value.field usage "total_tokens") !=
        intOf (Value.field usage "prompt_tokens") + intOf (Value.field usage "completion_tokens"))
    [.text variant, .text ": usage total mismatch"]
  requireFinitePositive (Value.field usage "completion_tokens")
    [.text variant, .text " row ", .number row, .text " completion_tokens"]

def checkWall (variant : String) (row : Nat) (fields : Fields) : Check ℚ := do
  let wall ← requireFinitePositive (Value.field fields "wall_s")
    [.text variant, .text " row ", .number row, .text " wall_s"]
  let ttft ← requireFinitePositive (Value.field fields "ttft_s") [.text "prose ttft_s"]
  rejectIf (decide (wall < ttft)) [.text "prose TTFT exceeds wall time"]
  return wall

/-- A stated rate has to agree with the recomputed one. -/
def checkStated (env : Env) (variant : String) (row : Nat) (fields : Fields) (rate : ℚ) :
    Check Unit :=
  if (Value.field fields "e2erate").isNone then .ok ()
  else do
    let stated ← floatOf env (Value.field fields "e2erate")
    rejectIf (disagrees (1 / 100) rate stated)
      [.text variant, .text ": row ", .number row, .text " e2erate disagrees with usage/wall"]

/-- The checks of a measured row and the rate they recompute. -/
def checkProseRow (env : Env) (variant : String) (row : Nat) (fields : Fields) : Check ℚ := do
  rejectIf (!(missingKeys fields proseKeys).isEmpty)
    [.text variant, .text ": row ", .number row, .text " missing keys ",
      .keys (missingKeys fields proseKeys)]
  rejectIf (!(Value.field fields "valid").isTrue)
    [.text variant, .text ": invalid measured row ", .value (Value.field fields "case"),
      .text "#", .value (Value.field fields "repeat"), .text ": ",
      .value ((Value.field fields "reason").orElse (Value.field fields "error"))]
  rejectIf (!(Value.field fields "model").eqv (.str modelId) ||
      !isText (Value.field fields "finish_reason") "stop")
    [.text variant, .text ": wrong model or incomplete measured prose"]
  let comp ← checkUsage variant row fields
  let wall ← checkWall variant row fields
  rejectIf (!(Value.field fields "ok").isTrue || !(Value.field fields "error").isNone ||
      !(Value.field fields "raw_events").truthy)
    [.text "prose row lacks successful raw response evidence"]
  checkStated env variant row fields (comp / wall)
  return comp / wall

/-- A measured row with the rate that was recomputed from it. -/
structure ProseRow where
  fields : Fields
  rate : ℚ

def measuredProseRows (env : Env) (variant : String) : Nat → List Value → Check (List ProseRow)
  | _, [] => .ok []
  | i, row :: rows => do
    let fields ← dictOf row
    if skippedProse fields then measuredProseRows env variant (i + 1) rows
    else do
      let rate ← checkProseRow env variant i fields
      let out ← measuredProseRows env variant (i + 1) rows
      return ⟨fields, rate⟩ :: out

/-! ## The counts -/

def proseCases : List String :=
  ["db_index_write_read", "city_heat_water", "compression_vs_random_access"]

def sortedCases : List String :=
  ["city_heat_water", "compression_vs_random_access", "db_index_write_read"]

/-- `by_case[case]`. -/
def byCase (rows : List ProseRow) (case : String) : List ProseRow :=
  rows.filter fun row => isText (Value.field row.fields "case") case

def checkRepeats (variant case : String) (repeats : Nat) (rows : List ProseRow) : Check Unit := do
  let seen := rows.map fun row => Value.field row.fields "repeat"
  rejectIf (seen.any fun value => value.asInt?.isNone) [.text "repeat IDs must be exact integers"]
  rejectIf (!decide (seen.map intOf).Nodup)
    [.text variant, .text ": duplicate repeats in ", .text case]
  rejectIf (seen.length != repeats)
    [.text variant, .text ": ", .text case, .text " has ", .number seen.length,
      .text " measured rows, expected ", .number repeats]
  rejectIf ((seen.map intOf).insertionSort (· ≤ ·) != (List.range repeats).map Int.ofNat)
    [.text variant, .text ": ", .text case, .text " repeats are ",
      .repeats ((seen.map intOf).insertionSort (· ≤ ·)), .text ", expected 0..",
      .number ((repeats : ℚ) - 1)]

def checkCounts (variant : String) (repeats : Nat) (rows : List ProseRow) : Check Unit := do
  Effect.reject (rows.any fun row => !hashable (Value.field row.fields "case"))
    (.raised "TypeError")
  let missing := sortedCases.filter fun case => (byCase rows case).isEmpty
  rejectIf (!missing.isEmpty ||
      rows.any fun row => !sortedCases.any fun case => isText (Value.field row.fields "case") case)
    [.text variant, .text ": missing prose cases ", .keys missing]
  sortedCases.forM fun case => checkRepeats variant case repeats (byCase rows case)

/-! ## What the checks establish -/

theorem eqv_str_iff {v : Value} {s : Str} : v.eqv (.str s) = true ↔ v = .str s := by
  rw [Value.eqv_iff]
  constructor
  · rintro ⟨h, -⟩
    cases v with
    | str t => exact h
    | _ => simp [Value.canon] at h
  · rintro rfl
    exact ⟨rfl, by simp⟩

theorem isText_iff {v : Value} {s : String} : isText v s = true ↔ v = .str (str s) :=
  eqv_str_iff

/-- A row that `measuredProseRows` keeps. -/
def keptProse (row : Value) : Bool := row.asDict?.any fun fields => !skippedProse fields

def fieldsOf (row : Value) : Fields := row.asDict?.getD []

/-- Completed tokens for each second of wall time. -/
def proseRate (row : Value) : ℚ :=
  (intOf (Value.field (fieldsOf (Value.field (fieldsOf row) "usage")) "completion_tokens")) /
    (number? (Value.field (fieldsOf row) "wall_s")).getD 0

/-- A kept row is complete evidence. -/
structure ProseEvidence (row : Value) : Prop where
  valid : Value.field (fieldsOf row) "valid" = .bool true
  model : Value.field (fieldsOf row) "model" = .str modelId
  finish : Value.field (fieldsOf row) "finish_reason" = .str (str "stop")
  usage : ∃ (usage : Fields) (prompt completion : Int),
    Value.field (fieldsOf row) "usage" = .dict usage ∧
      Value.field usage "prompt_tokens" = .int prompt ∧
      Value.field usage "completion_tokens" = .int completion ∧
      Value.field usage "total_tokens" = .int (prompt + completion) ∧
      0 ≤ prompt ∧ 0 < completion
  times : ∃ ttft wall : ℚ, number? (Value.field (fieldsOf row) "ttft_s") = some ttft ∧
    number? (Value.field (fieldsOf row) "wall_s") = some wall ∧ 0 < ttft ∧ ttft ≤ wall

theorem checkUsage_ok {variant : String} {row : Nat} {fields : Fields} {comp : ℚ}
    (h : checkUsage variant row fields = .ok comp) :
    ∃ (usage : Fields) (prompt completion : Int),
      Value.field fields "usage" = .dict usage ∧
        Value.field usage "prompt_tokens" = .int prompt ∧
        Value.field usage "completion_tokens" = .int completion ∧
        Value.field usage "total_tokens" = .int (prompt + completion) ∧
        0 ≤ prompt ∧ 0 < completion ∧ comp = completion := by
  simp only [checkUsage, Effect.bind_ok, orReject_ok, rejectIf_ok, requireFinitePositive_ok,
    Value.asDict?_eq_some] at h
  obtain ⟨usage, husage, -, hints, -, hsum, ⟨hcomp, hpos⟩, -⟩ := h
  have hint (key : String)
      (hkey : key ∈ ["prompt_tokens", "completion_tokens", "total_tokens"]) :
      Value.field usage key = .int (intOf (Value.field usage key)) := by
    have hsome := List.any_eq_false.mp hints key hkey
    rw [Option.isNone_iff_eq_none] at hsome
    obtain ⟨n, hn⟩ := Option.ne_none_iff_exists'.mp hsome
    rw [intOf, hn]
    exact Value.asInt?_eq_some.mp hn
  have hprompt := hint "prompt_tokens" (by decide)
  have hcompletion := hint "completion_tokens" (by decide)
  have htotal := hint "total_tokens" (by decide)
  rw [Bool.or_eq_false_iff, decide_eq_false_iff_not, bne_eq_false_iff_eq] at hsum
  rw [hcompletion, number?, Option.some.injEq] at hcomp
  refine ⟨usage, _, _, husage, hprompt, hcompletion, ?_, not_lt.mp hsum.1, ?_, hcomp.symm⟩
  · rw [htotal, hsum.2]
  · rw [← hcomp] at hpos
    exact_mod_cast hpos

theorem checkWall_ok {variant : String} {row : Nat} {fields : Fields} {wall : ℚ}
    (h : checkWall variant row fields = .ok wall) :
    ∃ ttft : ℚ, number? (Value.field fields "ttft_s") = some ttft ∧
      number? (Value.field fields "wall_s") = some wall ∧ 0 < ttft ∧ ttft ≤ wall := by
  simp only [checkWall, Effect.bind_ok, requireFinitePositive_ok, rejectIf_ok, Effect.pure_ok,
    decide_eq_false_iff_not, not_lt] at h
  obtain ⟨w, ⟨⟨hw, -⟩, -⟩, ttft, ⟨⟨httft, hpos⟩, -⟩, -, hle, rfl⟩ := h
  exact ⟨ttft, httft, hw, hpos, hle⟩

theorem checkProseRow_ok {env : Env} {variant : String} {row : Nat} {fields : Fields}
    {rate : ℚ} (h : checkProseRow env variant row fields = .ok rate) :
    ProseEvidence (.dict fields) ∧ rate = proseRate (.dict fields) := by
  simp only [checkProseRow, Effect.bind_ok, rejectIf_ok, Effect.pure_ok] at h
  obtain ⟨-, -, -, hvalid, -, hidentity, comp, hcomp, wall, hwall, -, -, -, -, rfl⟩ := h
  obtain ⟨usage, prompt, completion, husage, hp, hc, ht, hprompt, hpos, rfl⟩ := checkUsage_ok hcomp
  obtain ⟨ttft, httft, hwall, hpos', hle⟩ := checkWall_ok hwall
  rw [Bool.not_eq_false', Value.isTrue_iff] at hvalid
  rw [Bool.or_eq_false_iff, Bool.not_eq_false', Bool.not_eq_false', eqv_str_iff, isText_iff]
    at hidentity
  refine ⟨⟨hvalid, hidentity.1, hidentity.2, ⟨usage, prompt, completion, husage, hp, hc, ht, hprompt,
    hpos⟩, ⟨ttft, wall, httft, hwall, hpos', hle⟩⟩, ?_⟩
  show (completion : ℚ) / wall =
    (intOf (Value.field (fieldsOf (Value.field fields "usage")) "completion_tokens")) /
      (number? (Value.field fields "wall_s")).getD 0
  rw [husage, hwall]
  show (completion : ℚ) / wall = (intOf (Value.field usage "completion_tokens")) / wall
  rw [hc]
  rfl

/-- The rows that are kept, in their order, each with its evidence. -/
theorem measuredProseRows_ok {env : Env} {variant : String} {rows : List Value} {i : Nat}
    {out : List ProseRow} (h : measuredProseRows env variant i rows = .ok out) :
    out.map (fun row => Value.dict row.fields) = rows.filter keptProse ∧
      ∀ row ∈ out, ProseEvidence (.dict row.fields) ∧ row.rate = proseRate (.dict row.fields) := by
  induction rows generalizing i out with
  | nil =>
    rw [measuredProseRows, Except.ok.injEq] at h
    subst h
    exact ⟨rfl, fun row hrow => absurd hrow List.not_mem_nil⟩
  | cons row rows ih =>
    rw [measuredProseRows, Effect.bind_ok] at h
    obtain ⟨fields, hfields, h⟩ := h
    obtain rfl := dictOf_ok.mp hfields
    have hkept : keptProse (.dict fields) = !skippedProse fields := rfl
    cases hskip : skippedProse fields with
    | true =>
      rw [if_pos hskip] at h
      rw [List.filter_cons, hkept, hskip]
      exact ih h
    | false =>
      rw [if_neg (by rw [hskip]; exact Bool.false_ne_true)] at h
      simp only [Effect.bind_ok, Effect.pure_ok] at h
      obtain ⟨rate, hrate, rest, hrest, rfl⟩ := h
      obtain ⟨hrows, hall⟩ := ih hrest
      rw [List.filter_cons, hkept, hskip, List.map_cons, hrows]
      refine ⟨rfl, fun r hr => ?_⟩
      rcases List.mem_cons.mp hr with rfl | hr
      · exact checkProseRow_ok hrate
      · exact hall r hr

theorem checkRepeats_ok {variant case : String} {repeats : Nat} {rows : List ProseRow} {u : Unit}
    (h : checkRepeats variant case repeats rows = .ok u) :
    (rows.map fun row => Value.field row.fields "repeat").Perm
      ((List.range repeats).map fun n : Nat => .int n) := by
  simp only [checkRepeats, Effect.bind_ok, rejectIf_ok] at h
  obtain ⟨-, hints, -, -, -, -, hsorted⟩ := h
  rw [bne_eq_false_iff_eq] at hsorted
  have hseen : ((rows.map fun row => Value.field row.fields "repeat").map intOf).map Value.int =
      rows.map fun row => Value.field row.fields "repeat" := by
    rw [List.map_map]
    refine (List.map_congr_left fun value hvalue => ?_).trans (List.map_id _)
    have hsome := List.any_eq_false.mp hints value hvalue
    rw [Option.isNone_iff_eq_none] at hsome
    obtain ⟨n, hn⟩ := Option.ne_none_iff_exists'.mp hsome
    rw [Function.comp_apply, intOf, hn]
    exact (Value.asInt?_eq_some.mp hn).symm
  have hperm := (List.perm_insertionSort (· ≤ ·)
    ((rows.map fun row => Value.field row.fields "repeat").map intOf)).symm
  rw [hsorted] at hperm
  have hvalues := hperm.map Value.int
  rw [hseen, List.map_map] at hvalues
  exact hvalues

/-- Each fixed case has exactly the repeats, and no row has another case. -/
theorem checkCounts_ok {variant : String} {repeats : Nat} {rows : List ProseRow} {u : Unit}
    (h : checkCounts variant repeats rows = .ok u) :
    (∀ row ∈ rows, ∃ case ∈ proseCases, Value.field row.fields "case" = .str (str case)) ∧
      ∀ case ∈ proseCases,
        ((byCase rows case).map fun row => Value.field row.fields "repeat").Perm
          ((List.range repeats).map fun n : Nat => .int n) := by
  simp only [checkCounts, Effect.bind_ok, rejectIf_ok] at h
  obtain ⟨-, -, -, hcases, hrepeats⟩ := h
  have hsame : ∀ case, case ∈ proseCases ↔ case ∈ sortedCases := by
    intro case
    simp only [proseCases, sortedCases, List.mem_cons, List.not_mem_nil, or_false]
    tauto
  rw [Bool.or_eq_false_iff] at hcases
  refine ⟨fun row hrow => ?_, fun case hcase => ?_⟩
  · have hknown := List.any_eq_false.mp hcases.2 row hrow
    rw [Bool.not_eq_true, Bool.not_eq_false', List.any_eq_true] at hknown
    obtain ⟨case, hmem, hcase⟩ := hknown
    exact ⟨case, (hsame case).mpr hmem, isText_iff.mp hcase⟩
  · exact checkRepeats_ok (Effect.forM_ok.mp hrepeats case ((hsame case).mp hcase))

end Compare
end FlashNext
