import FlashNext.Guard.Launch
import FlashNext.Num.Binary64

/-!
# The memory verdict

`mem_verdict.py` reads the telemetry of one epoch, skips its first quarter and compares how far the
memory fell below the first sample after it with the allowed decline.  A line of the telemetry is
kept as its JSON value; what a failed write leaves of a line is no JSON.
-/

namespace FlashNext
namespace Guard

open Compare (Double roundHalfEven)
open Num (toDouble overflows)

/-! ## Doubles -/

/-- `x < y`. -/
def less : Double → Double → Bool
  | .nonfinite .nan, _ => false
  | _, .nonfinite .nan => false
  | .finite x, .finite y => decide (x < y)
  | .nonfinite .negInf, y => !(y matches .nonfinite .negInf)
  | x, .nonfinite .inf => !(x matches .nonfinite .inf)
  | _, _ => false

/-- `x <= y`. -/
def atMost : Double → Double → Bool
  | .nonfinite .nan, _ => false
  | _, .nonfinite .nan => false
  | x, y => !less y x

/-- The double nearest to a number. -/
def rounded (q : ℚ) : Double :=
  if overflows q then .nonfinite (if 0 < q then .inf else .negInf) else .finite (toDouble q)

/-- `x - y`. -/
def minus : Double → Double → Double
  | .finite x, .finite y => rounded (x - y)
  | .nonfinite .inf, .finite _ => .nonfinite .inf
  | .nonfinite .inf, .nonfinite .negInf => .nonfinite .inf
  | .nonfinite .negInf, .finite _ => .nonfinite .negInf
  | .nonfinite .negInf, .nonfinite .inf => .nonfinite .negInf
  | .finite _, .nonfinite .inf => .nonfinite .negInf
  | .finite _, .nonfinite .negInf => .nonfinite .inf
  | _, _ => .nonfinite .nan

/-- `min` of a list that is not empty. -/
def least (first : Double) (rest : List Double) : Double :=
  rest.foldl (fun m x => if less x m then x else m) first

/-- `round(x, 2)`. -/
def roundHundredths : Double → Double
  | .finite q => .finite (toDouble (roundHalfEven (q * 100) / 100))
  | x => x

/-! ## The samples -/

inductive Line where
  | whole (value : Json)
  /-- The beginning of a line whose write failed. -/
  | torn

/-- The exceptions of the verdict. -/
inductive Fault where
  | decode
  | digits
  | type
  | key
  | overflow
  | index
  deriving DecidableEq

/-- The number a decimal stands for. -/
def decimalValue (d : Decimal) : ℚ := d.mant * 10 ^ d.exp

/-- `n / 1048576`. -/
def intGib (n : Int) : Except Fault Double :=
  if !Py.fits n then .error .digits
  else if overflows (n / 2 ^ 20) then .error .overflow
  else .ok (.finite (toDouble (n / 2 ^ 20)))

/-- `value / 1048576`. -/
def gib : Json → Except Fault Double
  | .int n => intGib n
  | .bool b => intGib (if b then 1 else 0)
  | .float d =>
    match rounded (decimalValue d) with
    | .finite q => .ok (rounded (q / 2 ^ 20))
    | x => .ok x
  | _ => .error .type

/-- `json.loads(line)["mem_available_kb"] / 1048576`. -/
def lineGib : Line → Except Fault Double
  | .torn => .error .decode
  | .whole value => do
    let fields ← Effect.orRaise value.asObj? .type
    let kb ← Effect.orRaise (Json.lookup fields "mem_available_kb") .key
    gib kb

/-! ## The verdict -/

structure Judgement where
  pass : Bool
  samples : Nat
  postWarmupStartGib : Double
  postWarmupMinGib : Double
  observedDeclineGib : Double
  allowedDeclineGib : Double
  rowsDone : Int
  warmupSamples : Nat

inductive Verdict where
  | insufficientSamples (samples : Nat)
  | judged (judgement : Judgement)

def Verdict.isPass : Verdict → Bool
  | .insufficientSamples _ => false
  | .judged j => j.pass

/-- The exit code. -/
def Verdict.exitCode (v : Verdict) : Nat := if v.isPass then 0 else 1

/-- How many of the samples are warm-up. -/
def warmup (samples : Nat) : Nat := max (samples / 4) 1

/-- The verdict on the samples. -/
def judge (allowed : Double) (rowsDone : Int) (vals : List Double) : Except Fault Verdict :=
  if vals.length < 60 then .ok (.insufficientSamples vals.length)
  else
    match vals.drop (warmup vals.length) with
    | [] => .error .index
    | start :: rest =>
      let lowest := least start rest
      let decline := minus start lowest
      .ok (.judged {
        pass := atMost decline allowed
        samples := vals.length
        postWarmupStartGib := roundHundredths start
        postWarmupMinGib := roundHundredths lowest
        observedDeclineGib := roundHundredths decline
        allowedDeclineGib := allowed
        rowsDone := rowsDone
        warmupSamples := warmup vals.length })

/-- `mem_verdict.main`, up to the printing of the verdict. -/
def memVerdict (allowed : Double) (rowsDone : Int) (file : List Line) : Except Fault Verdict := do
  let vals ← file.mapM lineGib
  judge allowed rowsDone vals

/-! ## The verdict that is wanted -/

/-- A decline is more than the allowed one. -/
def Exceeds (allowed : Double) (decline : ℚ) : Prop :=
  match allowed with
  | .finite q => q < decline
  | .nonfinite .negInf => True
  | .nonfinite .inf => False
  | .nonfinite .nan => False

/-- The readings after the warm-up. -/
def postWarmup (readings : List Json) : List Json := readings.drop (warmup readings.length)

/-- How far, in GiB, a reading lies below the first one. -/
def decline (first kb : Int) : ℚ := (first - kb) / 2 ^ 20

/-- The same from the two readings in GiB, each number rounded to a double. -/
def roundedDecline (first kb : Int) : ℚ :=
  toDouble (toDouble (first / 2 ^ 20) - toDouble (kb / 2 ^ 20))

/-- A reading after the warm-up lies further below the first one than is allowed. -/
def FallsBelow (below : Int → Int → ℚ) (allowed : Double) (readings : List Json) : Prop :=
  ∃ first reading kb, (postWarmup readings).head?.bind knownMemory = some first ∧
    reading ∈ postWarmup readings ∧ knownMemory reading = some kb ∧ Exceeds allowed (below first kb)

/-- There is a verdict on the file, and with 60 samples it passes just where no reading after the
warm-up lies more than the allowed decline below the first one. -/
def Agrees (allowed : Double) (rowsDone : Int) (file : List Line) (readings : List Json) : Prop :=
  ∃ verdict, memVerdict allowed rowsDone file = .ok verdict ∧
    (60 ≤ readings.length → (verdict.isPass = true ↔ ¬ FallsBelow decline allowed readings))

/-- Every line is complete and every reading a number of kB that is a double in GiB; and where there
are 60 of them the allowed decline is a number, and rounding to doubles does not change whether
some reading lies further below the first one. -/
structure Judgeable (allowed : Double) (cut : Bool) (readings : List Json) : Prop where
  complete : cut = false
  known : ∀ reading ∈ readings,
    ∃ kb, knownMemory reading = some kb ∧ overflows (kb / 2 ^ 20) = false
  number : 60 ≤ readings.length → allowed ≠ .nonfinite .nan
  rounding : 60 ≤ readings.length →
    (FallsBelow roundedDecline allowed readings ↔ FallsBelow decline allowed readings)

/-! ## The verdict on known readings -/

section Known

variable {allowed : Double} {rowsDone : Int}

/-- The double that a reading is in GiB. -/
def asGib (kb : Int) : Double := .finite (toDouble (kb / 2 ^ 20))

theorem fits_of_gib {kb : Int} (h : overflows (kb / 2 ^ 20) = false) : Py.fits kb = true := by
  have hlt : |(kb : ℚ)| < 2 ^ 1044 := by
    have habs : ¬ (2 ^ 1024 - 2 ^ 970 : ℚ) ≤ |(kb : ℚ) / 2 ^ 20| := of_decide_eq_false h
    have hunit : (0 : ℚ) < 2 ^ 970 := by positivity
    have hpow : (2 : ℚ) ^ 1044 = 2 ^ 1024 * 2 ^ 20 := by rw [← pow_add]
    rw [abs_div, abs_of_pos (show (0 : ℚ) < 2 ^ 20 by positivity), not_le,
      div_lt_iff₀ (by positivity)] at habs
    rw [hpow]
    refine habs.trans ?_
    exact mul_lt_mul_of_pos_right (sub_lt_self _ hunit) (by positivity)
  have hcast : ((kb.natAbs : Nat) : ℚ) < ((2 ^ 1044 : Nat) : ℚ) := by
    rw [Nat.cast_natAbs, Int.cast_abs, Nat.cast_pow, Nat.cast_ofNat]
    exact hlt
  have hnat : kb.natAbs < 2 ^ 1044 := Nat.cast_lt.mp hcast
  unfold Py.fits
  rw [decide_eq_true_iff]
  have hexponents : 1044 ≤ 4300 := by decide
  generalize 1044 = a, 4300 = b at hnat hexponents ⊢
  exact hnat.trans_le (Py.two_pow_sub_le 0 hexponents)

theorem intGib_ok {kb : Int} {x : Double} :
    intGib kb = .ok x ↔ overflows (kb / 2 ^ 20) = false ∧ x = asGib kb := by
  unfold intGib asGib
  cases h : overflows (kb / 2 ^ 20) with
  | false =>
    rw [fits_of_gib h]
    simp [eq_comm]
  | true =>
    cases hfits : Py.fits kb <;> simp

/-- The least sample is one of them, and none is below it. -/
theorem least_asGib (first : Int) (rest : List Int) :
    ∃ kb ∈ first :: rest, least (asGib first) (rest.map asGib) = asGib kb ∧
      ∀ other ∈ first :: rest, toDouble (kb / 2 ^ 20) ≤ toDouble (other / 2 ^ 20) := by
  unfold least
  induction rest generalizing first with
  | nil => exact ⟨first, by simp, rfl, by simp⟩
  | cons next rest ih =>
    rw [List.map_cons, List.foldl_cons]
    by_cases hless : toDouble (next / 2 ^ 20) < toDouble (first / 2 ^ 20)
    · rw [if_pos (show less (asGib next) (asGib first) = true from decide_eq_true hless)]
      obtain ⟨kb, hmem, hleast, hle⟩ := ih next
      refine ⟨kb, List.mem_cons_of_mem _ hmem, hleast, ?_⟩
      intro other hother
      cases List.mem_cons.mp hother with
      | inl heq => exact heq ▸ (hle next (by simp)).trans hless.le
      | inr hrest => exact hle other hrest
    · rw [if_neg (show ¬ less (asGib next) (asGib first) = true by simpa [less, asGib] using hless)]
      obtain ⟨kb, hmem, hleast, hle⟩ := ih first
      refine ⟨kb, ?_, hleast, ?_⟩
      · cases List.mem_cons.mp hmem with
        | inl heq => simp [heq]
        | inr hrest => simp [hrest]
      · intro other hother
        cases List.mem_cons.mp hother with
        | inl heq => exact hle other (by simp [heq])
        | inr hrest =>
          cases List.mem_cons.mp hrest with
          | inl heq => exact heq ▸ (hle first (by simp)).trans (not_lt.mp hless)
          | inr hlater => exact hle other (by simp [hlater])

/-- The decline of two readings that are doubles in GiB is a double as well. -/
theorem minus_asGib {first kb : Int} (hfirst : overflows (first / 2 ^ 20) = false)
    (hpos : 0 ≤ first) (hkb : 0 ≤ kb)
    (hle : toDouble (kb / 2 ^ 20) ≤ toDouble (first / 2 ^ 20)) :
    minus (asGib first) (asGib kb) = .finite (roundedDecline first kb) := by
  have hfirst' : (0 : ℚ) ≤ first / 2 ^ 20 := by positivity
  have hkb' : (0 : ℚ) ≤ kb / 2 ^ 20 := by positivity
  have hlow := Num.toDouble_nonneg hkb'
  have hhigh := Num.toDouble_le_largest hfirst' hfirst
  have hno := Num.not_overflows_of_le (sub_nonneg.mpr hle) (by linarith)
  show rounded _ = _
  unfold rounded
  rw [hno]
  rfl

theorem atMost_finite {q : ℚ} {allowed : Double} :
    atMost (.finite q) allowed = true ↔ allowed ≠ .nonfinite .nan ∧ ¬ Exceeds allowed q := by
  cases allowed with
  | finite a => simp [atMost, less, Exceeds]
  | nonfinite x => cases x <;> simp [atMost, less, Exceeds]

theorem Exceeds.mono {allowed : Double} {x y : ℚ} (h : Exceeds allowed x) (hxy : x ≤ y) :
    Exceeds allowed y := by
  cases allowed with
  | finite a => exact lt_of_lt_of_le h hxy
  | nonfinite x =>
    cases x with
    | nan => exact h
    | inf => exact h
    | negInf => exact h

/-- Samples enough: the verdict passes just where no rounded decline exceeds the allowed one. -/
theorem judge_asGib (allowed : Double) (rowsDone : Int) {kbs rest : List Int} {first : Int}
    (hsamples : 60 ≤ kbs.length)
    (hdrop : kbs.drop (warmup kbs.length) = first :: rest)
    (hkbs : ∀ kb ∈ kbs, 0 ≤ kb ∧ overflows (kb / 2 ^ 20) = false) :
    ∃ verdict, judge allowed rowsDone (kbs.map asGib) = .ok verdict ∧
      (verdict.isPass = true ↔ allowed ≠ .nonfinite .nan ∧
        ¬ ∃ kb ∈ first :: rest, Exceeds allowed (roundedDecline first kb)) := by
  have hmem : ∀ kb ∈ first :: rest, kb ∈ kbs := fun kb hkb => List.mem_of_mem_drop (hdrop ▸ hkb)
  obtain ⟨kb, hkb, hleast, hle⟩ := least_asGib first rest
  have hminus := minus_asGib (hkbs first (hmem first (by simp))).2
    (hkbs first (hmem first (by simp))).1 (hkbs kb (hmem kb hkb)).1 (hle first (by simp))
  unfold judge
  rw [List.length_map, if_neg (by omega), ← List.map_drop, hdrop, List.map_cons]
  simp only [hleast, hminus]
  refine ⟨_, rfl, ?_⟩
  show atMost (.finite (roundedDecline first kb)) allowed = true ↔ _
  rw [atMost_finite]
  refine and_congr_right fun _ => not_congr ?_
  constructor
  · intro hexceeds
    exact ⟨kb, hkb, hexceeds⟩
  · intro hsome
    obtain ⟨other, hother, hexceeds⟩ := hsome
    refine hexceeds.mono (Num.toDouble_mono ?_)
    have hother' := hle other hother
    linarith

end Known

end Guard
end FlashNext
