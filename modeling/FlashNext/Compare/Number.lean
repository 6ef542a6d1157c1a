import FlashNext.Effect.Check
import FlashNext.Py.Text
import Mathlib.Algebra.Order.Field.Rat
import Mathlib.Algebra.Order.Floor.Defs
import Mathlib.Data.List.GetD
import Mathlib.Data.List.Sort
import Mathlib.Data.Rat.Floor
import Mathlib.Tactic.Linarith

/-!
# Refusals and numbers of the reducer

The reducer's arithmetic is exact: a float is the rational it holds.  A `Fault` is what stops a
function: a `Reject`, which some callers catch, or any other exception, which none of them does.
-/

namespace FlashNext
namespace Compare

open Py (Str Value)

abbrev Fields := List (Str × Value)

/-- What a message is put together from. -/
inductive Piece where
  | text (s : String)
  | value (v : Value)
  | repr (v : Value)
  | number (q : ℚ)
  | keys (ks : List String)
  | repeats (ns : List Int)

inductive Fault where
  | reject (message : List Piece)
  | raised (exception : String)

abbrev Check := Except Fault

/-- The piece can be put into the message: an integer is refused beyond 4300 digits. -/
def Piece.prints : Piece → Bool
  | .value v => v.prints
  | .repr v => v.prints
  | .repeats ns => ns.all Py.fits
  | _ => true

@[simp] theorem Piece.prints_text (s : String) : (Piece.text s).prints = true := rfl

@[simp] theorem Piece.prints_value (v : Value) : (Piece.value v).prints = v.prints := rfl

@[simp] theorem Piece.prints_repr (v : Value) : (Piece.repr v).prints = v.prints := rfl

@[simp] theorem Piece.prints_number (q : ℚ) : (Piece.number q).prints = true := rfl

@[simp] theorem Piece.prints_keys (ks : List String) : (Piece.keys ks).prints = true := rfl

@[simp] theorem Piece.prints_repeats (ns : List Int) :
    (Piece.repeats ns).prints = ns.all Py.fits := rfl

/-- `raise Reject(message)`: the message is put together first. -/
def refusal (message : List Piece) : Fault :=
  if message.all Piece.prints then .reject message else .raised "ValueError"

def rejectIf (bad : Bool) (message : List Piece) : Check Unit := Effect.reject bad (refusal message)

def orReject {α : Type} (x : Option α) (message : List Piece) : Check α :=
  Effect.orRaise x (refusal message)

@[simp] theorem rejectIf_ok {bad : Bool} {message : List Piece} {u : Unit} :
    rejectIf bad message = .ok u ↔ bad = false :=
  Effect.reject_ok

@[simp] theorem orReject_ok {α : Type} {x : Option α} {message : List Piece} {a : α} :
    orReject x message = .ok a ↔ x = some a :=
  Effect.orRaise_ok

/-- `try: … except Reject`. -/
def caught {α : Type} : Check α → Check (Except (List Piece) α)
  | .ok a => .ok (.ok a)
  | .error (.reject message) => .ok (.error message)
  | .error (.raised e) => .error (.raised e)

theorem caught_ok {α : Type} {x : Check α} {a : α} : caught x = .ok (.ok a) ↔ x = .ok a := by
  cases x with
  | ok b => simp [caught]
  | error e => cases e <;> simp [caught]

/-- The attributes of a row: only a dictionary has `get`. -/
def dictOf (v : Value) : Check Fields := Effect.orRaise v.asDict? (.raised "AttributeError")

/-- `row[key]`. -/
def item (fields : Fields) (key : String) : Check Value :=
  Effect.orRaise (Value.lookup fields key) (.raised "KeyError")

@[simp] theorem dictOf_ok {v : Value} {fields : Fields} : dictOf v = .ok fields ↔ v = .dict fields := by
  rw [dictOf, Effect.orRaise_ok, Value.asDict?_eq_some]

@[simp] theorem item_ok {fields : Fields} {key : String} {v : Value} :
    item fields key = .ok v ↔ Value.lookup fields key = some v :=
  Effect.orRaise_ok

theorem field_of_lookup {fields : Fields} {key : String} {v : Value}
    (h : Value.lookup fields key = some v) : Value.field fields key = v := by
  rw [Value.field, h]
  rfl

/-- A lookup key is a hash: lists and dictionaries have none. -/
def hashable : Value → Bool
  | .list _ => false
  | .dict _ => false
  | _ => true

/-! ## Numbers -/

/-- A float that was parsed. -/
inductive Double where
  | finite (q : ℚ)
  | nonfinite (x : Py.NonFinite)

/-- What the reducer takes from its surroundings: `float` and `str` of a value, its `json.dumps`
with sorted keys, the SHA-256 of its canonical text, and the fields of the runtime profile made
of it. -/
structure Env where
  parseFloat : Str → Option Double
  text : Value → Str
  dumps : Value → Str
  digest : Value → Check Str
  profileFromDict : Value → Check Fields

/-- The value of a finite number; a boolean is none. -/
def number? : Value → Option ℚ
  | .int n => some n
  | .float q => some q
  | _ => none

def requireFinitePositive (x : Value) (what : List Piece) : Check ℚ :=
  match x with
  | .int n =>
    if !Py.floats n then .error (.raised "OverflowError")
    else if n ≤ 0 then
      .error (refusal (what ++ [.text " must be finite and > 0, got ", .repr (.float n)]))
    else .ok n
  | .float q =>
    if q ≤ 0 then .error (refusal (what ++ [.text " must be finite and > 0, got ", .repr x]))
    else .ok q
  | .nonfinite _ => .error (refusal (what ++ [.text " must be finite and > 0, got ", .repr x]))
  | _ => .error (refusal (what ++ [.text " is not a number: ", .repr x]))

/-- `float(value)` of a number that is not too large. -/
def floatable : Value → Bool
  | .int n => Py.floats n
  | _ => true

theorem requireFinitePositive_ok {x : Value} {what : List Piece} {q : ℚ} :
    requireFinitePositive x what = .ok q ↔
      (number? x = some q ∧ 0 < q) ∧ floatable x = true := by
  cases x with
  | int n =>
    cases hfloats : Py.floats n with
    | false => simp [requireFinitePositive, floatable, hfloats]
    | true =>
      have hpos : (0 : ℚ) < n ↔ ¬ n ≤ 0 := by
        rw [not_le]
        exact_mod_cast Iff.rfl
      by_cases hn : n ≤ 0
      · have hnot : ¬ (0 : ℚ) < n := fun h => hpos.mp h hn
        simp only [requireFinitePositive, floatable, hfloats, number?, hn, if_true, Bool.not_true,
          Bool.false_eq_true, if_false, reduceCtorEq, and_true, false_iff, Option.some.injEq]
        rintro ⟨rfl, h⟩
        exact hnot h
      · simp only [requireFinitePositive, floatable, hfloats, number?, hn, Bool.not_true,
          Bool.false_eq_true, if_false, and_true, Except.ok.injEq, Option.some.injEq]
        constructor
        · rintro rfl
          exact ⟨rfl, hpos.mpr hn⟩
        · rintro ⟨rfl, -⟩
          rfl
  | float p =>
    by_cases hp : p ≤ 0
    · simp only [requireFinitePositive, floatable, number?, hp, if_true, reduceCtorEq, and_true,
        false_iff, Option.some.injEq]
      rintro ⟨rfl, h⟩
      exact not_le.mpr h hp
    · simp only [requireFinitePositive, floatable, number?, hp, if_false, and_true, Except.ok.injEq,
        Option.some.injEq]
      constructor
      · rintro rfl
        exact ⟨rfl, not_le.mp hp⟩
      · rintro ⟨rfl, -⟩
        rfl
  | _ => simp [requireFinitePositive, number?]

/-- `float(value)`. -/
def floatOf (env : Env) : Value → Check Double
  | .bool b => .ok (.finite (if b then 1 else 0))
  | .int n => if Py.floats n then .ok (.finite n) else .error (.raised "OverflowError")
  | .float q => .ok (.finite q)
  | .nonfinite x => .ok (.nonfinite x)
  | .str s => Effect.orRaise (env.parseFloat s) (.raised "ValueError")
  | _ => .error (.raised "TypeError")

/-- `abs(stated - rate) > max(1e-6, tolerance * rate)`: with a `NaN` no comparison holds. -/
def disagrees (tolerance rate : ℚ) : Double → Bool
  | .finite stated => decide (max (1 / 1000000) (tolerance * rate) < |stated - rate|)
  | .nonfinite .nan => false
  | .nonfinite _ => true

/-! ## Medians and percentiles -/

def sorted (xs : List ℚ) : List ℚ := xs.insertionSort (· ≤ ·)

/-- `median`, of a sample that is not empty. -/
def medianOf (xs : List ℚ) : ℚ :=
  let s := sorted xs
  let n := s.length
  if n % 2 = 1 then s.getD (n / 2) 0 else (s.getD (n / 2 - 1) 0 + s.getD (n / 2) 0) / 2

def median (xs : List ℚ) : Check ℚ :=
  if xs.isEmpty then .error (.raised "IndexError") else .ok (medianOf xs)

/-- `round`: halves go to the even neighbour. -/
def roundHalfEven (q : ℚ) : Int :=
  let below := ⌊q⌋
  let rest := q - below
  if rest < 1 / 2 then below
  else if 1 / 2 < rest then below + 1
  else if below % 2 = 0 then below else below + 1

def percentileIndex (n : Nat) (q : ℚ) : Nat :=
  min (n - 1) (max 0 (roundHalfEven (q * ((n - 1 : Nat) : ℚ)))).toNat

/-- `percentile`, of a sample that is not empty. -/
def percentileOf (xs : List ℚ) (q : ℚ) : ℚ :=
  (sorted xs).getD (percentileIndex xs.length q) 0

def percentile (xs : List ℚ) (q : ℚ) : Check ℚ :=
  if xs.isEmpty then .error (.raised "IndexError") else .ok (percentileOf xs q)

theorem median_ok {xs : List ℚ} {m : ℚ} (h : median xs = .ok m) : m = medianOf xs := by
  unfold median at h
  split at h
  · cases h
  · exact (Except.ok.inj h).symm

theorem percentile_ok {xs : List ℚ} {q p : ℚ} (h : percentile xs q = .ok p) :
    p = percentileOf xs q := by
  unfold percentile at h
  split at h
  · cases h
  · exact (Except.ok.inj h).symm

theorem sorted_getD_pos {xs : List ℚ} (h : ∀ x ∈ xs, 0 < x) {i : Nat} (hi : i < xs.length) :
    0 < (sorted xs).getD i 0 := by
  have hlen : i < (sorted xs).length := by
    rw [sorted, List.length_insertionSort]
    exact hi
  rw [List.getD_eq_getElem _ _ hlen]
  have hmem : (sorted xs)[i] ∈ sorted xs := List.getElem_mem hlen
  exact h _ ((List.mem_insertionSort _).mp hmem)

theorem medianOf_pos {xs : List ℚ} (hne : xs ≠ []) (h : ∀ x ∈ xs, 0 < x) : 0 < medianOf xs := by
  have hpos : 0 < xs.length := List.length_pos_iff.mpr hne
  have hlen : (sorted xs).length = xs.length := List.length_insertionSort _ _
  unfold medianOf
  simp only [hlen]
  split
  · exact sorted_getD_pos h (by omega)
  · have hlow := sorted_getD_pos h (i := xs.length / 2 - 1) (by omega)
    have hhigh := sorted_getD_pos h (i := xs.length / 2) (by omega)
    linarith

theorem percentileOf_pos {xs : List ℚ} (hne : xs ≠ []) (h : ∀ x ∈ xs, 0 < x) (q : ℚ) :
    0 < percentileOf xs q := by
  have hpos : 0 < xs.length := List.length_pos_iff.mpr hne
  refine sorted_getD_pos h ?_
  have hle : percentileIndex xs.length q ≤ xs.length - 1 := Nat.min_le_left _ _
  omega

end Compare
end FlashNext
