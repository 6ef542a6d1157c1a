import Mathlib.Algebra.GroupWithZero.Nat
import Mathlib.Data.List.Basic
import Mathlib.Data.List.Lex
import Mathlib.Data.Rat.Defs

/-!
# Values of the lenient readers

What `json.loads` delivers when no hook is given.  Unlike the values of the strict readers
(`FlashNext.Json`), a float may be `NaN` or infinite and a string may hold lone surrogates, so
a string is the list of its code points.  A finite float is its exact value.
-/

namespace FlashNext
namespace Py

/-- A string, as its code points. -/
abbrev Str := List Nat

instance : LawfulBEq Str := inferInstanceAs (LawfulBEq (List Nat))

/-- The string with this text. -/
def str (s : String) : Str := s.toList.map Char.toNat

inductive NonFinite where
  | nan
  | inf
  | negInf
  deriving DecidableEq

/-- A JSON value as an interpreter holds it. -/
inductive Value where
  | none
  | bool (b : Bool)
  | int (n : Int)
  | float (q : ℚ)
  | nonfinite (x : NonFinite)
  | str (s : Str)
  | list (items : List Value)
  | dict (fields : List (Str × Value))

namespace Value

/-! ## Equality of the data -/

mutual
def same : Value → Value → Bool
  | .none, .none => true
  | .bool a, .bool b => a == b
  | .int a, .int b => a == b
  | .float a, .float b => a == b
  | .nonfinite a, .nonfinite b => decide (a = b)
  | .str a, .str b => a == b
  | .list a, .list b => sameItems a b
  | .dict a, .dict b => sameFields a b
  | _, _ => false

def sameItems : List Value → List Value → Bool
  | [], [] => true
  | x :: xs, y :: ys => same x y && sameItems xs ys
  | _, _ => false

def sameFields : List (Str × Value) → List (Str × Value) → Bool
  | [], [] => true
  | (k, v) :: fs, (l, w) :: gs => k == l && same v w && sameFields fs gs
  | _, _ => false
end

mutual
theorem same_iff : ∀ a b : Value, same a b = true ↔ a = b
  | .none, b => by cases b <;> simp [same]
  | .bool a, b => by cases b <;> simp [same]
  | .int a, b => by cases b <;> simp [same]
  | .float a, b => by cases b <;> simp [same]
  | .nonfinite a, b => by cases b <;> simp [same]
  | .str a, b => by cases b <;> simp [same]
  | .list a, b => by
    cases b with
    | list b => rw [same, Value.list.injEq, sameItems_iff a b]
    | _ => simp [same]
  | .dict a, b => by
    cases b with
    | dict b => rw [same, Value.dict.injEq, sameFields_iff a b]
    | _ => simp [same]

theorem sameItems_iff : ∀ a b : List Value, sameItems a b = true ↔ a = b
  | [], b => by cases b <;> simp [sameItems]
  | x :: xs, b => by
    cases b with
    | nil => simp [sameItems]
    | cons y ys =>
      rw [sameItems, Bool.and_eq_true, same_iff x y, sameItems_iff xs ys, List.cons.injEq]

theorem sameFields_iff : ∀ a b : List (Str × Value), sameFields a b = true ↔ a = b
  | [], b => by cases b <;> simp [sameFields]
  | (k, v) :: fs, b => by
    cases b with
    | nil => simp [sameFields]
    | cons g gs =>
      obtain ⟨l, w⟩ := g
      rw [sameFields, Bool.and_eq_true, Bool.and_eq_true, beq_iff_eq, same_iff v w,
        sameFields_iff fs gs, List.cons.injEq, Prod.mk.injEq]
end

instance : DecidableEq Value := fun a b => decidable_of_iff (same a b = true) (same_iff a b)

/-! ## Reading a value -/

/-- `isinstance(value, dict)`. -/
def asDict? : Value → Option (List (Str × Value))
  | .dict fs => some fs
  | _ => Option.none

def asList? : Value → Option (List Value)
  | .list xs => some xs
  | _ => Option.none

def asStr? : Value → Option Str
  | .str s => some s
  | _ => Option.none

/-- `type(value) is int`: no boolean. -/
def asInt? : Value → Option Int
  | .int n => some n
  | _ => Option.none

theorem asDict?_eq_some {v : Value} {fs : List (Str × Value)} :
    v.asDict? = some fs ↔ v = .dict fs := by
  cases v with
  | dict gs => simp [asDict?]
  | _ => simp [asDict?]

theorem asList?_eq_some {v : Value} {xs : List Value} : v.asList? = some xs ↔ v = .list xs := by
  cases v with
  | list ys => simp [asList?]
  | _ => simp [asList?]

theorem asStr?_eq_some {v : Value} {s : Str} : v.asStr? = some s ↔ v = .str s := by
  cases v with
  | str t => simp [asStr?]
  | _ => simp [asStr?]

theorem asInt?_eq_some {v : Value} {n : Int} : v.asInt? = some n ↔ v = .int n := by
  cases v with
  | int m => simp [asInt?]
  | _ => simp [asInt?]

/-- What `if value` asks. -/
def truthy : Value → Bool
  | .none => false
  | .bool b => b
  | .int n => n ≠ 0
  | .float q => q ≠ 0
  | .nonfinite _ => true
  | .str s => !s.isEmpty
  | .list xs => !xs.isEmpty
  | .dict fs => !fs.isEmpty

/-- `value is None`. -/
def isNone : Value → Bool
  | .none => true
  | _ => false

theorem isNone_iff {v : Value} : v.isNone = true ↔ v = .none := by
  cases v <;> simp [isNone]

/-- `value is True`. -/
def isTrue : Value → Bool
  | .bool b => b
  | _ => false

theorem isTrue_iff {v : Value} : v.isTrue = true ↔ v = .bool true := by
  cases v <;> simp [isTrue]

/-- `fields[key]`, for the fields of a dictionary. -/
def lookup (fs : List (Str × Value)) (key : String) : Option Value :=
  (fs.find? fun f => f.1 == Py.str key).map (·.2)

/-- `fields.get(key)`. -/
def field (fs : List (Str × Value)) (key : String) : Value := (lookup fs key).getD .none

/-- `value or default`. -/
def orElse (v default : Value) : Value := if v.truthy then v else default

/-- `value[0]`. -/
def firstItem : Value → Except Str Value
  | .list (item :: _) => .ok item
  | .list [] => .error (Py.str "list index out of range")
  | .str (c :: _) => .ok (.str [c])
  | .str [] => .error (Py.str "string index out of range")
  | .dict _ => .error (Py.str "0")
  | .none => .error (Py.str "'NoneType' object is not subscriptable")
  | .bool _ => .error (Py.str "'bool' object is not subscriptable")
  | .int _ => .error (Py.str "'int' object is not subscriptable")
  | .float _ => .error (Py.str "'float' object is not subscriptable")
  | .nonfinite _ => .error (Py.str "'float' object is not subscriptable")

mutual
/-- No dictionary in the value has a key twice. -/
def distinct : Value → Bool
  | .list xs => distinctItems xs
  | .dict fs => decide (fs.map (·.1)).Nodup && distinctFields fs
  | _ => true

def distinctItems : List Value → Bool
  | [] => true
  | x :: xs => distinct x && distinctItems xs

def distinctFields : List (Str × Value) → Bool
  | [] => true
  | (_, x) :: fs => distinct x && distinctFields fs
end

/-! ## `==` -/

/-- Insert a field in front of the first field whose key is not smaller. -/
def insertField (f : Str × Value) : List (Str × Value) → List (Str × Value)
  | [] => [f]
  | g :: gs => if f.1 ≤ g.1 then f :: g :: gs else g :: insertField f gs

mutual
/-- One value for all that are equal: a number is its value, whatever its type, and the
fields of a dictionary are sorted. -/
def canon : Value → Value
  | .bool b => .float (if b then 1 else 0)
  | .int n => .float n
  | .list xs => .list (canonItems xs)
  | .dict fs => .dict (canonFields fs)
  | v => v

def canonItems : List Value → List Value
  | [] => []
  | x :: xs => canon x :: canonItems xs

def canonFields : List (Str × Value) → List (Str × Value)
  | [] => []
  | (k, v) :: fs => insertField (k, canon v) (canonFields fs)
end

theorem find?_insertField (f : Str × Value) (fs : List (Str × Value)) (key : Str) :
    (insertField f fs).find? (·.1 == key) = (f :: fs).find? (·.1 == key) := by
  induction fs with
  | nil => rfl
  | cons g gs ih =>
    rw [insertField]
    split
    · rfl
    · next hle =>
      have hne : g.1 ≠ f.1 := by
        intro heq
        exact hle (heq ▸ le_refl g.1)
      rw [List.find?_cons, ih, List.find?_cons, List.find?_cons, List.find?_cons]
      cases hf : f.1 == key with
      | false => rfl
      | true =>
        have hg : (g.1 == key) = false := by
          rw [beq_eq_false_iff_ne, ← eq_of_beq hf]
          exact hne
        rw [hg]

/-- Sorting and rewriting the fields leaves each where it was found. -/
theorem lookup_canonFields (fs : List (Str × Value)) (key : String) :
    lookup (canonFields fs) key = (lookup fs key).map canon := by
  unfold lookup
  induction fs with
  | nil => rfl
  | cons f fs ih =>
    obtain ⟨k, v⟩ := f
    rw [canonFields, find?_insertField, List.find?_cons, List.find?_cons]
    cases k == Py.str key with
    | true => rfl
    | false => exact ih

theorem field_canonFields (fs : List (Str × Value)) (key : String) :
    field (canonFields fs) key = canon (field fs key) := by
  rw [field, lookup_canonFields, field]
  cases lookup fs key <;> rfl

/-- `a == b`.  A `NaN` differs from itself; inside a container it is the one object that
`json` has for it and is found equal by its identity. -/
def eqv (a b : Value) : Bool := decide (canon a = canon b) && a != .nonfinite .nan

theorem eqv_iff {a b : Value} :
    eqv a b = true ↔ canon a = canon b ∧ a ≠ .nonfinite .nan := by
  rw [eqv, Bool.and_eq_true, decide_eq_true_eq, bne_iff_ne]

end Value

end Py
end FlashNext
