import Mathlib.Algebra.Order.Ring.Int
import Mathlib.Data.List.Perm.Basic
import Mathlib.Data.List.Nodup

/-!
# JSON values

A value as a strict reader delivers it: numbers written with a fraction or an exponent are
floats, all others integers, and an object is its list of fields in the order they were
read.  A float is kept as the decimal it was written as, so no rounding is modelled.
-/

namespace FlashNext

/-- The number `mant * 10 ^ exp`. -/
structure Decimal where
  mant : Int
  exp : Int
  deriving DecidableEq, Repr

namespace Decimal

/-- One spelling a number: no trailing zero in the mantissa. -/
def Normal (d : Decimal) : Prop := (d.mant = 0 ∧ d.exp = 0) ∨ d.mant % 10 ≠ 0

/-- Strip trailing zeros, at most `fuel` of them. -/
def strip : Nat → Int → Int → Decimal
  | 0, m, e => ⟨m, e⟩
  | fuel + 1, m, e => if m % 10 = 0 then strip fuel (m / 10) (e + 1) else ⟨m, e⟩

def normalize (m e : Int) : Decimal := if m = 0 then ⟨0, 0⟩ else strip m.natAbs m e

/-- The double nearest to the number is an infinity. -/
def overflows (d : Decimal) : Bool :=
  if 0 ≤ d.exp then decide (2 ^ 1024 - 2 ^ 970 ≤ d.mant.natAbs * 10 ^ d.exp.toNat)
  else decide ((2 ^ 1024 - 2 ^ 970) * 10 ^ (-d.exp).toNat ≤ d.mant.natAbs)

end Decimal

inductive Json where
  | null
  | bool (b : Bool)
  | int (n : Int)
  | float (d : Decimal)
  | str (s : String)
  | arr (items : List Json)
  | obj (fields : List (String × Json))

namespace Json

/-- The fields of an object. -/
def asObj? : Json → Option (List (String × Json))
  | .obj fs => some fs
  | _ => none

def asArr? : Json → Option (List Json)
  | .arr xs => some xs
  | _ => none

def asStr? : Json → Option String
  | .str s => some s
  | _ => none

/-- An integer that is not a boolean. -/
def asInt? : Json → Option Int
  | .int n => some n
  | _ => none

theorem asInt?_eq_some {j : Json} {n : Int} : j.asInt? = some n ↔ j = .int n := by
  cases j with
  | int m => simp [asInt?]
  | _ => simp [asInt?]

theorem asStr?_eq_some {j : Json} {s : String} : j.asStr? = some s ↔ j = .str s := by
  cases j with
  | str t => simp [asStr?]
  | _ => simp [asStr?]

theorem asObj?_eq_some {j : Json} {fs : List (String × Json)} :
    j.asObj? = some fs ↔ j = .obj fs := by
  cases j with
  | obj gs => simp [asObj?]
  | _ => simp [asObj?]

theorem asArr?_eq_some {j : Json} {xs : List Json} : j.asArr? = some xs ↔ j = .arr xs := by
  cases j with
  | arr ys => simp [asArr?]
  | _ => simp [asArr?]

/-- `fields[key]`, for a field list. -/
def lookup (fs : List (String × Json)) (key : String) : Option Json :=
  (fs.find? fun f => f.1 == key).map (·.2)

/-- `value.get(key)`, `null` when the key is absent. -/
def field (fs : List (String × Json)) (key : String) : Json := (lookup fs key).getD .null

@[simp] theorem lookup_nil (key : String) : lookup [] key = none := rfl

@[simp] theorem lookup_cons (k key : String) (v : Json) (fs : List (String × Json)) :
    lookup ((k, v) :: fs) key = if k = key then some v else lookup fs key := by
  by_cases h : k = key
  · simp [lookup, h]
  · simp [lookup, h]

/-- With distinct keys a lookup is membership. -/
theorem lookup_eq_some_iff {fs : List (String × Json)} (hn : (fs.map (·.1)).Nodup)
    {key : String} {v : Json} : lookup fs key = some v ↔ (key, v) ∈ fs := by
  induction fs with
  | nil => simp
  | cons f fs ih =>
    obtain ⟨k, w⟩ := f
    simp only [List.map_cons, List.nodup_cons] at hn
    rw [lookup_cons, List.mem_cons, Prod.mk.injEq]
    by_cases h : k = key
    · subst h
      have hnot : (k, v) ∉ fs := fun hm => hn.1 (List.mem_map.mpr ⟨_, hm, rfl⟩)
      simp [hnot, eq_comm]
    · simp [h, ih hn.2, Ne.symm h]

theorem lookup_eq_none_iff {fs : List (String × Json)} {key : String} :
    lookup fs key = none ↔ key ∉ fs.map (·.1) := by
  induction fs with
  | nil => simp
  | cons f fs ih =>
    obtain ⟨k, w⟩ := f
    rw [lookup_cons, List.map_cons, List.mem_cons]
    by_cases h : k = key
    · simp [h]
    · simp [h, ih, Ne.symm h]

/-- Reordering the fields of an object with distinct keys changes no lookup. -/
theorem lookup_perm {fs gs : List (String × Json)} (hp : fs.Perm gs)
    (hn : (fs.map (·.1)).Nodup) (key : String) : lookup fs key = lookup gs key := by
  have hn' : (gs.map (·.1)).Nodup := (hp.map (·.1)).nodup_iff.mp hn
  cases h : lookup fs key with
  | none =>
    rw [lookup_eq_none_iff] at h
    exact (lookup_eq_none_iff.mpr fun hm => h ((hp.map (·.1)).mem_iff.mpr hm)).symm
  | some v =>
    rw [lookup_eq_some_iff hn] at h
    exact ((lookup_eq_some_iff hn').mpr (hp.mem_iff.mp h)).symm

/-! ## Sorted keys -/

/-- Insert a field in front of the first field with a larger key. -/
def insertField (f : String × Json) : List (String × Json) → List (String × Json)
  | [] => [f]
  | g :: gs => if f.1 < g.1 then f :: g :: gs else g :: insertField f gs

mutual
/-- `sort_keys=True`: every object's fields in key order. -/
def sortKeys : Json → Json
  | .arr xs => .arr (sortKeysItems xs)
  | .obj fs => .obj (sortKeysFields fs)
  | j => j

def sortKeysItems : List Json → List Json
  | [] => []
  | x :: xs => sortKeys x :: sortKeysItems xs

def sortKeysFields : List (String × Json) → List (String × Json)
  | [] => []
  | (k, v) :: fs => insertField (k, sortKeys v) (sortKeysFields fs)
end

theorem insertField_perm (f : String × Json) (gs : List (String × Json)) :
    (insertField f gs).Perm (f :: gs) := by
  induction gs with
  | nil => exact List.Perm.refl _
  | cons g gs ih =>
    unfold insertField
    split
    · exact List.Perm.refl _
    · exact (ih.cons g).trans (List.Perm.swap f g gs)

/-- Sorting keeps the fields, each with its value sorted. -/
theorem sortKeysFields_perm (fs : List (String × Json)) :
    (sortKeysFields fs).Perm (fs.map fun f => (f.1, sortKeys f.2)) := by
  induction fs with
  | nil => exact List.Perm.refl _
  | cons f fs ih =>
    obtain ⟨k, v⟩ := f
    rw [sortKeysFields, List.map_cons]
    exact (insertField_perm _ _).trans (ih.cons _)

theorem lookup_map (fs : List (String × Json)) (g : Json → Json) (key : String) :
    lookup (fs.map fun f => (f.1, g f.2)) key = (lookup fs key).map g := by
  induction fs with
  | nil => rfl
  | cons f fs ih =>
    obtain ⟨k, v⟩ := f
    rw [List.map_cons, lookup_cons, lookup_cons, ih]
    by_cases h : k = key
    · simp [h]
    · simp [h]

theorem map_key_sortKeysFields (fs : List (String × Json)) :
    ((sortKeysFields fs).map (·.1)).Perm (fs.map (·.1)) := by
  have h := (sortKeysFields_perm fs).map (·.1)
  rwa [List.map_map] at h

/-- Looking a key up after sorting is looking it up before, and sorting what it holds. -/
theorem lookup_sortKeysFields {fs : List (String × Json)} (hn : (fs.map (·.1)).Nodup)
    (key : String) : lookup (sortKeysFields fs) key = (lookup fs key).map sortKeys := by
  have hn' : ((sortKeysFields fs).map (·.1)).Nodup :=
    (map_key_sortKeysFields fs).nodup_iff.mpr hn
  rw [lookup_perm (sortKeysFields_perm fs) hn' key, lookup_map]

@[simp] theorem sortKeys_null : sortKeys .null = .null := by rw [sortKeys] <;> simp
@[simp] theorem sortKeys_bool (b : Bool) : sortKeys (.bool b) = .bool b := by rw [sortKeys] <;> simp
@[simp] theorem sortKeys_int (n : Int) : sortKeys (.int n) = .int n := by rw [sortKeys] <;> simp
@[simp] theorem sortKeys_float (d : Decimal) : sortKeys (.float d) = .float d := by
  rw [sortKeys] <;> simp
@[simp] theorem sortKeys_str (s : String) : sortKeys (.str s) = .str s := by rw [sortKeys] <;> simp
@[simp] theorem sortKeys_obj (fs : List (String × Json)) :
    sortKeys (.obj fs) = .obj (sortKeysFields fs) := by rw [sortKeys]
@[simp] theorem sortKeys_arr (xs : List Json) :
    sortKeys (.arr xs) = .arr (xs.map sortKeys) := by
  rw [sortKeys]
  congr 1
  induction xs with
  | nil => rfl
  | cons x xs ih => rw [sortKeysItems, ih, List.map_cons]

/-! ## Nesting -/

mutual
/-- How many brackets enclose the deepest value. -/
def depth : Json → Nat
  | .arr xs => depthItems xs
  | .obj fs => depthFields fs
  | _ => 0

def depthItems : List Json → Nat
  | [] => 0
  | x :: xs => max (depth x + 1) (depthItems xs)

def depthFields : List (String × Json) → Nat
  | [] => 0
  | (_, v) :: fs => max (depth v + 1) (depthFields fs)
end

/-! ## Equality -/

mutual
def decEq : (a b : Json) → Decidable (a = b)
  | .null, .null => isTrue rfl
  | .bool a, .bool b => decidable_of_iff (a = b) (by rw [Json.bool.injEq])
  | .int a, .int b => decidable_of_iff (a = b) (by rw [Json.int.injEq])
  | .float a, .float b => decidable_of_iff (a = b) (by rw [Json.float.injEq])
  | .str a, .str b => decidable_of_iff (a = b) (by rw [Json.str.injEq])
  | .arr a, .arr b =>
    match decEqItems a b with
    | isTrue h => isTrue (congrArg _ h)
    | isFalse h => isFalse fun he => h (Json.arr.inj he)
  | .obj a, .obj b =>
    match decEqFields a b with
    | isTrue h => isTrue (congrArg _ h)
    | isFalse h => isFalse fun he => h (Json.obj.inj he)
  | .null, .bool _ | .null, .int _ | .null, .float _ | .null, .str _ | .null, .arr _
  | .null, .obj _ | .bool _, .null | .bool _, .int _ | .bool _, .float _ | .bool _, .str _
  | .bool _, .arr _ | .bool _, .obj _ | .int _, .null | .int _, .bool _ | .int _, .float _
  | .int _, .str _ | .int _, .arr _ | .int _, .obj _ | .float _, .null | .float _, .bool _
  | .float _, .int _ | .float _, .str _ | .float _, .arr _ | .float _, .obj _ | .str _, .null
  | .str _, .bool _ | .str _, .int _ | .str _, .float _ | .str _, .arr _ | .str _, .obj _
  | .arr _, .null | .arr _, .bool _ | .arr _, .int _ | .arr _, .float _ | .arr _, .str _
  | .arr _, .obj _ | .obj _, .null | .obj _, .bool _ | .obj _, .int _ | .obj _, .float _
  | .obj _, .str _ | .obj _, .arr _ => isFalse fun h => nomatch h

def decEqItems : (a b : List Json) → Decidable (a = b)
  | [], [] => isTrue rfl
  | x :: xs, y :: ys =>
    match decEq x y, decEqItems xs ys with
    | isTrue h, isTrue hs => isTrue (by rw [h, hs])
    | isFalse h, _ => isFalse fun he => h (List.cons.inj he).1
    | _, isFalse hs => isFalse fun he => hs (List.cons.inj he).2
  | [], _ :: _ | _ :: _, [] => isFalse fun h => nomatch h

def decEqFields : (a b : List (String × Json)) → Decidable (a = b)
  | [], [] => isTrue rfl
  | (k, v) :: fs, (l, w) :: gs =>
    if hk : k = l then
      match decEq v w, decEqFields fs gs with
      | isTrue h, isTrue hs => isTrue (by rw [hk, h, hs])
      | isFalse h, _ => isFalse fun he => h (Prod.mk.inj (List.cons.inj he).1).2
      | _, isFalse hs => isFalse fun he => hs (List.cons.inj he).2
    else isFalse fun he => hk (Prod.mk.inj (List.cons.inj he).1).1
  | [], _ :: _ | _ :: _, [] => isFalse fun h => nomatch h
end
instance : DecidableEq Json := decEq

end Json

end FlashNext
