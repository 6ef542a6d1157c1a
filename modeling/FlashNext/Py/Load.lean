import FlashNext.Py.Text

/-!
# Reading a document

`json.loads` on a string, with the two hooks of the strict readers: a constant such as `NaN` and
a key that is twice in an object are refused.  The hook of an object is called at its end.  What
a float literal reads as comes from the interpreter.

Every recursive call is made on less text, so a budget of the text's length is never used
up before the text is.
-/

namespace FlashNext
namespace Py

/-- Why a text is not read. -/
inductive Fault where
  | malformed
  /-- An integer of more than 4300 digits. -/
  | digits
  | constant (name : Str)
  | duplicate (key : Str)
  deriving DecidableEq

def isBlank (c : Nat) : Bool := c == 32 || c == 9 || c == 10 || c == 13

def skipBlank (s : Str) : Str := s.dropWhile isBlank

/-! ## Strings -/

def hexValue (c : Nat) : Option Nat :=
  if 48 ≤ c ∧ c ≤ 57 then some (c - 48)
  else if 97 ≤ c ∧ c ≤ 102 then some (c - 87)
  else if 65 ≤ c ∧ c ≤ 70 then some (c - 55)
  else none

def hexUnit (a b c d : Nat) : Option Nat := do
  let a ← hexValue a
  let b ← hexValue b
  let c ← hexValue c
  let d ← hexValue d
  return ((a * 16 + b) * 16 + c) * 16 + d

/-- What a one-letter escape stands for. -/
def unescapePoint (c : Nat) : Option Nat :=
  if c = 34 ∨ c = 92 ∨ c = 47 then some c
  else if c = 98 then some 8
  else if c = 102 then some 12
  else if c = 110 then some 10
  else if c = 114 then some 13
  else if c = 116 then some 9
  else none

/-- A character of a literal, with the mark of one that was written with `u` and its number. -/
abbrev Point := Nat × Bool

/-- Put a character in front of what the rest of the literal reads as. -/
def consPoint (c : Point) : Except Fault (List Point × Str) → Except Fault (List Point × Str) :=
  Except.map fun p => (c :: p.1, p.2)

/-- The characters of a literal after its opening quote, and the text after it. -/
def scanPoints : Str → Except Fault (List Point × Str)
  | [] => .error .malformed
  | 34 :: r => .ok ([], r)
  | 92 :: 117 :: a :: b :: c :: d :: r =>
    match hexUnit a b c d with
    | none => .error .malformed
    | some u => consPoint (u, true) (scanPoints r)
  | 92 :: e :: r =>
    match unescapePoint e with
    | none => .error .malformed
    | some c => consPoint (c, false) (scanPoints r)
  | c :: r => if c < 32 then .error .malformed else consPoint (c, false) (scanPoints r)

/-- Two numbers in a row that are a pair of surrogates are one character. -/
def joinPoints : List Point → Str
  | (a, true) :: (b, true) :: s =>
    if 0xD800 ≤ a ∧ a < 0xDC00 ∧ 0xDC00 ≤ b ∧ b < 0xE000 then
      (0x10000 + (a - 0xD800) * 1024 + (b - 0xDC00)) :: joinPoints s
    else a :: joinPoints ((b, true) :: s)
  | (a, _) :: s => a :: joinPoints s
  | [] => []

/-- The string of a literal after its opening quote, and the text after it. -/
def scanStr (s : Str) : Except Fault (Str × Str) :=
  (scanPoints s).map fun p => (joinPoints p.1, p.2)

/-! ## Numbers -/

def isDigit (c : Nat) : Bool := 48 ≤ c && c ≤ 57

def ofDigits (ds : Str) : Nat := ds.foldl (fun n c => n * 10 + (c - 48)) 0

/-- The digits in front, and the text after them. -/
def scanDigits (s : Str) : Str × Str := (s.takeWhile isDigit, s.dropWhile isDigit)

/-- The integer digits of a number: a zero, or digits that do not start with one. -/
def scanWhole : Str → Str × Str
  | 48 :: r => ([48], r)
  | s => scanDigits s

/-- The point and the digits after it; a point without digits is not part of the number. -/
def scanFrac : Str → Str × Str
  | 46 :: r =>
    if (scanDigits r).1 = [] then ([], 46 :: r) else (46 :: (scanDigits r).1, (scanDigits r).2)
  | s => ([], s)

/-- The letter of an exponent, its sign and its digits. -/
def scanExp : Str → Str × Str
  | e :: r =>
    if e = 101 ∨ e = 69 then
      let sign := if r.head? = some 43 ∨ r.head? = some 45 then r.take 1 else []
      let rest := scanDigits (r.drop sign.length)
      if rest.1 = [] then ([], e :: r) else (e :: (sign ++ rest.1), rest.2)
    else ([], e :: r)
  | [] => ([], [])

section

variable (read : Str → Option ℚ)

/-- `float(literal)`; a literal that is too large is an infinity. -/
def floatOf (neg : Bool) (literal : Str) : Value :=
  match read literal with
  | some q => .float q
  | none => .nonfinite (if neg then .negInf else .inf)

/-- A number behind its sign. -/
def scanUnsigned (neg : Bool) (s : Str) : Except Fault (Value × Str) :=
  let whole := scanWhole s
  let frac := scanFrac whole.2
  let exp := scanExp frac.2
  if whole.1 = [] then .error .malformed
  else if frac.1 = [] ∧ exp.1 = [] then
    if 4300 < whole.1.length then .error .digits
    else .ok (.int (if neg then -(ofDigits whole.1 : Int) else ofDigits whole.1), exp.2)
  else
    .ok (floatOf read neg ((if neg then [45] else []) ++ whole.1 ++ frac.1 ++ exp.1), exp.2)

def scanNumber : Str → Except Fault (Value × Str)
  | 45 :: r => scanUnsigned read true r
  | s => scanUnsigned read false s

/-! ## Values -/

/-- The constants that `json` writes and these readers refuse. -/
def constants : List Str := [str "NaN", str "Infinity", str "-Infinity"]

/-- The first key that was seen before. -/
def repeated? (seen : List Str) : List (Str × Value) → Option Str
  | [] => none
  | (key, _) :: fields => if key ∈ seen then some key else repeated? (key :: seen) fields

/-- The hook of an object. -/
def objectPairs (fields : List (Str × Value)) : Except Fault Value :=
  match repeated? [] fields with
  | some key => .error (.duplicate key)
  | none => .ok (.dict fields)

mutual
/-- `scan_once`: one value at the head of the text, and the text after it. -/
def scanValue : Nat → Str → Except Fault (Value × Str)
  | 0, _ => .error .malformed
  | fuel + 1, s =>
    match s with
    | 34 :: r => (scanStr r).map fun p => (.str p.1, p.2)
    | 123 :: r =>
      match skipBlank r with
      | 125 :: r' => .ok (.dict [], r')
      | r' =>
        match scanFields fuel r' with
        | .error e => .error e
        | .ok (fields, rest) => (objectPairs fields).map fun v => (v, rest)
    | 91 :: r =>
      match skipBlank r with
      | 93 :: r' => .ok (.list [], r')
      | r' => (scanItems fuel r').map fun p => (.list p.1, p.2)
    | 110 :: 117 :: 108 :: 108 :: r => .ok (.none, r)
    | 116 :: 114 :: 117 :: 101 :: r => .ok (.bool true, r)
    | 102 :: 97 :: 108 :: 115 :: 101 :: r => .ok (.bool false, r)
    | s =>
      match constants.find? fun name => name.isPrefixOf s with
      | some name => .error (.constant name)
      | none => scanNumber read s

/-- The items of an array from one on, and the text behind the closing bracket. -/
def scanItems : Nat → Str → Except Fault (List Value × Str)
  | 0, _ => .error .malformed
  | fuel + 1, s =>
    match scanValue fuel s with
    | .error e => .error e
    | .ok (x, r) =>
      match skipBlank r with
      | 93 :: r' => .ok ([x], r')
      | 44 :: r' => (scanItems fuel (skipBlank r')).map fun p => (x :: p.1, p.2)
      | _ => .error .malformed

/-- The fields of an object from one on, and the text behind the closing brace. -/
def scanFields : Nat → Str → Except Fault (List (Str × Value) × Str)
  | 0, _ => .error .malformed
  | fuel + 1, s =>
    match s with
    | 34 :: r =>
      match scanStr r with
      | .error e => .error e
      | .ok (key, r) =>
        match skipBlank r with
        | 58 :: r =>
          match scanValue fuel (skipBlank r) with
          | .error e => .error e
          | .ok (x, r) =>
            match skipBlank r with
            | 125 :: r' => .ok ([(key, x)], r')
            | 44 :: r' =>
              (scanFields fuel (skipBlank r')).map fun p => ((key, x) :: p.1, p.2)
            | _ => .error .malformed
        | _ => .error .malformed
    | _ => .error .malformed
end

/-- `json.loads`. -/
def loads (s : Str) : Except Fault Value :=
  match scanValue read (2 * s.length + 2) (skipBlank s) with
  | .error e => .error e
  | .ok (v, r) => if skipBlank r = [] then .ok v else .error .malformed

end

/-! ## What is read -/

section

variable (read : Str → Option ℚ)

mutual
/-- Every float of the value was read from a literal. -/
def FloatsRead : Value → Prop
  | .float q => ∃ literal, read literal = some q
  | .list xs => FloatsReadItems xs
  | .dict fs => FloatsReadFields fs
  | _ => True

def FloatsReadItems : List Value → Prop
  | [] => True
  | x :: xs => FloatsRead x ∧ FloatsReadItems xs

def FloatsReadFields : List (Str × Value) → Prop
  | [] => True
  | (_, x) :: fs => FloatsRead x ∧ FloatsReadFields fs
end

end

section

variable {read : Str → Option ℚ}

theorem nodup_of_repeated? {seen : List Str} {fs : List (Str × Value)}
    (h : repeated? seen fs = none) :
    (fs.map (·.1)).Nodup ∧ ∀ key ∈ fs.map (·.1), key ∉ seen := by
  induction fs generalizing seen with
  | nil => simp
  | cons f fs ih =>
    obtain ⟨key, x⟩ := f
    rw [repeated?] at h
    by_cases hseen : key ∈ seen
    · simp [hseen] at h
    · rw [if_neg hseen] at h
      obtain ⟨hnodup, hrest⟩ := ih h
      have hkey : key ∉ fs.map (·.1) := fun hmem => hrest key hmem (by simp)
      refine ⟨List.nodup_cons.mpr ⟨hkey, hnodup⟩, ?_⟩
      intro other hother
      cases List.mem_cons.mp hother with
      | inl heq => exact heq ▸ hseen
      | inr hmem => exact fun hs => hrest other hmem (List.mem_cons_of_mem _ hs)

theorem scanUnsigned_read {neg : Bool} {s r : Str} {v : Value}
    (h : scanUnsigned read neg s = .ok (v, r)) : v.distinct = true ∧ FloatsRead read v := by
  unfold scanUnsigned at h
  dsimp only at h
  split at h
  · cases h
  split at h
  · split at h
    · cases h
    · cases h
      exact ⟨rfl, trivial⟩
  · obtain ⟨rfl, _⟩ := Prod.mk.inj (Except.ok.inj h)
    unfold floatOf
    split
    · next q hq => exact ⟨rfl, _, hq⟩
    · exact ⟨rfl, trivial⟩

theorem scanNumber_read {s r : Str} {v : Value} (h : scanNumber read s = .ok (v, r)) :
    v.distinct = true ∧ FloatsRead read v := by
  unfold scanNumber at h
  split at h
  · exact scanUnsigned_read h
  · exact scanUnsigned_read h

/-- What the scanner gives has no key twice and no float from elsewhere. -/
structure Scans (read : Str → Option ℚ) (fuel : Nat) : Prop where
  value : ∀ s v r, scanValue read fuel s = .ok (v, r) → v.distinct = true ∧ FloatsRead read v
  items : ∀ s xs r, scanItems read fuel s = .ok (xs, r) →
    Value.distinctItems xs = true ∧ FloatsReadItems read xs
  fields : ∀ s fs r, scanFields read fuel s = .ok (fs, r) →
    Value.distinctFields fs = true ∧ FloatsReadFields read fs

theorem Scans.valueStep {fuel : Nat} (ih : Scans read fuel) (s : Str) (v : Value) (r : Str)
    (h : scanValue read (fuel + 1) s = .ok (v, r)) : v.distinct = true ∧ FloatsRead read v := by
  rw [scanValue.eq_def] at h
  dsimp only at h
  split at h
  · cases hs : scanStr _ with
    | error e =>
      rw [hs] at h
      cases h
    | ok p =>
      rw [hs] at h
      cases h
      exact ⟨rfl, trivial⟩
  · split at h
    · cases h
      exact ⟨rfl, trivial⟩
    · split at h
      · cases h
      · next fields rest hfields =>
        unfold objectPairs at h
        split at h
        · cases h
        · next hnone =>
          cases h
          obtain ⟨hdistinct, hread⟩ := ih.fields _ _ _ hfields
          have hnodup := (nodup_of_repeated? hnone).1
          exact ⟨by simp [Value.distinct, hnodup, hdistinct], hread⟩
  · split at h
    · cases h
      exact ⟨rfl, trivial⟩
    · cases hitems : scanItems read fuel _ with
      | error e =>
        rw [hitems] at h
        cases h
      | ok p =>
        rw [hitems] at h
        cases h
        exact ih.items _ _ _ hitems
  · cases h
    exact ⟨rfl, trivial⟩
  · cases h
    exact ⟨rfl, trivial⟩
  · cases h
    exact ⟨rfl, trivial⟩
  · split at h
    · cases h
    · exact scanNumber_read h

theorem Scans.itemsStep {fuel : Nat} (ih : Scans read fuel) (s : Str) (xs : List Value) (r : Str)
    (h : scanItems read (fuel + 1) s = .ok (xs, r)) :
    Value.distinctItems xs = true ∧ FloatsReadItems read xs := by
  rw [scanItems] at h
  split at h
  · cases h
  · next x rest hx =>
    obtain ⟨hdistinct, hread⟩ := ih.value _ _ _ hx
    split at h
    · cases h
      exact ⟨by simp [Value.distinctItems, hdistinct], hread, trivial⟩
    · cases hitems : scanItems read fuel _ with
      | error e =>
        rw [hitems] at h
        cases h
      | ok p =>
        rw [hitems] at h
        cases h
        have hrest := ih.items _ _ _ hitems
        exact ⟨by simp [Value.distinctItems, hdistinct, hrest.1], hread, hrest.2⟩
    · cases h

theorem Scans.fieldsStep {fuel : Nat} (ih : Scans read fuel) (s : Str)
    (fs : List (Str × Value)) (r : Str) (h : scanFields read (fuel + 1) s = .ok (fs, r)) :
    Value.distinctFields fs = true ∧ FloatsReadFields read fs := by
  rw [scanFields.eq_def] at h
  dsimp only at h
  split at h
  · split at h
    · cases h
    split at h
    · split at h
      · cases h
      · next x rest hx =>
        obtain ⟨hdistinct, hread⟩ := ih.value _ _ _ hx
        split at h
        · cases h
          exact ⟨by simp [Value.distinctFields, hdistinct], hread, trivial⟩
        · cases hfields : scanFields read fuel _ with
          | error e =>
            rw [hfields] at h
            cases h
          | ok p =>
            rw [hfields] at h
            cases h
            have hrest := ih.fields _ _ _ hfields
            exact ⟨by simp [Value.distinctFields, hdistinct, hrest.1], hread, hrest.2⟩
        · cases h
    · cases h
  · cases h

theorem scans (read : Str → Option ℚ) (fuel : Nat) : Scans read fuel := by
  induction fuel with
  | zero =>
    constructor
    · intro s v r h
      cases h
    · intro s xs r h
      cases h
    · intro s fs r h
      cases h
  | succ fuel ih => exact ⟨ih.valueStep, ih.itemsStep, ih.fieldsStep⟩

theorem loads_read {s : Str} {v : Value} (h : loads read s = .ok v) :
    v.distinct = true ∧ FloatsRead read v := by
  unfold loads at h
  split at h
  · cases h
  · next w r hscan =>
    split at h
    · cases h
      exact (scans read _).value _ _ _ hscan
    · cases h

end

end Py
end FlashNext
