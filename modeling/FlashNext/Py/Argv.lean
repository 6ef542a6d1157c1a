import FlashNext.Py.Value

/-!
# Argument vectors

A vector is read as its flags: the value of a flag is the word behind it.  A vector that is put
together from words, options and values that are no flags is read piece by piece.
-/

namespace FlashNext
namespace Py
namespace Argv

def word (s : String) : Value := .str (str s)

def words (names : List String) : List Value := names.map word

/-- A flag and its value. -/
def option (flag : String) (v : Value) : List Value := [word flag, v]

/-- The word is a flag: it starts with two dashes. -/
def isFlag (v : Value) : Bool := v.asStr?.any fun s => s.take 2 == [45, 45]

/-- The word behind the first one that is the flag. -/
def valueOf : List Value → String → Option Value
  | [], _ => none
  | x :: rest, flag => if x = word flag then rest.head? else valueOf rest flag

/-- The flags of a vector, in order. -/
def flagsOf (argv : List Value) : List Value := argv.filter isFlag

theorem word_ne {v : Value} {flag : String} (hv : isFlag v = false)
    (hflag : isFlag (word flag) = true) : v ≠ word flag := by
  intro h
  rw [h, hflag] at hv
  cases hv

theorem valueOf_cons_ne {v : Value} {rest : List Value} {flag : String} (h : v ≠ word flag) :
    valueOf (v :: rest) flag = valueOf rest flag := by
  rw [valueOf, if_neg h]

theorem str_inj {s t : String} (h : str s = str t) : s = t := by
  have hchars : s.toList.map Char.toNat = t.toList.map Char.toNat := h
  have hlist : s.toList = t.toList :=
    List.map_injective_iff.mpr (fun a b hab => Char.ext (UInt32.toNat_inj.mp hab)) hchars
  exact String.toList_injective hlist

theorem lookup_self (fs : List (Str × Value)) (name : String) (v : Value) :
    Value.lookup ((str name, v) :: fs) name = some v := by
  rw [Value.lookup, List.find?_cons_of_pos (by simp)]
  rfl

theorem lookup_other {name key : String} (fs : List (Str × Value)) (v : Value)
    (h : name ≠ key) : Value.lookup ((str name, v) :: fs) key = Value.lookup fs key := by
  have hne : str name ≠ str key := fun heq => h (str_inj heq)
  rw [Value.lookup, List.find?_cons_of_neg (by simpa using hne)]
  rfl

theorem word_inj {s t : String} : word s = word t ↔ s = t := by
  constructor
  · intro h
    exact str_inj (Value.str.inj h)
  · intro h
    rw [h]

theorem valueOf_append {front rest : List Value} {flag : String} (h : word flag ∉ front) :
    valueOf (front ++ rest) flag = valueOf rest flag := by
  induction front with
  | nil => rfl
  | cons v front ih =>
    have hv : v ≠ word flag := by
      intro heq
      exact h (by simp [heq])
    rw [List.cons_append, valueOf_cons_ne hv]
    exact ih fun hmem => h (List.mem_cons_of_mem _ hmem)

theorem mem_words {names : List String} {flag : String} : word flag ∈ words names ↔ flag ∈ names := by
  rw [words, List.mem_map]
  constructor
  · intro h
    obtain ⟨name, hname, heq⟩ := h
    exact word_inj.mp heq ▸ hname
  · intro h
    exact ⟨flag, h, rfl⟩

theorem valueOf_words {names : List String} {rest : List Value} {flag : String}
    (h : flag ∉ names) : valueOf (words names ++ rest) flag = valueOf rest flag :=
  valueOf_append fun hmem => h (mem_words.mp hmem)

/-- Values that are no flags are passed by. -/
theorem valueOf_silent {vs rest : List Value} {flag : String} (h : ∀ v ∈ vs, isFlag v = false)
    (hflag : isFlag (word flag) = true) : valueOf (vs ++ rest) flag = valueOf rest flag := by
  refine valueOf_append ?_
  intro hmem
  exact word_ne (h _ hmem) hflag rfl

theorem valueOf_option {rest : List Value} (flag : String) (v : Value) :
    valueOf (option flag v ++ rest) flag = some v := by
  show valueOf (word flag :: v :: rest) flag = some v
  rw [valueOf, if_pos rfl]
  rfl

theorem valueOf_other {rest : List Value} {flag other : String} {v : Value}
    (hv : isFlag v = false) (hflag : isFlag (word flag) = true) (hother : other ≠ flag) :
    valueOf (option other v ++ rest) flag = valueOf rest flag := by
  have hne : word other ≠ word flag := fun heq => hother (word_inj.mp heq)
  show valueOf (word other :: v :: rest) flag = _
  rw [valueOf_cons_ne hne, valueOf_cons_ne (word_ne hv hflag)]

theorem flagsOf_append (front rest : List Value) :
    flagsOf (front ++ rest) = flagsOf front ++ flagsOf rest := List.filter_append ..

theorem flagsOf_words (names : List String) :
    flagsOf (words names) = words (names.filter fun name => isFlag (word name)) := by
  rw [flagsOf, words, words, List.filter_map]
  rfl

theorem flagsOf_option {flag : String} {v : Value} (hflag : isFlag (word flag) = true)
    (hv : isFlag v = false) : flagsOf (option flag v) = [word flag] := by
  show [word flag, v].filter isFlag = _
  rw [List.filter_cons_of_pos hflag, List.filter_cons_of_neg (by simp [hv])]
  rfl

theorem flagsOf_silent {vs : List Value} (h : ∀ v ∈ vs, isFlag v = false) : flagsOf vs = [] := by
  rw [flagsOf, List.filter_eq_nil_iff]
  intro v hv
  simp [h v hv]

theorem mem_flagsOf {argv : List Value} {v : Value} :
    v ∈ flagsOf argv ↔ v ∈ argv ∧ isFlag v = true := List.mem_filter

theorem mem_of_flag {argv : List Value} {flag : String} (hflag : isFlag (word flag) = true) :
    word flag ∈ argv ↔ word flag ∈ flagsOf argv := by
  rw [mem_flagsOf]
  simp [hflag]

/-- A vector without the flag gives it no value. -/
theorem valueOf_eq_none {argv : List Value} {flag : String} (h : word flag ∉ argv) :
    valueOf argv flag = none := by
  have hnone := @valueOf_append argv [] flag h
  rw [List.append_nil] at hnone
  rw [hnone]
  rfl

end Argv
end Py
end FlashNext
