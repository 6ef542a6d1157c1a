import FlashNext.Effect.System
import Mathlib.Algebra.BigOperators.Group.Finset.Basic
import Mathlib.Data.Finset.Card
import Mathlib.Data.List.Basic
import Mathlib.Tactic.Tauto

/-!
# The cache of captured graphs

`ViTCudaGraphRunner` keeps one captured graph and its buffers for each key and at most
`_max_graphs` of them.  What a dictionary holds for a key does not matter here, so a dictionary
is its keys.  Capturing a graph is taken to register the key in the graphs and in the buffers,
and nowhere else.
-/

namespace FlashNext
namespace Vit

variable {Key : Type} [DecidableEq Key]

/-- The dictionaries that hold something for each captured graph. -/
inductive Table where
  | blockGraphs
  | blockInput
  | blockOutput
  | blockWs
  | cuFullLen
  | cuFullLenKk
  | cuWindowLen
  | cuWindowLenKk
  | sinCosWsByGraph
  deriving DecidableEq

structure Runner (Key : Type) where
  tables : Table → Finset Key
  maxGraphs : Nat
  lru : List Key
  /-- The replays under way for each key; a key that has none is not in the dictionary. -/
  inflight : Key → Nat

namespace Runner

/-- A runner with the value of `SGLANG_VIT_MAX_GRAPHS`. -/
def new (defaultMaxGraphs : Int) : Runner Key where
  tables _ := ∅
  maxGraphs := (max 1 defaultMaxGraphs).toNat
  lru := []
  inflight _ := 0

/-- `_touch`. -/
def touch (key : Key) (r : Runner Key) : Runner Key := { r with lru := r.lru.erase key ++ [key] }

/-- `create_graph`, as far as it is relied on. -/
def createGraph (key : Key) (r : Runner Key) : Runner Key :=
  { r with tables := fun t => insert key (r.tables t) }

/-- `_retire_graph`. -/
def retireGraph (key : Key) (r : Runner Key) : Runner Key :=
  { r with
    tables := fun t => (r.tables t).erase key
    lru := r.lru.erase key }

/-- The loop of `_enforce_graph_budget`, over the keys as they were listed before it. -/
def enforceLoop : List Key → Runner Key → Runner Key
  | [], r => r
  | key :: keys, r =>
    if (r.tables .blockGraphs).card ≤ r.maxGraphs then r
    else if 0 < r.inflight key then enforceLoop keys r
    else enforceLoop keys (r.retireGraph key)

/-- `_enforce_graph_budget`. -/
def enforceGraphBudget (r : Runner Key) : Runner Key := enforceLoop r.lru r

/-- `run`, up to the budget. -/
def request (key : Key) (r : Runner Key) : Runner Key :=
  if key ∈ (r.touch key).tables .blockGraphs then r.touch key else (r.touch key).createGraph key

/-- `run`, up to the replay. -/
def prepare (key : Key) (r : Runner Key) : Runner Key := (r.request key).enforceGraphBudget

/-- `replay` counts itself before it looks anything up. -/
def enter (key : Key) (r : Runner Key) : Runner Key :=
  { r with inflight := Function.update r.inflight key (r.inflight key + 1) }

/-- The end of `replay`, however it ends. -/
def leave (key : Key) (r : Runner Key) : Runner Key :=
  { r with inflight := Function.update r.inflight key (r.inflight key - 1) }

end Runner

/-! ## Callers -/

/-- Where a caller is: outside `run`, between the enforced budget and the replay, or inside
the replay. -/
inductive Phase (Key : Type) where
  | idle
  | ready (key : Key)
  | replaying (key : Key)
  deriving DecidableEq

/-- The key that a caller still needs. -/
def Phase.key? : Phase Key → Option Key
  | .idle => none
  | .ready key => some key
  | .replaying key => some key

variable {Caller : Type} [DecidableEq Caller]

structure State (Key Caller : Type) where
  runner : Runner Key
  phase : Caller → Phase Key

inductive Action (Key Caller : Type) where
  | prepare (c : Caller) (key : Key)
  | enter (c : Caller)
  | leave (c : Caller)

/-- The steps of a caller. -/
inductive Step : State Key Caller → Action Key Caller → State Key Caller → Prop where
  | prepare (s : State Key Caller) (c : Caller) (key : Key) (h : s.phase c = .idle) :
    Step s (.prepare c key)
      ⟨s.runner.prepare key, Function.update s.phase c (.ready key)⟩
  | enter (s : State Key Caller) (c : Caller) (key : Key) (h : s.phase c = .ready key) :
    Step s (.enter c) ⟨s.runner.enter key, Function.update s.phase c (.replaying key)⟩
  | leave (s : State Key Caller) (c : Caller) (key : Key) (h : s.phase c = .replaying key) :
    Step s (.leave c) ⟨s.runner.leave key, Function.update s.phase c .idle⟩

/-- A runner with all its callers. -/
def system (Key Caller : Type) [DecidableEq Key] [DecidableEq Caller] (defaultMaxGraphs : Int) :
    Effect.System (State Key Caller) (Action Key Caller) where
  start s := s = ⟨.new defaultMaxGraphs, fun _ => .idle⟩
  step := Step

/-! ## The budget -/

namespace Runner

variable {r : Runner Key}

/-- The key has no replay under way. -/
def idle (r : Runner Key) (key : Key) : Bool := r.inflight key = 0

theorem enforceLoop_inflight (keys : List Key) (r : Runner Key) :
    (enforceLoop keys r).inflight = r.inflight := by
  induction keys generalizing r with
  | nil => rfl
  | cons key keys ih =>
    rw [enforceLoop]
    split
    · rfl
    · split
      · exact ih r
      · exact ih (r.retireGraph key)

/-- How many graphs are over the budget. -/
def excess (r : Runner Key) : Nat := (r.tables .blockGraphs).card - r.maxGraphs

/-- The keys that enforcing the budget retires: as many as are over it, of those without a
replay, the least recently used first. -/
def retired (r : Runner Key) (keys : List Key) : List Key :=
  (keys.filter r.idle).take r.excess

/-- Enforcing the budget drops the retired keys everywhere and nothing else. -/
theorem enforceLoop_eq {keys : List Key} (hnodup : keys.Nodup)
    (hkeys : ∀ key ∈ keys, key ∈ r.tables .blockGraphs) :
    (∀ t, (enforceLoop keys r).tables t = r.tables t \ (r.retired keys).toFinset) ∧
      (enforceLoop keys r).lru = r.lru.diff (r.retired keys) := by
  induction keys generalizing r with
  | nil =>
    have hnone : r.retired [] = [] := List.take_nil
    rw [hnone]
    exact ⟨fun t => Finset.sdiff_empty.symm, rfl⟩
  | cons key keys ih =>
    rw [List.nodup_cons] at hnodup
    rw [List.forall_mem_cons] at hkeys
    rw [enforceLoop]
    split
    · next hcard =>
      have hnone : r.retired (key :: keys) = [] := by
        have hexcess : r.excess = 0 := Nat.sub_eq_zero_of_le hcard
        rw [retired, hexcess, List.take_zero]
      rw [hnone]
      exact ⟨fun t => Finset.sdiff_empty.symm, rfl⟩
    · next hcard =>
      split
      · next hbusy =>
        have hsame : r.retired (key :: keys) = r.retired keys := by
          have hidle : ¬ r.idle key = true := by
            rw [idle, decide_eq_true_eq]
            omega
          rw [retired, List.filter_cons_of_neg hidle]
          rfl
        rw [hsame]
        exact ih hnodup.2 hkeys.2
      · next hbusy =>
        have hidle : r.idle key = true := by
          rw [idle, decide_eq_true_eq]
          omega
        have hexcess : r.excess = (r.retireGraph key).excess + 1 := by
          have hcard' : ((r.retireGraph key).tables .blockGraphs).card =
              (r.tables .blockGraphs).card - 1 := Finset.card_erase_of_mem hkeys.1
          have hmax : (r.retireGraph key).maxGraphs = r.maxGraphs := rfl
          rw [excess, excess, hcard', hmax]
          omega
        have hretired : r.retired (key :: keys) = key :: (r.retireGraph key).retired keys := by
          rw [retired, List.filter_cons_of_pos hidle, hexcess, List.take_succ_cons]
          rfl
        have hkeys' : ∀ k ∈ keys, k ∈ (r.retireGraph key).tables .blockGraphs := by
          intro k hk
          refine Finset.mem_erase.mpr ⟨?_, hkeys.2 k hk⟩
          rintro rfl
          exact hnodup.1 hk
        obtain ⟨htables, hlru⟩ := ih hnodup.2 hkeys'
        rw [hretired, List.diff_cons]
        refine ⟨fun t => ?_, hlru⟩
        rw [htables t, List.toFinset_cons]
        show (r.tables t).erase key \ _ = _
        ext k
        simp only [Finset.mem_sdiff, Finset.mem_erase, Finset.mem_insert, not_or]
        tauto

end Runner

end Vit
end FlashNext
