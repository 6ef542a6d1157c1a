import FlashNext.Vit.Awaited
import Mathlib.Data.List.Dedup
import Mathlib.Data.List.DropRight

/-!
# The graphs that are retained

Between sequential calls no replay is under way, so a request retires the first keys of the usage
order and nothing else: what is left are the keys requested last (`call_recent`).  However the
operations of concurrent callers interleave, enforcing the budget stops within it or has no key
left that it may retire (`enforce_settled`).
-/

namespace FlashNext
namespace Vit

/-! ## Keys in the order of their last request -/

section Recent

variable {α : Type} [DecidableEq α] {keys older kept : List α} {key : α} {budget : Nat}

theorem dedup_concat (keys : List α) (key : α) :
    (keys ++ [key]).dedup = keys.dedup.erase key ++ [key] := by
  induction keys with
  | nil => rfl
  | cons k keys ih =>
    rw [List.cons_append, List.dedup_cons, List.dedup_cons, ih]
    by_cases hk : k ∈ keys
    · rw [if_pos (List.mem_append_left _ hk), if_pos hk]
    · rw [if_neg hk]
      by_cases heq : k = key
      · subst heq
        have hmem : k ∈ keys ++ [k] := List.mem_append_right _ (List.mem_singleton_self k)
        have hnot : k ∉ keys.dedup := fun h => hk (List.mem_dedup.mp h)
        rw [if_pos hmem, List.erase_cons_head, List.erase_of_not_mem hnot]
      · have hmem : k ∉ keys ++ [key] := by
          rw [List.mem_append, List.mem_singleton]
          exact fun h => h.elim hk heq
        have hbeq : ¬ (k == key) = true := fun h => heq (eq_of_beq h)
        rw [if_neg hmem, List.erase_cons_tail hbeq, List.cons_append]

theorem diff_take (hnodup : keys.Nodup) (n : Nat) : keys.diff (keys.take n) = keys.drop n := by
  induction keys generalizing n with
  | nil => rw [List.take_nil, List.drop_nil, List.diff_nil]
  | cons k keys ih =>
    cases n with
    | zero => rw [List.take_zero, List.drop_zero, List.diff_nil]
    | succ n =>
      rw [List.take_succ_cons, List.drop_succ_cons, List.diff_cons, List.erase_cons_head]
      exact ih (List.nodup_cons.mp hnodup).2 n

omit [DecidableEq α] in
theorem rtake_of_length_le (h : keys.length ≤ budget) : keys.rtake budget = keys := by
  rw [List.rtake, Nat.sub_eq_zero_of_le h, List.drop_zero]

omit [DecidableEq α] in
theorem rtake_append (h : budget ≤ kept.length) :
    (older ++ kept).rtake budget = kept.rtake budget := by
  have hle : older.length ≤ (older ++ kept).length - budget := by
    rw [List.length_append]
    omega
  have hsub : (older ++ kept).length - budget - older.length = kept.length - budget := by
    rw [List.length_append]
    omega
  rw [List.rtake, List.rtake, List.drop_append, List.drop_eq_nil_of_le hle, hsub, List.nil_append]

/-- Touching a key in the last keys gives the last keys of all, with the key touched. -/
theorem rtake_touch (hnodup : keys.Nodup) :
    ((keys.rtake budget).erase key ++ [key]).rtake budget =
      (keys.erase key ++ [key]).rtake budget := by
  by_cases hshort : keys.length ≤ budget
  · rw [rtake_of_length_le hshort]
  · have hlength : (keys.rtake budget).length = budget := by
      rw [List.rtake, List.length_drop]
      omega
    have hsplit : keys = keys.take (keys.length - budget) ++ keys.rtake budget :=
      (List.take_append_drop _ keys).symm
    by_cases hmem : key ∈ keys.rtake budget
    · have hnot : key ∉ keys.take (keys.length - budget) := by
        intro h
        rw [hsplit] at hnodup
        exact (List.nodup_append.mp hnodup).2.2 key h key hmem rfl
      have herase : keys.erase key = keys.take (keys.length - budget) ++
          (keys.rtake budget).erase key := by
        conv_lhs => rw [hsplit]
        exact List.erase_append_right _ hnot
      have hpos : 0 < (keys.rtake budget).length := List.length_pos_of_mem hmem
      rw [herase, List.append_assoc]
      refine (rtake_append ?_).symm
      rw [List.length_append, List.length_erase_of_mem hmem, List.length_singleton]
      omega
    · have herase : keys.erase key = (keys.take (keys.length - budget)).erase key ++
          keys.rtake budget := by
        by_cases hold : key ∈ keys.take (keys.length - budget)
        · conv_lhs => rw [hsplit]
          exact List.erase_append_left _ hold
        · have hnone : key ∉ keys := by
            rw [hsplit, List.mem_append]
            exact fun h => h.elim hold hmem
          rw [List.erase_of_not_mem hnone, List.erase_of_not_mem hold]
          exact hsplit
      rw [herase, List.erase_of_not_mem hmem, List.append_assoc]
      refine (rtake_append ?_).symm
      rw [List.length_append, List.length_singleton]
      omega

end Recent

variable {Key : Type} [DecidableEq Key]

/-- The keys requested last, as many as the budget allows, the least recently requested first. -/
def recent (budget : Nat) (requests : List Key) : List Key := requests.dedup.rtake budget

theorem length_recent (budget : Nat) (requests : List Key) :
    (recent budget requests).length = min budget requests.dedup.length := by
  rw [recent, List.rtake, List.length_drop]
  omega

theorem recent_nodup (budget : Nat) (requests : List Key) : (recent budget requests).Nodup :=
  (List.nodup_dedup requests).sublist (List.drop_sublist _ _)

/-! ## Sequential calls -/

/-- A call of `run`.  The exception of a call that raises comes before or after the replay counts
itself. -/
structure Call (Key : Type) where
  key : Key
  counted : Bool

namespace Runner

variable {r : Runner Key} {key : Key}

def call (r : Runner Key) (c : Call Key) : Runner Key :=
  if c.counted then ((r.prepare c.key).enter c.key).leave c.key else r.prepare c.key

def calls (r : Runner Key) (cs : List (Call Key)) : Runner Key := cs.foldl call r

/-- A replay that has ended leaves nothing behind. -/
theorem leave_enter : (r.enter key).leave key = r := by
  rw [leave, enter]
  dsimp only
  rw [Function.update_self, Function.update_idem, Nat.add_sub_cancel, Function.update_eq_self]

theorem call_eq (r : Runner Key) (c : Call Key) : r.call c = r.prepare c.key := by
  rw [call, leave_enter, ite_self]

theorem enforceLoop_maxGraphs (keys : List Key) (r : Runner Key) :
    (enforceLoop keys r).maxGraphs = r.maxGraphs := by
  induction keys generalizing r with
  | nil => rfl
  | cons key keys ih =>
    rw [enforceLoop]
    split
    · rfl
    · split
      · exact ih r
      · exact ih (r.retireGraph key)

theorem request_maxGraphs : (r.request key).maxGraphs = r.maxGraphs := by
  unfold request
  split <;> rfl

theorem prepare_maxGraphs : (r.prepare key).maxGraphs = r.maxGraphs :=
  (enforceLoop_maxGraphs _ _).trans request_maxGraphs

/-- Without a replay under way the first keys of the usage order are retired. -/
theorem prepare_lru (h : r.Consistent) (hidle : ∀ k, r.inflight k = 0) :
    (r.prepare key).lru = (r.lru.erase key ++ [key]).rtake r.maxGraphs := by
  have hc := request_consistent key h
  have hall : (r.request key).lru.filter (r.request key).idle = (r.request key).lru := by
    refine List.filter_eq_self.mpr fun k _ => ?_
    rw [idle, request_inflight, decide_eq_true_eq]
    exact hidle k
  have hexcess : (r.request key).excess = (r.request key).lru.length - r.maxGraphs := by
    rw [excess, hc.tables, List.toFinset_card_of_nodup hc.nodup, request_maxGraphs]
  have hlru : (r.request key).lru = r.lru.erase key ++ [key] := request_lru
  rw [(prepare_eq key h).2, toRetire, retired, hall, hexcess, ← hlru]
  exact diff_take hc.nodup _

end Runner

/-- What is retained after the requests. -/
structure Retains (budget : Nat) (requests : List Key) (r : Runner Key) : Prop where
  graphs : r.tables .blockGraphs = (recent budget requests).toFinset
  lru : r.lru = recent budget requests
  buffers : ∀ t, r.tables t ⊆ r.tables .blockGraphs
  idle : ∀ key, r.inflight key = 0

/-- One call retains what was requested last, the call's own key included. -/
theorem call_recent {budget : Nat} {requests : List Key} {r : Runner Key}
    (hbudget : r.maxGraphs = budget) (hc : r.Consistent) (h : Retains budget requests r)
    (c : Call Key) :
    (r.call c).maxGraphs = budget ∧ (r.call c).Consistent ∧
      Retains budget (requests ++ [c.key]) (r.call c) := by
  rw [Runner.call_eq]
  have hc' : (r.prepare c.key).Consistent := Runner.prepare_consistent hc
  have hlru : (r.prepare c.key).lru = recent budget (requests ++ [c.key]) := by
    rw [Runner.prepare_lru hc h.idle, hbudget, h.lru, recent, recent, dedup_concat]
    exact rtake_touch (List.nodup_dedup requests)
  refine ⟨Runner.prepare_maxGraphs.trans hbudget, hc', ?_, hlru, fun t => ?_, fun key => ?_⟩
  · rw [hc'.tables, hlru]
  · rw [hc'.tables, hc'.tables]
  · rw [Runner.prepare_inflight]
    exact h.idle key

theorem calls_recent {budget : Nat} {r : Runner Key} (hbudget : r.maxGraphs = budget)
    (cs : List (Call Key)) {requests : List Key} (hc : r.Consistent)
    (h : Retains budget requests r) :
    Retains budget (requests ++ cs.map (·.key)) (r.calls cs) := by
  induction cs generalizing r requests with
  | nil =>
    rw [List.map_nil, List.append_nil]
    exact h
  | cons c cs ih =>
    obtain ⟨hbudget', hc', h'⟩ := call_recent hbudget hc h c
    rw [List.map_cons, List.append_cons]
    exact ih hbudget' hc' h'

/-! ## Concurrent callers -/

/-- The operations that callers interleave. -/
inductive Op (Key : Type) where
  | touch (key : Key)
  | createGraph (key : Key)
  | enforceGraphBudget
  | enter (key : Key)
  | leave (key : Key)

namespace Runner

variable {r : Runner Key}

def act (r : Runner Key) : Op Key → Runner Key
  | .touch key => r.touch key
  | .createGraph key => r.createGraph key
  | .enforceGraphBudget => r.enforceGraphBudget
  | .enter key => r.enter key
  | .leave key => r.leave key

theorem enforceLoop_sublist (keys : List Key) (r : Runner Key) :
    (enforceLoop keys r).lru.Sublist r.lru := by
  induction keys generalizing r with
  | nil => exact List.Sublist.refl _
  | cons key keys ih =>
    rw [enforceLoop]
    split
    · exact List.Sublist.refl _
    · split
      · exact ih r
      · exact (ih (r.retireGraph key)).trans List.erase_sublist

theorem act_nodup (h : r.lru.Nodup) (op : Op Key) : (r.act op).lru.Nodup := by
  cases op with
  | touch key => exact touch_nodup h
  | createGraph key => exact h
  | enforceGraphBudget => exact h.sublist (enforceLoop_sublist _ _)
  | enter key => exact h
  | leave key => exact h

theorem acts_nodup (h : r.lru.Nodup) (ops : List (Op Key)) : (ops.foldl act r).lru.Nodup := by
  induction ops generalizing r with
  | nil => exact h
  | cons op ops ih => exact ih (act_nodup h op)

/-- The loop stops within the budget, or every key it was given is gone or has a replay. -/
theorem enforceLoop_settled (keys : List Key) {r : Runner Key} (hnodup : r.lru.Nodup) :
    ((enforceLoop keys r).tables .blockGraphs).card ≤ r.maxGraphs ∨
      ∀ key ∈ (enforceLoop keys r).lru, key ∈ keys → 0 < r.inflight key := by
  induction keys generalizing r with
  | nil => exact .inr fun key _ hkey => absurd hkey List.not_mem_nil
  | cons key keys ih =>
    rw [enforceLoop]
    split
    · next hcard => exact .inl hcard
    · split
      · next hbusy =>
        refine (ih hnodup).imp_right fun hrest k hk hmem => ?_
        rcases List.mem_cons.mp hmem with rfl | hmem
        · exact hbusy
        · exact hrest k hk hmem
      · refine (ih (r := r.retireGraph key) (hnodup.erase key)).imp_right
          fun hrest k hk hmem => ?_
        rcases List.mem_cons.mp hmem with rfl | hmem
        · have hleft : k ∈ r.lru.erase k := (enforceLoop_sublist _ _).subset hk
          exact absurd rfl (hnodup.mem_erase_iff.mp hleft).1
        · exact hrest k hk hmem

theorem enforce_settled {r : Runner Key} (hnodup : r.lru.Nodup) :
    (r.enforceGraphBudget.tables .blockGraphs).card ≤ r.enforceGraphBudget.maxGraphs ∨
      ∀ key ∈ r.enforceGraphBudget.lru, 0 < r.enforceGraphBudget.inflight key := by
  rw [enforceGraphBudget, enforceLoop_maxGraphs, enforceLoop_inflight]
  refine (enforceLoop_settled r.lru hnodup).imp_right fun hrest key hkey => ?_
  exact hrest key hkey ((enforceLoop_sublist _ _).subset hkey)

end Runner

omit [DecidableEq Key] in
theorem new_maxGraphs {budget : Nat} (h : 1 ≤ budget) :
    (Runner.new budget : Runner Key).maxGraphs = budget := by
  show (max 1 (budget : Int)).toNat = budget
  omega

/-- After any sequential calls exactly the keys requested last are retained, and after any
interleaving the enforced budget holds as far as replays allow. -/
theorem graphs_bounded {budget : Nat} (hbudget : 1 ≤ budget) :
    (∀ cs : List (Call Key),
      Retains budget (cs.map (·.key)) ((Runner.new budget).calls cs) ∧
        (((Runner.new budget).calls cs).tables .blockGraphs).card =
          min budget (cs.map (·.key)).dedup.length) ∧
    ∀ ops : List (Op Key),
      let r := (ops.foldl Runner.act (Runner.new budget)).enforceGraphBudget
      (r.tables .blockGraphs).card ≤ budget ∨ ∀ key ∈ r.lru, 0 < r.inflight key := by
  have hmax : (Runner.new budget : Runner Key).maxGraphs = budget := new_maxGraphs hbudget
  constructor
  · intro cs
    have hnil : recent budget ([] : List Key) = [] := List.rtake_nil budget
    have hstart : Retains budget [] (Runner.new budget : Runner Key) := by
      refine ⟨?_, hnil.symm, fun _ => Finset.Subset.refl _, fun _ => rfl⟩
      rw [hnil]
      rfl
    have h := calls_recent hmax cs ⟨List.nodup_nil, fun _ => rfl⟩ hstart
    rw [List.nil_append] at h
    refine ⟨h, ?_⟩
    rw [h.graphs, List.toFinset_card_of_nodup (recent_nodup _ _), length_recent]
  · intro ops
    have hkept : ∀ (ops : List (Op Key)) (r : Runner Key),
        (ops.foldl Runner.act r).maxGraphs = r.maxGraphs := by
      intro ops
      induction ops with
      | nil => exact fun _ => rfl
      | cons op ops ih =>
        intro r
        rw [List.foldl_cons, ih]
        cases op with
        | enforceGraphBudget => exact Runner.enforceLoop_maxGraphs _ _
        | _ => rfl
    have hsettled := Runner.enforce_settled (Runner.acts_nodup
      (r := (Runner.new budget : Runner Key)) List.nodup_nil ops)
    rw [Runner.enforceGraphBudget, Runner.enforceLoop_maxGraphs, hkept, hmax] at hsettled
    exact hsettled

theorem graphs_bounded_two :
    ((Runner.new 2).calls [⟨7, true⟩, ⟨8, false⟩, ⟨7, true⟩, ⟨9, true⟩]).lru = [7, 9] :=
  ((graphs_bounded (show 1 ≤ 2 by decide)).1
    [⟨7, true⟩, ⟨8, false⟩, ⟨7, true⟩, ⟨9, true⟩]).1.lru.trans (by decide)

end Vit
end FlashNext
