import FlashNext.Vit.Runner
import Mathlib.Data.Set.Card

/-!
# Graphs that are still needed

The dictionaries and the usage order hold the same keys, and the counts are those of the callers
inside a replay (`reachable_sound`), so a key with a replay under way is never retired.  A key
that is only waited for is protected by nothing but its place in the usage order: it stays as
long as no request finds it among the keys to retire (`graphs_found`), and a request that does
takes it away (`prepare_keeps_iff`).
-/

namespace FlashNext
namespace Vit

open Effect

variable {Key Caller : Type} [DecidableEq Key] [DecidableEq Caller]

namespace Runner

/-- The dictionaries and the usage order hold the same keys. -/
structure Consistent (r : Runner Key) : Prop where
  nodup : r.lru.Nodup
  tables : ∀ t, r.tables t = r.lru.toFinset

variable {r : Runner Key} {key : Key}

theorem touch_nodup (h : r.lru.Nodup) : (r.touch key).lru.Nodup := by
  show (r.lru.erase key ++ [key]).Nodup
  rw [List.nodup_append]
  refine ⟨h.erase key, List.nodup_singleton key, ?_⟩
  intro k hk k' hk'
  rw [List.mem_singleton.mp hk']
  rintro rfl
  exact (h.mem_erase_iff.mp hk).1 rfl

theorem touch_mem (h : r.lru.Nodup) {k : Key} : k ∈ (r.touch key).lru ↔ k = key ∨ k ∈ r.lru := by
  show k ∈ r.lru.erase key ++ [key] ↔ _
  rw [List.mem_append, List.mem_singleton, h.mem_erase_iff]
  tauto

theorem request_consistent (key : Key) (h : r.Consistent) : (r.request key).Consistent := by
  have hlru : (r.touch key).lru.toFinset = insert key r.lru.toFinset := by
    ext k
    rw [List.mem_toFinset, touch_mem h.nodup, Finset.mem_insert, List.mem_toFinset]
  unfold request
  split
  · next hmem =>
    refine ⟨touch_nodup h.nodup, fun t => ?_⟩
    have hkey : key ∈ r.lru.toFinset := h.tables .blockGraphs ▸ hmem
    rw [hlru, Finset.insert_eq_of_mem hkey]
    exact h.tables t
  · refine ⟨touch_nodup h.nodup, fun t => ?_⟩
    show insert key (r.tables t) = (r.touch key).lru.toFinset
    rw [hlru, h.tables t]

theorem request_lru : (r.request key).lru = (r.touch key).lru := by
  unfold request
  split <;> rfl

theorem request_inflight : (r.request key).inflight = r.inflight := by
  unfold request
  split <;> rfl

/-- The keys that a request for `key` retires. -/
def toRetire (key : Key) (r : Runner Key) : List Key :=
  (r.request key).retired (r.request key).lru

theorem idle_of_toRetire {k : Key} (h : k ∈ r.toRetire key) : r.inflight k = 0 := by
  have hidle := (List.mem_filter.mp (List.mem_of_mem_take h)).2
  rw [idle, request_inflight, decide_eq_true_eq] at hidle
  exact hidle

theorem prepare_eq (key : Key) (h : r.Consistent) :
    (∀ t, (r.prepare key).tables t = (r.request key).tables t \ (r.toRetire key).toFinset) ∧
      (r.prepare key).lru = (r.request key).lru.diff (r.toRetire key) := by
  have hc := request_consistent key h
  refine enforceLoop_eq hc.nodup fun k hk => ?_
  rw [hc.tables]
  exact List.mem_toFinset.mpr hk

theorem prepare_consistent (h : r.Consistent) : (r.prepare key).Consistent := by
  have hc := request_consistent key h
  obtain ⟨htables, hlru⟩ := prepare_eq key h
  refine ⟨?_, fun t => ?_⟩
  · rw [hlru]
    exact hc.nodup.diff
  · rw [htables, hlru, hc.tables]
    ext k
    rw [Finset.mem_sdiff, List.mem_toFinset, List.mem_toFinset, List.mem_toFinset,
      hc.nodup.mem_sdiff_iff]

/-- What is there after a request: all that was there and the key, without what is retired. -/
theorem mem_prepare (h : r.Consistent) {k : Key} (t : Table) :
    k ∈ (r.prepare key).tables t ↔ (k = key ∨ k ∈ r.tables t) ∧ k ∉ r.toRetire key := by
  obtain ⟨htables, -⟩ := prepare_eq key h
  rw [htables, Finset.mem_sdiff, (request_consistent key h).tables, List.mem_toFinset,
    List.mem_toFinset, request_lru, touch_mem h.nodup, h.tables, List.mem_toFinset]

theorem prepare_inflight : (r.prepare key).inflight = r.inflight :=
  (enforceLoop_inflight _ _).trans request_inflight

end Runner

/-- The callers inside a replay of the key. -/
def replays (s : State Key Caller) (key : Key) : Set Caller := {c | s.phase c = .replaying key}

/-- What holds however the callers interleave. -/
structure Sound (s : State Key Caller) : Prop where
  consistent : s.runner.Consistent
  finite : ∀ key, (replays s key).Finite
  counted : ∀ key, s.runner.inflight key = (replays s key).ncard

omit [DecidableEq Key] in
/-- A phase before or after that is no replay of the key leaves its replays as they are. -/
theorem replays_update {s : State Key Caller} {r : Runner Key} {c : Caller} {p : Phase Key}
    {key : Key} (hold : s.phase c ≠ .replaying key) (hnew : p ≠ .replaying key) :
    replays ⟨r, Function.update s.phase c p⟩ key = replays s key := by
  ext c'
  show Function.update s.phase c p c' = _ ↔ s.phase c' = _
  by_cases hc : c' = c
  · subst hc
    rw [Function.update_self]
    exact ⟨fun h => absurd h hnew, fun h => absurd h hold⟩
  · rw [Function.update_of_ne hc]

theorem sound_start {s : State Key Caller} {n : Int} (h : (system Key Caller n).start s) :
    Sound s := by
  have hs : s = ⟨.new n, fun _ => .idle⟩ := h
  subst hs
  have hnone (key : Key) :
      replays (⟨.new n, fun _ => .idle⟩ : State Key Caller) key = ∅ := by
    ext c
    exact ⟨nofun, nofun⟩
  refine ⟨⟨List.nodup_nil, fun t => rfl⟩, fun key => ?_, fun key => ?_⟩
  · rw [hnone]
    exact Set.finite_empty
  · rw [hnone, Set.ncard_empty]
    rfl

theorem step_sound {s s' : State Key Caller} {a : Action Key Caller} (h : Sound s)
    (hstep : Step s a s') : Sound s' := by
  cases hstep with
  | prepare c key hidle =>
    have hreplays (k : Key) :
        replays ⟨s.runner.prepare key, Function.update s.phase c (.ready key)⟩ k = replays s k :=
      replays_update (hidle ▸ nofun) nofun
    refine ⟨Runner.prepare_consistent h.consistent, fun k => ?_, fun k => ?_⟩
    · rw [hreplays]
      exact h.finite k
    · rw [hreplays, ← h.counted k]
      exact congrFun Runner.prepare_inflight k
  | enter c key hready =>
    have hother {k : Key} (hne : k ≠ key) :
        replays ⟨s.runner.enter key, Function.update s.phase c (.replaying key)⟩ k =
          replays s k := by
      refine replays_update (hready ▸ nofun) fun heq => hne ?_
      exact (Phase.replaying.inj heq).symm
    have hown : replays ⟨s.runner.enter key, Function.update s.phase c (.replaying key)⟩ key =
        insert c (replays s key) := by
      ext c'
      show Function.update s.phase c (.replaying key) c' = _ ↔ _
      by_cases hc : c' = c
      · subst hc
        rw [Function.update_self]
        exact ⟨fun _ => Set.mem_insert _ _, fun _ => rfl⟩
      · rw [Function.update_of_ne hc, Set.mem_insert_iff, or_iff_right hc]
        rfl
    have hnot : c ∉ replays s key := by
      intro hc
      have hphase : s.phase c = .replaying key := hc
      rw [hready] at hphase
      cases hphase
    refine ⟨⟨h.consistent.nodup, h.consistent.tables⟩, fun k => ?_, fun k => ?_⟩
    · by_cases hk : k = key
      · subst hk
        rw [hown]
        exact (h.finite k).insert c
      · rw [hother hk]
        exact h.finite k
    · show Function.update s.runner.inflight key _ k = _
      by_cases hk : k = key
      · subst hk
        rw [Function.update_self, hown, Set.ncard_insert_of_notMem hnot (h.finite k),
          h.counted k]
      · rw [Function.update_of_ne hk, hother hk]
        exact h.counted k
  | leave c key hreplaying =>
    have hother {k : Key} (hne : k ≠ key) :
        replays ⟨s.runner.leave key, Function.update s.phase c .idle⟩ k = replays s k := by
      refine replays_update (fun heq => hne ?_) nofun
      rw [hreplaying] at heq
      exact (Phase.replaying.inj heq).symm
    have hown : replays ⟨s.runner.leave key, Function.update s.phase c .idle⟩ key =
        replays s key \ {c} := by
      ext c'
      show Function.update s.phase c .idle c' = _ ↔ _
      by_cases hc : c' = c
      · subst hc
        rw [Function.update_self]
        exact ⟨nofun, fun hmem => absurd rfl hmem.2⟩
      · rw [Function.update_of_ne hc, Set.mem_sdiff, Set.mem_singleton_iff, and_iff_left hc]
        rfl
    refine ⟨⟨h.consistent.nodup, h.consistent.tables⟩, fun k => ?_, fun k => ?_⟩
    · by_cases hk : k = key
      · subst hk
        rw [hown]
        exact (h.finite k).subset Set.sdiff_subset
      · rw [hother hk]
        exact h.finite k
    · show Function.update s.runner.inflight key _ k = _
      by_cases hk : k = key
      · subst hk
        have hmem : c ∈ replays s k := hreplaying
        rw [Function.update_self, hown, Set.ncard_sdiff_singleton_of_mem hmem, h.counted k]
      · rw [Function.update_of_ne hk, hother hk]
        exact h.counted k

theorem reachable_sound {n : Int} {s : State Key Caller}
    (h : (system Key Caller n).Reachable s) : Sound s :=
  h.invariant (fun _ => sound_start) fun _ _ _ hs _ hstep => step_sound hs hstep

/-! ## Keys that are waited for -/

/-- Every key that a caller needs is in all dictionaries. -/
def Found (s : State Key Caller) : Prop :=
  ∀ c key, (s.phase c).key? = some key → ∀ t, key ∈ s.runner.tables t

/-- The request retires neither its own key nor one that a caller is about to replay. -/
def Spares (s : State Key Caller) : Action Key Caller → Prop
  | .prepare _ key => ∀ k, (k = key ∨ ∃ c, s.phase c = .ready k) → k ∉ s.runner.toRetire key
  | _ => True

omit [DecidableEq Caller] in
theorem mem_inflight {s : State Key Caller} (h : Sound s) {c : Caller} {key : Key}
    (hreplaying : s.phase c = .replaying key) : 0 < s.runner.inflight key := by
  rw [h.counted, Set.ncard_pos (h.finite key)]
  exact ⟨c, hreplaying⟩

/-- A key that is being replayed is not retired. -/
theorem inflight_kept {s s' : State Key Caller} {a : Action Key Caller} (h : Sound s)
    (hstep : Step s a s') {key : Key} (hbusy : 0 < s.runner.inflight key) {t : Table}
    (hmem : key ∈ s.runner.tables t) : key ∈ s'.runner.tables t := by
  cases hstep with
  | prepare c k hidle =>
    refine (Runner.mem_prepare h.consistent t).mpr ⟨.inr hmem, fun hretire => ?_⟩
    have hzero := Runner.idle_of_toRetire hretire
    omega
  | enter c k hready => exact hmem
  | leave c k hreplaying => exact hmem

/-- A request leaves what callers need exactly when it spares the keys that are waited for. -/
theorem prepare_keeps_iff {s : State Key Caller} (h : Sound s) (hfound : Found s) {c : Caller}
    {key : Key} (hidle : s.phase c = .idle) :
    Found ⟨s.runner.prepare key, Function.update s.phase c (.ready key)⟩ ↔
      Spares s (.prepare c key) := by
  constructor
  · rintro hnew k (rfl | ⟨c', hready⟩)
    · have hphase : (Function.update s.phase c (.ready k) c).key? = some k := by
        rw [Function.update_self]
        rfl
      exact ((Runner.mem_prepare h.consistent .blockGraphs).mp
        (hnew c k hphase .blockGraphs)).2
    · have hne : c' ≠ c := by
        rintro rfl
        rw [hidle] at hready
        cases hready
      have hphase : (Function.update s.phase c (.ready key) c').key? = some k := by
        rw [Function.update_of_ne hne, hready]
        rfl
      exact ((Runner.mem_prepare h.consistent .blockGraphs).mp
        (hnew c' k hphase .blockGraphs)).2
  · intro hspares c' k hphase t
    refine (Runner.mem_prepare h.consistent t).mpr ?_
    change (Function.update s.phase c (.ready key) c').key? = some k at hphase
    by_cases hc : c' = c
    · subst hc
      rw [Function.update_self] at hphase
      obtain rfl : key = k := Option.some.inj hphase
      exact ⟨.inl rfl, hspares key (.inl rfl)⟩
    · rw [Function.update_of_ne hc] at hphase
      refine ⟨.inr (hfound c' k hphase t), ?_⟩
      cases hold : s.phase c' with
      | idle =>
        rw [hold] at hphase
        cases hphase
      | ready k' =>
        rw [hold] at hphase
        obtain rfl : k' = k := Option.some.inj hphase
        exact hspares k' (.inr ⟨c', hold⟩)
      | replaying k' =>
        rw [hold] at hphase
        obtain rfl : k' = k := Option.some.inj hphase
        intro hretire
        have hzero := Runner.idle_of_toRetire hretire
        have hbusy := mem_inflight h hold
        omega

theorem step_found {s s' : State Key Caller} {a : Action Key Caller} (h : Sound s)
    (hfound : Found s) (hspares : Spares s a) (hstep : Step s a s') : Found s' := by
  have hkeep {r : Runner Key} {c : Caller} {p : Phase Key} (htables : r.tables = s.runner.tables)
      (hp : ∀ key, p.key? = some key → (s.phase c).key? = some key) :
      Found ⟨r, Function.update s.phase c p⟩ := by
    intro c' key hphase t
    show key ∈ r.tables t
    rw [htables]
    change (Function.update s.phase c p c').key? = some key at hphase
    by_cases hc : c' = c
    · subst hc
      rw [Function.update_self] at hphase
      exact hfound c' key (hp key hphase) t
    · rw [Function.update_of_ne hc] at hphase
      exact hfound c' key hphase t
  cases hstep with
  | prepare c key hidle => exact (prepare_keeps_iff h hfound hidle).mpr hspares
  | enter c key hready =>
    refine hkeep rfl fun k hk => ?_
    rw [hready]
    exact hk
  | leave c key hreplaying => exact hkeep rfl fun k hk => by cases hk

/-- In a run whose requests all spare the keys that are waited for, every caller finds what it
needs; and in no run is a key retired while it is being replayed. -/
theorem graphs_found (defaultMaxGraphs : Int) :
    (∀ s : State Key Caller, (system Key Caller defaultMaxGraphs).Reaches Spares s →
      ∀ c key, (s.phase c).key? = some key → ∀ t, key ∈ s.runner.tables t) ∧
    ∀ (s s' : State Key Caller) (a : Action Key Caller),
      (system Key Caller defaultMaxGraphs).Reachable s → Step s a s' →
        ∀ key t, 0 < s.runner.inflight key → key ∈ s.runner.tables t →
          key ∈ s'.runner.tables t := by
  constructor
  · intro s h
    refine h.invariant_of_reachable Found (fun _ => reachable_sound) ?_ ?_
    · intro s hstart c key hphase
      have hs : s = ⟨.new defaultMaxGraphs, fun _ => .idle⟩ := hstart
      rw [hs] at hphase
      cases hphase
    · intro s a s' hsound hfound hspares hstep
      exact step_found hsound hfound hspares hstep
  · intro s s' a h hstep key t hbusy hmem
    exact inflight_kept (reachable_sound h) hstep hbusy hmem

/-- After one request, with room for sixteen graphs. -/
def sampleReady : State Nat Bool :=
  ⟨(Runner.new 16).prepare 0, Function.update (fun _ => .idle) false (.ready 0)⟩

theorem graphs_found_sample : ∀ t, 0 ∈ sampleReady.runner.tables t :=
  (graphs_found 16).1 sampleReady
    (.step (a := .prepare false 0) (.start rfl)
      (by
        rintro k (rfl | ⟨c, hc⟩)
        · decide
        · cases hc)
      (.prepare _ false 0 rfl))
    false 0 rfl

/-- With room for one graph, a second caller's request retires the graph that the first caller
is about to replay. -/
theorem graphs_lost :
    ¬ ∀ defaultMaxGraphs : Int, 1 ≤ defaultMaxGraphs → ∀ s : State Nat Bool,
      (system Nat Bool defaultMaxGraphs).Reachable s →
        ∀ c key, (s.phase c).key? = some key → key ∈ s.runner.tables .blockGraphs := by
  intro h
  have hfirst : (system Nat Bool 1).Reachable
      ⟨(Runner.new 1).prepare 0, Function.update (fun _ => .idle) false (.ready 0)⟩ :=
    .step (a := .prepare false 0) (.start rfl) trivial (.prepare _ false 0 rfl)
  have hsecond : (system Nat Bool 1).Reachable
      ⟨((Runner.new 1).prepare 0).prepare 1, Function.update
        (Function.update (fun _ => .idle) false (.ready 0)) true (.ready 1)⟩ :=
    .step (a := .prepare true 1) hfirst trivial (.prepare _ true 1 rfl)
  have hmem := h 1 le_rfl _ hsecond false 0 rfl
  exact absurd hmem (by decide)

end Vit
end FlashNext
