import FlashNext.Effect.System
import FlashNext.Qsa.Forward
import Mathlib.Data.Nat.ModEq

/-!
# Index keys under chain speculation

The run of one request of the target model: extends of whole groups, the last one of any length,
then decodes and target verifies, of which any number of rows is accepted.  `Holds` says that the
pool agrees with the accepted tokens.  A verify whose window ends with the pending group keeps it.
One that reaches further stores its last rows over the keys of the pending group's first tokens,
before that group is compressed: `verify_holds_iff` is the exact condition, `Fits`.
-/

namespace FlashNext
namespace Qsa

variable {Key : Type} {l : Layout}

structure State (Key : Type) where
  pool : Pool Key
  accepted : List Key

inductive Action (Key : Type) where
  | extend (keys : List Key)
  | decode (graph : Bool) (key : Key)
  | verify (graph : Bool) (spec : SpecInfo) (keys : List Key) (accept : Nat)

def Step (l : Layout) (dev : Device Key) (s : State Key) (a : Action Key) (s' : State Key) :
    Prop :=
  match a with
  | .extend keys =>
    s.accepted.length % l.ratio = 0 ∧
      l.extendForward dev s.accepted.length keys s.pool = .ok s'.pool ∧
      s'.accepted = s.accepted ++ keys
  | .decode graph key =>
    l.pagedForward dev graph s.accepted.length [key] s.pool = .ok s'.pool ∧
      s'.accepted = s.accepted ++ [key]
  | .verify graph spec keys accept =>
    requireChainSpeculation l.ratio spec = .ok () ∧
      keys.length = spec.draftTokens ∧ 1 ≤ accept ∧ accept ≤ keys.length ∧
      l.pagedForward dev graph s.accepted.length keys s.pool = .ok s'.pool ∧
      s'.accepted = s.accepted ++ keys.take accept

/-- The request starts on a pool with anything in it. -/
def target (l : Layout) (dev : Device Key) : Effect.System (State Key) (Action Key) where
  start s := s.accepted = []
  step := Step l dev

/-- Each complete group of accepted tokens is compressed from exactly their keys, and the ring
holds the keys of the accepted tokens of the pending group. -/
structure Holds (l : Layout) (s : State Key) : Prop where
  compressed : ∀ g, (g + 1) * l.ratio ≤ s.accepted.length →
    s.pool.compressed (l.groupSlot g) = (s.accepted.drop (g * l.ratio)).take l.ratio
  pending : ∀ p < s.accepted.length, s.accepted.length / l.ratio * l.ratio ≤ p →
    s.accepted[p]? = some (s.pool.keyState (l.ringSlot p))

/-- A row past the end of the pending group has the key of the accepted token it overwrites. -/
def Fits (l : Layout) (accepted keys : List Key) : Prop :=
  ∀ j < keys.length, (accepted.length / l.ratio + 1) * l.ratio ≤ accepted.length + j →
    keys[j]? = accepted[accepted.length + j - l.ratio]?

/-- What a run's verifies are asked for. -/
def FitsAt (l : Layout) (s : State Key) : Action Key → Prop
  | .verify _ _ keys _ => Fits l s.accepted keys
  | _ => True

/-! ## Ring slots -/

theorem ringSlot_inj {p q : Nat} : l.ringSlot p = l.ringSlot q ↔ p % l.ratio = q % l.ratio :=
  Nat.add_left_cancel_iff

/-- Positions less than two ratios apart share a ring slot only when they are one ratio apart. -/
theorem eq_add_ratio_of_ringSlot {p q : Nat} (hpq : p < q) (hlt : q < p + 2 * l.ratio)
    (h : l.ringSlot p = l.ringSlot q) : q = p + l.ratio := by
  have hdvd : l.ratio ∣ q - p :=
    (Nat.modEq_iff_dvd' (Nat.le_of_lt hpq)).mp (ringSlot_inj.mp h)
  obtain ⟨c, hc⟩ := hdvd
  have hpos : c ≠ 0 := by
    rintro rfl
    rw [Nat.mul_zero] at hc
    omega
  have htwo : c < 2 := by
    by_contra hge
    have hmul : l.ratio * 2 ≤ l.ratio * c := Nat.mul_le_mul_left _ (Nat.le_of_not_lt hge)
    omega
  obtain rfl : c = 1 := by omega
  omega

/-- The rows of a window no wider than the ratio have ring slots of their own. -/
theorem eq_of_ringSlot_window {start i j : Nat} (hi : i < l.ratio) (hj : j < l.ratio)
    (h : l.ringSlot (start + i) = l.ringSlot (start + j)) : i = j := by
  rcases Nat.lt_trichotomy i j with hlt | heq | hlt
  · have := eq_add_ratio_of_ringSlot (by omega) (by omega) h
    omega
  · exact heq
  · have := eq_add_ratio_of_ringSlot (by omega) (by omega) h.symm
    omega

theorem mem_group {p : Nat} : p / l.ratio * l.ratio ≤ p ∧ p < (p / l.ratio + 1) * l.ratio := by
  refine ⟨Nat.div_mul_le_self p l.ratio, ?_⟩
  rw [Nat.mul_comm]
  exact Nat.lt_mul_div_succ p l.ratio_pos

theorem div_eq_of_mem_group {p g : Nat} (hlow : g * l.ratio ≤ p) (hhigh : p < (g + 1) * l.ratio) :
    p / l.ratio = g :=
  Nat.div_eq_of_lt_le hlow hhigh

theorem map_range_eq_take_drop {f : Nat → Key} {xs : List Key} {m r : Nat} :
    (List.range r).map f = (xs.drop m).take r ↔ ∀ k < r, xs[m + k]? = some (f k) := by
  rw [List.ext_getElem?_iff]
  constructor
  · intro h k hk
    have hget := h k
    rw [List.getElem?_map, List.getElem?_range hk, List.getElem?_take_of_lt hk,
      List.getElem?_drop] at hget
    exact hget.symm
  · intro h k
    by_cases hk : k < r
    · rw [List.getElem?_map, List.getElem?_range hk, List.getElem?_take_of_lt hk,
        List.getElem?_drop, h k hk]
      rfl
    · have hle : r ≤ k := Nat.le_of_not_lt hk
      rw [List.getElem?_map, List.getElem?_eq_none (by simpa using hle),
        List.getElem?_take_eq_none hle]
      rfl

/-! ## Paged steps -/

section Paged

variable {keyState : Nat → Key} {accepted keys : List Key} {accept : Nat}

theorem pagedKeyState_row (hwindow : keys.length ≤ l.ratio) {start j : Nat}
    (hj : j < keys.length) :
    pagedKeyState l keyState start keys (l.ringSlot (start + j)) = keys[j] :=
  Tensor.scatter_rows hj fun _ hj' h => eq_of_ringSlot_window (by omega) (by omega) h

theorem pagedKeyState_kept {start p : Nat}
    (h : ∀ j < keys.length, l.ringSlot (start + j) ≠ l.ringSlot p) :
    pagedKeyState l keyState start keys (l.ringSlot p) = keyState (l.ringSlot p) :=
  Tensor.scatter_rows_of_ne h

/-- Tokens accepted later leave a complete group's keys as they are. -/
theorem take_drop_append {xs ys : List Key} {g r : Nat} (h : (g + 1) * r ≤ xs.length) :
    ((xs ++ ys).drop (g * r)).take r = (xs.drop (g * r)).take r := by
  rw [Nat.succ_mul] at h
  rw [List.drop_append_of_le_length (by omega), List.take_append_of_le_length]
  rw [List.length_drop]
  omega

/-- The ring agrees with the accepted tokens from the pending group on. -/
theorem pending_of_fits (hwindow : keys.length ≤ l.ratio) (haccept : accept ≤ keys.length)
    (hpending : ∀ p < accepted.length, accepted.length / l.ratio * l.ratio ≤ p →
      accepted[p]? = some (keyState (l.ringSlot p)))
    (hfits : Fits l accepted keys) {p : Nat} (hp : p < accepted.length + accept)
    (hlow : accepted.length / l.ratio * l.ratio ≤ p) :
    (accepted ++ keys.take accept)[p]? =
      some (pagedKeyState l keyState accepted.length keys (l.ringSlot p)) := by
  have hgroup := mem_group (l := l) (p := accepted.length)
  rw [Nat.succ_mul] at hgroup
  by_cases hold : p < accepted.length
  · rw [List.getElem?_append_left hold]
    by_cases hover : ∃ j < keys.length, l.ringSlot (accepted.length + j) = l.ringSlot p
    · obtain ⟨j, hj, hslot⟩ := hover
      have hrow : accepted.length + j = p + l.ratio :=
        eq_add_ratio_of_ringSlot (by omega) (by omega) hslot.symm
      have hpast : (accepted.length / l.ratio + 1) * l.ratio ≤ accepted.length + j := by
        rw [Nat.succ_mul]
        omega
      have hkey := hfits j hj hpast
      rw [hrow, Nat.add_sub_cancel, List.getElem?_eq_getElem hj] at hkey
      rw [← hslot, pagedKeyState_row hwindow hj, hkey]
    · rw [pagedKeyState_kept fun j hj hslot => hover ⟨j, hj, hslot⟩]
      exact hpending p hold hlow
  · have hge : accepted.length ≤ p := Nat.le_of_not_lt hold
    have hj : p - accepted.length < keys.length := by omega
    have hnew : pagedKeyState l keyState accepted.length keys
        (l.ringSlot (accepted.length + (p - accepted.length))) = keys[p - accepted.length] :=
      pagedKeyState_row hwindow hj
    rw [Nat.add_sub_cancel' hge] at hnew
    rw [List.getElem?_append_right hge, List.getElem?_take_of_lt (by omega),
      List.getElem?_eq_getElem hj, hnew]

theorem paged_holds {s : State Key} {pool : Pool Key} {dev : Device Key} {graph : Bool}
    (hs : Holds l s) (hwindow : keys.length ≤ l.ratio) (haccept : accept ≤ keys.length)
    (hpool : l.pagedForward dev graph s.accepted.length keys s.pool = .ok pool)
    (hfits : Fits l s.accepted keys) : Holds l ⟨pool, s.accepted ++ keys.take accept⟩ := by
  obtain ⟨writes, hforward, hwrites⟩ :=
    update_paged (l := l) dev graph s.accepted.length keys s.pool
  obtain rfl := Except.ok.inj (hpool.symm.trans hforward)
  have hlength : (s.accepted ++ keys.take accept).length = s.accepted.length + accept := by
    rw [List.length_append, List.length_take, Nat.min_eq_left haccept]
  have hring {p : Nat} (hp : p < s.accepted.length + accept) :=
    pending_of_fits hwindow haccept hs.pending hfits hp
  constructor
  · intro g hg
    rw [hlength] at hg
    by_cases hold : (g + 1) * l.ratio ≤ s.accepted.length
    · -- The group was complete before, and no row ends it again.
      have hnone : ¬ Completes l s.accepted.length keys.length g := by
        rintro ⟨j, -, hend⟩
        omega
      rw [take_drop_append hold]
      exact (hwrites.kept hnone).trans (hs.compressed g hold)
    · have hends : Completes l s.accepted.length keys.length g :=
        ⟨(g + 1) * l.ratio - s.accepted.length - 1, by omega, by omega⟩
      have hstart : s.accepted.length / l.ratio = g := by
        refine div_eq_of_mem_group ?_ (Nat.lt_of_not_le hold)
        rw [Nat.succ_mul] at hg
        omega
      refine (hwrites.stored hends).trans (map_range_eq_take_drop.mpr fun k hk => ?_)
      refine hring ?_ ?_
      · rw [Nat.succ_mul] at hg
        omega
      · rw [hstart]
        exact Nat.le_add_right _ _
  · intro p hp hlow
    rw [hlength] at hp hlow
    refine hring hp (Nat.le_trans ?_ hlow)
    exact Nat.mul_le_mul_right _ (Nat.div_le_div_right (Nat.le_add_right _ _))

/-- The keys that a window stores over pending ones must be equal to them. -/
theorem fits_of_paged {s : State Key} {pool : Pool Key} {dev : Device Key} {graph : Bool}
    (hwindow : keys.length ≤ l.ratio) (haccept : accept ≤ keys.length)
    (hpool : l.pagedForward dev graph s.accepted.length keys s.pool = .ok pool)
    (hafter : Holds l ⟨pool, s.accepted ++ keys.take accept⟩) : Fits l s.accepted keys := by
  obtain ⟨writes, hforward, hwrites⟩ :=
    update_paged (l := l) dev graph s.accepted.length keys s.pool
  obtain rfl := Except.ok.inj (hpool.symm.trans hforward)
  have hlength : (s.accepted ++ keys.take accept).length = s.accepted.length + accept := by
    rw [List.length_append, List.length_take, Nat.min_eq_left haccept]
  intro j hj hpast
  have hgroup := mem_group (l := l) (p := s.accepted.length)
  rw [Nat.succ_mul] at hgroup hpast
  have hrow : pagedKeyState l s.pool.keyState s.accepted.length keys
      (l.ringSlot (s.accepted.length + j - l.ratio)) = keys[j] := by
    have hslot : l.ringSlot (s.accepted.length + j - l.ratio) =
        l.ringSlot (s.accepted.length + j) :=
      ringSlot_inj.mpr (Nat.mod_eq_sub_mod (by omega)).symm
    rw [hslot]
    exact pagedKeyState_row hwindow hj
  have hold : s.accepted.length + j - l.ratio < s.accepted.length := by omega
  rw [← List.getElem?_append_left hold, List.getElem?_eq_getElem hj, ← hrow]
  symm
  by_cases hopen : s.accepted.length + accept < (s.accepted.length / l.ratio + 1) * l.ratio
  · -- The group is still pending: the ring has to hold its key.
    refine hafter.pending _ (by rw [hlength]; omega) ?_
    rw [hlength, div_eq_of_mem_group (by omega) hopen]
    omega
  · -- The group is complete: it was compressed with the key in the ring.
    have hends : Completes l s.accepted.length keys.length (s.accepted.length / l.ratio) := by
      refine ⟨(s.accepted.length / l.ratio + 1) * l.ratio - s.accepted.length - 1, ?_, ?_⟩
      · rw [Nat.succ_mul]
        omega
      · rw [Nat.succ_mul]
        omega
    have hcompressed := hafter.compressed (s.accepted.length / l.ratio)
      (by rw [hlength]; exact Nat.le_of_not_lt hopen)
    have hmembers := map_range_eq_take_drop.mp ((hwrites.stored hends).symm.trans hcompressed)
      (s.accepted.length + j - l.ratio - s.accepted.length / l.ratio * l.ratio) (by omega)
    rw [Nat.add_sub_cancel' (by omega)] at hmembers
    exact hmembers

end Paged

/-- A window that ends with the pending group fits whatever its keys are. -/
theorem fits_of_within {accepted keys : List Key}
    (h : accepted.length % l.ratio + keys.length ≤ l.ratio) : Fits l accepted keys := by
  intro j hj hpast
  have hdiv := Nat.div_add_mod' accepted.length l.ratio
  rw [Nat.succ_mul] at hpast
  omega

/-! ## Extends -/

section Extend

variable {keyState : Nat → Key} {keys : List Key}

/-- The tail that no group of the chunk takes is in the ring. -/
theorem chunkKeyState_tail {start j : Nat} (hj : j < keys.length)
    (hpending : (start + keys.length) / l.ratio * l.ratio ≤ start + j) :
    chunkKeyState l keyState start keys (l.ringSlot (start + j)) = keys[j] := by
  have hslot : chunkSlot l start keys.length j = l.ringSlot (start + j) := if_pos hpending
  have hgroup := mem_group (l := l) (p := start + keys.length)
  rw [Nat.succ_mul] at hgroup
  rw [← hslot]
  refine Tensor.scatter_rows hj fun i hi heq => ?_
  rw [hslot] at heq
  by_cases htail : (start + keys.length) / l.ratio * l.ratio ≤ start + i
  · rw [chunkSlot, if_pos htail] at heq
    rcases Nat.lt_trichotomy i j with hlt | heq' | hlt
    · have := eq_add_ratio_of_ringSlot (by omega) (by omega) heq
      omega
    · exact heq'
    · have := eq_add_ratio_of_ringSlot (by omega) (by omega) heq.symm
      omega
  · -- The other tokens went to the rows of request slot 0.
    rw [chunkSlot, if_neg htail, Layout.ringSlot] at heq
    have hmod := Nat.mod_lt (start + i) l.ratio_pos
    have hrequest : 1 * l.ratio ≤ l.request * l.ratio :=
      Nat.mul_le_mul_right _ (Nat.one_le_iff_ne_zero.mpr l.request_ne_zero)
    omega

theorem extend_holds {s : State Key} {pool : Pool Key} {dev : Device Key} (hs : Holds l s)
    (haligned : s.accepted.length % l.ratio = 0)
    (hpool : l.extendForward dev s.accepted.length keys s.pool = .ok pool) :
    Holds l ⟨pool, s.accepted ++ keys⟩ := by
  obtain rfl := update_extend hpool
  have hwrites := chunkWrites_compresses dev keys haligned
  have hstart : s.accepted.length / l.ratio * l.ratio = s.accepted.length :=
    Nat.div_mul_cancel (Nat.dvd_of_mod_eq_zero haligned)
  have hlength : (s.accepted ++ keys).length = s.accepted.length + keys.length :=
    List.length_append
  constructor
  · intro g hg
    rw [hlength] at hg
    by_cases hold : (g + 1) * l.ratio ≤ s.accepted.length
    · have hnone : ¬ (s.accepted.length / l.ratio ≤ g ∧
          g < (s.accepted.length + keys.length) / l.ratio) := by
        rintro ⟨hlow, -⟩
        have hmul := Nat.mul_le_mul_right l.ratio hlow
        have hpos := l.ratio_pos
        rw [Nat.succ_mul] at hold
        omega
      rw [take_drop_append hold]
      exact (hwrites.kept hnone).trans (hs.compressed g hold)
    · have hlow : s.accepted.length / l.ratio ≤ g := by
        refine Nat.le_of_lt_succ ((Nat.div_lt_iff_lt_mul l.ratio_pos).mpr ?_)
        exact Nat.lt_of_not_le hold
      have hhigh : g < (s.accepted.length + keys.length) / l.ratio :=
        (Nat.le_div_iff_mul_le l.ratio_pos).mpr hg
      refine (hwrites.stored ⟨hlow, hhigh⟩).trans (map_range_eq_take_drop.mpr fun k hk => ?_)
      have hmul := Nat.mul_le_mul_right l.ratio hlow
      rw [Nat.succ_mul] at hg
      have hrow : g * l.ratio + k - s.accepted.length = g * l.ratio - s.accepted.length + k := by
        omega
      have hin : g * l.ratio - s.accepted.length + k < keys.length := by omega
      rw [List.getElem?_append_right (by omega), hrow, List.getElem?_eq_getElem hin,
        List.getD_eq_getElem _ _ hin]
  · intro p hp hlow
    rw [hlength] at hp hlow
    have hge : s.accepted.length ≤ p := by
      have hdiv : s.accepted.length / l.ratio ≤ (s.accepted.length + keys.length) / l.ratio :=
        Nat.div_le_div_right (Nat.le_add_right _ _)
      have hmul := Nat.mul_le_mul_right l.ratio hdiv
      omega
    have hj : p - s.accepted.length < keys.length := by omega
    have htail : chunkKeyState l s.pool.keyState s.accepted.length keys
        (l.ringSlot (s.accepted.length + (p - s.accepted.length))) =
          keys[p - s.accepted.length] :=
      chunkKeyState_tail hj (by rw [Nat.add_sub_cancel' hge]; exact hlow)
    rw [Nat.add_sub_cancel' hge] at htail
    rw [List.getElem?_append_right hge, List.getElem?_eq_getElem hj]
    exact congrArg some htail.symm

end Extend

/-! ## Runs -/

theorem window_of_admitted {spec : SpecInfo} (h : requireChainSpeculation l.ratio spec = .ok ()) :
    spec.draftTokens ≤ l.ratio := by
  simp only [requireChainSpeculation, Effect.bind_ok, Effect.reject_ok] at h
  obtain ⟨-, -, hwindow⟩ := h
  exact Nat.le_of_not_lt (of_decide_eq_false hwindow)

/-- After a verify the pool agrees with the accepted tokens if and only if the window fits. -/
theorem verify_holds_iff {s s' : State Key} {dev : Device Key} {graph : Bool} {spec : SpecInfo}
    {keys : List Key} {accept : Nat} (hs : Holds l s)
    (hstep : Step l dev s (.verify graph spec keys accept) s') :
    Holds l s' ↔ Fits l s.accepted keys := by
  obtain ⟨hspec, hlength, -, haccept, hpool, haccepted⟩ := hstep
  have hwindow : keys.length ≤ l.ratio := hlength ▸ window_of_admitted hspec
  obtain ⟨pool, accepted⟩ := s'
  obtain rfl : accepted = s.accepted ++ keys.take accept := haccepted
  exact ⟨fits_of_paged hwindow haccept hpool, paged_holds hs hwindow haccept hpool⟩

theorem step_holds {s s' : State Key} {a : Action Key} {dev : Device Key} (hs : Holds l s)
    (hfits : FitsAt l s a) (hstep : Step l dev s a s') : Holds l s' := by
  cases a with
  | extend keys =>
    obtain ⟨haligned, hpool, haccepted⟩ := hstep
    obtain ⟨pool, accepted⟩ := s'
    obtain rfl : accepted = s.accepted ++ keys := haccepted
    exact extend_holds hs haligned hpool
  | decode graph key =>
    obtain ⟨hpool, haccepted⟩ := hstep
    obtain ⟨pool, accepted⟩ := s'
    obtain rfl : accepted = s.accepted ++ [key].take 1 := haccepted
    have hwithin : s.accepted.length % l.ratio + [key].length ≤ l.ratio :=
      Nat.mod_lt _ l.ratio_pos
    exact paged_holds hs l.ratio_pos (Nat.le_refl 1) hpool (fits_of_within hwithin)
  | verify graph spec keys accept => exact (verify_holds_iff hs hstep).mpr hfits

/-- In every run whose verifies all fit, the pool agrees with the accepted tokens. -/
theorem index_keys_hold {dev : Device Key} {s : State Key}
    (hs : (target l dev).Reaches (FitsAt l) s) : Holds l s := by
  refine hs.invariant (fun s hstart => ?_) fun s a s' => step_holds
  obtain ⟨pool, accepted⟩ := s
  obtain rfl : accepted = [] := hstart
  refine ⟨fun g hg => ?_, fun p hp => absurd hp (Nat.not_lt_zero p)⟩
  have hratio := l.ratio_pos
  rw [List.length_nil, Nat.succ_mul] at hg
  omega

/-! ### A request with groups of two -/

def sampleLayout : Layout where
  ratio := 2
  pageSize := 2
  request := 1
  page i := i + 1
  two_le_ratio := Nat.le_refl 2
  ratio_dvd := Nat.dvd_refl 2
  pageSize_pos := Nat.two_pos
  request_ne_zero := Nat.one_ne_zero
  page_ne_zero := Nat.succ_ne_zero
  page_injective := Nat.succ_injective

def sampleDevice : Device Nat := ⟨false, fun _ => 0⟩

def sampleStart : State Nat := ⟨⟨fun _ => 0, fun _ => []⟩, []⟩

/-- The pool after a forward, or the one before it when the forward fails. -/
def sampleForward (pool : Pool Nat) : Except String (Pool Nat) → Pool Nat
  | .ok pool' => pool'
  | .error _ => pool

/-- A prompt of three tokens leaves one in the ring. -/
def sampleExtended : State Nat :=
  ⟨sampleForward sampleStart.pool
    (sampleLayout.extendForward sampleDevice 0 [10, 11, 12] sampleStart.pool), [10, 11, 12]⟩

def sampleVerified (graph : Bool) (keys : List Nat) : State Nat :=
  ⟨sampleForward sampleExtended.pool
    (sampleLayout.pagedForward sampleDevice graph 3 keys sampleExtended.pool),
    [10, 11, 12] ++ keys.take 1⟩

theorem sampleExtended_reaches (allowed : State Nat → Action Nat → Prop)
    (hallowed : allowed sampleStart (.extend [10, 11, 12])) :
    (target sampleLayout sampleDevice).Reaches allowed sampleExtended :=
  .step (.start (s := sampleStart) rfl) hallowed ⟨rfl, rfl, rfl⟩

/-- A window of one row ends with the group. -/
theorem index_keys_hold_sample :
    (sampleVerified true [13]).pool.compressed (sampleLayout.groupSlot 1) = [12, 13] :=
  have hfits : Fits sampleLayout sampleExtended.accepted [13] := fits_of_within (by decide)
  (index_keys_hold (.step (sampleExtended_reaches (FitsAt sampleLayout) trivial) hfits
    (a := .verify true ⟨some 1, some 1⟩ [13] 1)
    ⟨rfl, rfl, by decide, by decide, rfl, rfl⟩)).compressed 1 (by decide)

/-- The second row of a window of two is stored over token 2, and its group is compressed with
the rejected row's key. -/
theorem index_keys_lost :
    ¬ ∀ (l : Layout) (dev : Device Nat) (s : State Nat), (target l dev).Reachable s →
      Holds l s := by
  intro h
  have hs : (target sampleLayout sampleDevice).Reachable (sampleVerified false [20, 30]) :=
    .step (sampleExtended_reaches _ trivial) trivial
      (a := .verify false ⟨some 1, some 2⟩ [20, 30] 1)
      ⟨rfl, rfl, by decide, by decide, rfl, rfl⟩
  have hgroup := (h _ _ _ hs).compressed 1 (by decide)
  exact absurd hgroup (by decide)

end Qsa
end FlashNext
