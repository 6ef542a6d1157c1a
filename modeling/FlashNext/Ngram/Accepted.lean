import FlashNext.Ngram.Runs

/-!
# What a pass leaves in a slot

A pass that is no verification appends the tokens of a request to the history of its slot and takes
the snapshots of it (`slots_after_pass`).  A verification changes no slot; the acceptance behind it
appends the tokens up to the last correct one, and nothing of the others (`slot_after_accept`).
-/

namespace FlashNext
namespace Ngram

open Effect
open Tensor (Stored lastOf)

variable {β : Type} {S : PoolShape} {p p' : Pool β}

/-! ## Stores to a slot -/

section

variable {indices : List Nat} {rows : List β} {writes : List (Nat × β)} {m m' : Nat → β}
  {slot r : Nat}

theorem setContext_ok (h : setContext S indices rows = .ok writes) :
    indices.length = rows.length ∧ writes = indices.zip rows := by
  simp only [setContext, bind_ok, pure_ok, require_ok, beq_iff_eq] at h
  obtain ⟨-, -, -, hlen, rfl⟩ := h
  exact ⟨hlen, rfl⟩

/-- The slot of one row keeps that row. -/
theorem setContext_row (h : setContext S indices rows = .ok writes) (hm : Stored writes m m')
    (hslot : indices[r]? = some slot) (halone : ∀ r', indices[r']? = some slot → r' = r) {x : β}
    (hx : rows[r]? = some x) : m' slot = x := by
  obtain ⟨-, rfl⟩ := setContext_ok h
  have hmem : (slot, x) ∈ indices.zip rows :=
    List.mem_iff_getElem?.mpr ⟨r, List.getElem?_zip_eq_some.mpr ⟨hslot, hx⟩⟩
  refine hm.eq_of_mem hmem fun w hw hwslot => ?_
  obtain ⟨r', hr'⟩ := List.mem_iff_getElem?.mp hw
  obtain ⟨hi, hy⟩ := List.getElem?_zip_eq_some.mp hr'
  obtain rfl := halone r' (hwslot ▸ hi)
  exact Option.some.inj (hy.symm.trans hx)

theorem setContext_other (h : setContext S indices rows = .ok writes) (hm : Stored writes m m')
    (hslot : slot ∉ indices) : m' slot = m slot := by
  obtain ⟨-, rfl⟩ := setContext_ok h
  refine hm.eq_of_notMem fun w hw hwslot => hslot ?_
  rw [← hwslot]
  exact (List.of_mem_zip hw).1

end

/-! ## An acceptance -/

section

variable {draftTokens : Nat} {dst steps : List Int} {writes : List (Nat × β)}

/-- What is stored of the staged rows. -/
theorem mem_scatterWithMask (h : scatterWithMask S p draftTokens dst steps = .ok writes)
    {slot : Nat} {x : β} : (slot, x) ∈ writes ↔ ∃ row step : Nat, dst[row]? = some (slot : Int) ∧
      steps[row]? = some (step : Int) ∧ (step < draftTokens ∧ slot < S.slots ∧ row < S.specRows) ∧
        x = p.intermediate row step := by
  unfold scatterWithMask at h
  split at h
  · next hempty =>
    obtain rfl := pure_ok.mp h
    obtain rfl := List.isEmpty_iff.mp hempty
    constructor
    · intro hmem
      cases hmem
    · rintro ⟨row, step, -, hstep, -⟩
      cases hstep
  · simp only [bind_ok, pure_ok] at h
    obtain ⟨-, -, rfl⟩ := h
    rw [List.mem_filterMap]
    constructor
    · rintro ⟨⟨⟨slot', step⟩, row⟩, hmem, hsome⟩
      obtain ⟨hdst, hstep⟩ := List.getElem?_zip_eq_some.mp (List.mem_zipIdx_iff_getElem?.mp hmem)
      dsimp only at hdst hstep hsome
      split at hsome
      · next hin =>
        obtain ⟨hstep0, hlt, hslot0, hslot, hrow⟩ := hin
        obtain ⟨rfl, rfl⟩ := Prod.mk.inj (Option.some.inj hsome)
        refine ⟨row, step.toNat, ?_, ?_, ⟨by omega, by omega, hrow⟩, rfl⟩
        · rw [hdst, Int.toNat_of_nonneg hslot0]
        · rw [hstep, Int.toNat_of_nonneg hstep0]
      · cases hsome
    · rintro ⟨row, step, hdst, hstep, ⟨hlt, hslot, hrow⟩, rfl⟩
      refine ⟨(((slot : Int), (step : Int)), row), ?_, ?_⟩
      · exact List.mem_zipIdx_iff_getElem?.mpr (List.getElem?_zip_eq_some.mpr ⟨hdst, hstep⟩)
      · dsimp only
        rw [if_pos (by omega)]
        rfl

/-- A row of an acceptance whose slot no other row has. -/
structure Accept.Row (a : Accept) (row slot step : Nat) : Prop where
  slot_eq : a.stateIndices[row]? = some (slot : Int)
  step_eq : a.lastCorrectSteps[row]? = some (step : Int)
  alone : ∀ row', a.stateIndices[row']? = some (slot : Int) → row' = row
  untracked : ∀ track ∈ a.trackIndices, (slot : Int) ∉ track

variable {a : Accept} {c : Change β} {row slot step : Nat}

theorem scatterWithMask_row (h : scatterWithMask S p draftTokens a.stateIndices a.lastCorrectSteps =
      .ok writes) (hrow : a.Row row slot step)
    (hin : step < draftTokens ∧ slot < S.slots ∧ row < S.specRows) {m m' : Nat → β}
    (hm : Stored writes m m') : m' slot = p.intermediate row step := by
  have hmem : (slot, p.intermediate row step) ∈ writes :=
    (mem_scatterWithMask h).mpr ⟨row, step, hrow.slot_eq, hrow.step_eq, hin, rfl⟩
  refine hm.eq_of_mem hmem fun w hw hslot => ?_
  obtain ⟨slot', x⟩ := w
  obtain rfl : slot' = slot := hslot
  obtain ⟨row', step', hdst, hstep, -, rfl⟩ := (mem_scatterWithMask h).mp hw
  obtain rfl := hrow.alone row' hdst
  have hsame := Option.some.inj (hstep.symm.trans hrow.step_eq)
  rw [Int.ofNat_inj.mp hsame]

/-- An acceptance puts the staged row of the last correct step into the slot. -/
theorem updateAfterVerify_row (h : updateAfterVerify S p a = .ok c)
    (hdraft : S.draftTokens = some draftTokens) (hrow : a.Row row slot step)
    (hin : step < draftTokens ∧ slot < S.slots ∧ row < S.specRows) (hc : c.Applied p p') :
    p'.context slot = p.intermediate row step := by
  simp only [updateAfterVerify, hdraft, bind_ok] at h
  obtain ⟨-, -, accepted, haccepted, h⟩ := h
  split at h
  · next track steps htrack hsteps =>
    simp only [bind_ok, pure_ok] at h
    obtain ⟨tracked, htracked, rfl⟩ := h
    obtain ⟨mid, hmid, mid', hmid', hend⟩ := hc.context
    have hend : p'.context = mid' := hend
    rw [hend, hmid'.eq_of_notMem fun w hw hslot => ?_, scatterWithMask_row haccepted hrow hin hmid]
    obtain ⟨slot', x⟩ := w
    obtain rfl : slot' = slot := hslot
    obtain ⟨row', step', hdst, -⟩ := (mem_scatterWithMask htracked).mp hw
    exact hrow.untracked track htrack (List.mem_of_getElem? hdst)
  · obtain rfl := pure_ok.mp h
    obtain ⟨mid, hmid, hend⟩ := hc.context
    have hend : p'.context = mid := hend
    rw [hend, scatterWithMask_row haccepted hrow hin hmid]

end

/-! ## Histories after a pass -/

section

variable {α : Type} {E : Setting} {fb : ForwardBatch} {l : Layout} {history : Nat → List α}
  {xs : List α} {c : Change (List α)} {q q' : Pool (List α)} {r slot : Nat}

/-- No other row of the pass has the slot. -/
def Layout.Owns (l : Layout) (r slot : Nat) : Prop :=
  l.stateIndices[r]? = some slot ∧ ∀ r', l.stateIndices[r']? = some slot → r' = r

/-- The snapshots of the pass leave the slot alone. -/
def Untracked (E : Setting) (fb : ForwardBatch) (l : Layout) (slot : Nat) : Prop :=
  ∀ track offsets, trackTargets E fb l = .ok (some (track, offsets)) → slot ∉ track

theorem grown_lengths (hslot : l.stateIndices[r]? = some slot) :
    grown l history xs r (l.lengths.getD r 0) = history slot ++ l.request xs r := by
  have hle : (l.request xs r).length ≤ l.lengths.getD r 0 := by
    rw [Layout.request, List.length_take]
    omega
  rw [grown, List.take_of_length_le hle, List.getD_eq_getElem?_getD, hslot, Option.getD_some]

/-- What a pass that is no verification stores. -/
theorem commitHistory_stores (h : commitHistory E S fb l history xs = .ok c)
    (hmode : l.mode ≠ .targetVerify) (hpos : l.processedTokens ≠ 0) : ∃ writes,
      setContext S l.stateIndices ((List.range l.lengths.length).map fun r =>
        grown l history xs r (l.lengths.getD r 0)) = .ok writes ∧
      (trackTargets E fb l = .ok none ∧ c.stores = [writes] ∨
        ∃ track offsets tracked, trackTargets E fb l = .ok (some (track, offsets)) ∧
          setContext S track ((List.range l.lengths.length).map fun r =>
            grown l history xs r (offsets.getD r 0)) = .ok tracked ∧
          c.stores = [writes, tracked]) := by
  simp only [commitHistory, commitRows, if_neg hpos, if_neg hmode, bind_ok] at h
  obtain ⟨writes, hwrites, targets, htargets, h⟩ := h
  refine ⟨writes, hwrites, ?_⟩
  cases targets with
  | none =>
    obtain rfl := pure_ok.mp h
    exact .inl ⟨htargets, rfl⟩
  | some targets =>
    obtain ⟨track, offsets⟩ := targets
    simp only [bind_ok, pure_ok] at h
    obtain ⟨tracked, htracked, rfl⟩ := h
    exact .inr ⟨track, offsets, tracked, htargets, htracked, rfl⟩

/-- What a pass that is no verification leaves in the slots. -/
structure Passed (E : Setting) (fb : ForwardBatch) (l : Layout) (xs : List α)
    (history history' : Nat → List α) : Prop where
  row : ∀ r slot, l.Owns r slot → Untracked E fb l slot →
    history' slot = history slot ++ l.request xs r
  snapshot : ∀ track offsets, trackTargets E fb l = .ok (some (track, offsets)) →
    ∀ r slot, track[r]? = some slot → (∀ r', track[r']? = some slot → r' = r) →
      history' slot = grown l history xs r (offsets.getD r 0)
  other : ∀ slot, slot ∉ l.stateIndices → Untracked E fb l slot → history' slot = history slot

theorem commitHistory_passed (hl : l.Laid) (h : commitHistory E S fb l q.context xs = .ok c)
    (hmode : l.mode ≠ .targetVerify) (hpos : l.processedTokens ≠ 0) (hc : c.Applied q q') :
    Passed E fb l xs q.context q'.context := by
  have hrows : ∀ {f : Nat → List α} {r slot : Nat}, l.stateIndices[r]? = some slot →
      ((List.range l.lengths.length).map f)[r]? = some (f r) := by
    intro f r slot hslot
    obtain ⟨hlt, -⟩ := List.getElem?_eq_some_iff.mp hslot
    rw [List.getElem?_map, List.getElem?_range (hl.slots ▸ hlt), Option.map_some]
  obtain ⟨writes, hwrites, ⟨htargets, hstores⟩ | ⟨track, offsets, tracked, htargets, htracked,
    hstores⟩⟩ := commitHistory_stores h hmode hpos
  · have hcontext := hc.context
    rw [hstores] at hcontext
    obtain ⟨mid, hmid, rfl⟩ : ∃ mid, Stored writes q.context mid ∧ q'.context = mid := hcontext
    refine ⟨fun r slot howns _ => ?_, fun track offsets htrack => ?_, fun slot hslot _ => ?_⟩
    · rw [setContext_row hwrites hmid howns.1 howns.2 (hrows howns.1), grown_lengths howns.1]
    · rw [htargets] at htrack
      cases htrack
    · exact setContext_other hwrites hmid hslot
  · have hcontext := hc.context
    rw [hstores] at hcontext
    obtain ⟨mid, hmid, mid', hmid', hend⟩ := hcontext
    obtain rfl : q'.context = mid' := hend
    refine ⟨fun r slot howns hun => ?_, fun track' offsets' htrack => ?_, fun slot hslot hun => ?_⟩
    · rw [setContext_other htracked hmid' (hun track offsets htargets),
        setContext_row hwrites hmid howns.1 howns.2 (hrows howns.1), grown_lengths howns.1]
    · rw [htargets, Except.ok.injEq, Option.some.injEq, Prod.mk.injEq] at htrack
      obtain ⟨rfl, rfl⟩ := htrack
      intro r slot hslot halone
      obtain ⟨hlen, -⟩ := setContext_ok htracked
      obtain ⟨hlt, -⟩ := List.getElem?_eq_some_iff.mp hslot
      rw [List.length_map, List.length_range] at hlen
      refine setContext_row htracked hmid' hslot halone ?_
      rw [List.getElem?_map, List.getElem?_range (hlen ▸ hlt), Option.map_some]
    · rw [setContext_other htracked hmid' (hun track offsets htargets),
        setContext_other hwrites hmid hslot]

/-- What is staged by a verification. -/
theorem commitHistory_verify (h : commitHistory E S fb l history xs = .ok c)
    (hmode : l.mode = .targetVerify) (hpos : l.processedTokens ≠ 0) : c.stores = [] ∧
      setIntermediate S ((List.range l.lengths.length).map fun r =>
        (List.range l.rowWidth).map fun t =>
          if t < l.lengths.getD r 0 then grown l history xs r (t + 1) else []) l.rowWidth =
        .ok c.staged := by
  simp only [commitHistory, commitRows, if_neg hpos, if_pos hmode, bind_ok, pure_ok] at h
  obtain ⟨staged, hstaged, rfl⟩ := h
  exact ⟨rfl, hstaged⟩

/-- The row that is staged for a draft token. -/
theorem commitHistory_staged (h : commitHistory E S fb l q.context xs = .ok c)
    (hmode : l.mode = .targetVerify) (hpos : l.processedTokens ≠ 0) (hc : c.Applied q q')
    {draftTokens t : Nat} (hdraft : S.draftTokens = some draftTokens) (hr : r < l.lengths.length)
    (ht : t < l.rowWidth) (hlive : t < l.lengths.getD r 0) : q'.context = q.context ∧
      q'.intermediate r t = grown l q.context xs r (t + 1) ∧ t < draftTokens ∧ r < S.specRows := by
  obtain ⟨hstores, hstaged⟩ := commitHistory_verify h hmode hpos
  have hcontext := hc.context
  rw [hstores] at hcontext
  have hrows : ¬ ((List.range l.lengths.length).isEmpty || l.rowWidth == 0) = true := by
    rw [Bool.or_eq_true, List.isEmpty_iff, List.range_eq_nil, beq_iff_eq]
    omega
  simp only [setIntermediate, hdraft, List.isEmpty_map, if_neg hrows, bind_ok, pure_ok, require_ok,
    Bool.and_eq_true, decide_eq_true_eq, List.length_map, List.length_range] at hstaged
  obtain ⟨-, ⟨hspec, hwidth⟩, hstaged⟩ := hstaged
  refine ⟨hcontext, ?_, by omega, by omega⟩
  rw [hc.intermediate, ← hstaged, stage, List.getElem?_map, List.getElem?_range hr, Option.map_some]
  dsimp only
  rw [getD_map_range ht, if_pos hlive]

end

/-! ## In a run -/

section

variable {E : Setting} {S : PoolShape} {es : List (Event Word)} {p p' : Pool (List Word)}
  {fb : ForwardBatch} {inputIds : List Word} {l : Layout}

theorem forwardHistory_layout {q : Pool (List Word)}
    (hl : layoutOf E fb inputIds.length = .ok (some l)) : forwardHistory E S q fb inputIds =
      commitHistory E S fb l q.context (inputIds.take l.processedTokens) := by
  rw [forwardHistory, hl]
  rfl

theorem forward_slots {c : Change (List Word)} (h : forward E S p fb inputIds = .ok c)
    (hl : layoutOf E fb inputIds.length = .ok (some l)) : ∀ slot ∈ l.stateIndices,
      slot < S.slots := by
  simp only [forward, bind_ok] at h
  obtain ⟨layout, hlayout, h⟩ := h
  obtain rfl := Except.ok.inj (hl.symm.trans hlayout)
  obtain ⟨context, hcontext, -⟩ := bind_ok.mp h
  simp only [ngramContext, getContext, checkSlots, bind_ok, require_ok, List.all_eq_true,
    decide_eq_true_eq] at hcontext
  obtain ⟨-, -, -, ⟨-, hslots, -⟩, -⟩ := hcontext
  exact hslots

/-- In every run a pass that is no verification appends to the history of each slot the tokens of
the request, and a snapshot has them up to its boundary. -/
theorem slots_after_pass (h : (ngramSlots E S).Runs (Complete E) es p)
    (ha : Complete E p (.forward fb inputIds))
    (hs : (ngramSlots E S).step p (.forward fb inputIds) p')
    (hl : layoutOf E fb inputIds.length = .ok (some l)) (hmode : l.mode ≠ .targetVerify)
    (hpos : l.processedTokens ≠ 0) :
    ∃ q history', (histories E S Word).Runs (Complete E) es q ∧ p = q.map (ends E S) ∧
      Passed E fb l (inputIds.take l.processedTokens) q.context history' ∧
      ∀ slot, p'.context slot = ends E S (history' slot) := by
  obtain ⟨q, hq, rfl⟩ := h.simulated ngramSlots_start ngramSlots_next
  have hcomplete : Complete E q (.forward fb inputIds) := ha
  obtain ⟨q', ⟨c, hc, happlied⟩, rfl⟩ := ngramSlots_step hcomplete hs
  have hc : forwardHistory E S q fb inputIds = .ok c := hc
  rw [forwardHistory_layout hl] at hc
  have hpassed := commitHistory_passed (layoutOf_laid hl) hc hmode hpos happlied
  exact ⟨q, q'.context, hq, rfl, hpassed, fun _ => rfl⟩

/-- In every run a verification changes no slot, and its acceptance appends to the history of a slot
the draft tokens up to the last correct one. -/
theorem slot_after_accept {p₁ p₂ : Pool (List Word)} {a : Accept} {draftTokens r slot step : Nat}
    (h : (ngramSlots E S).Runs (Complete E) es p) (ha : Complete E p (.forward fb inputIds))
    (hverify : (ngramSlots E S).step p (.forward fb inputIds) p₁)
    (haccept : (ngramSlots E S).step p₁ (.handoff (.accept a)) p₂)
    (hl : layoutOf E fb inputIds.length = .ok (some l)) (hmode : l.mode = .targetVerify)
    (hdraft : S.draftTokens = some draftTokens) (hslot : l.stateIndices[r]? = some slot)
    (hrow : a.Row r slot step) (ht : step < l.rowWidth) (hlive : step < l.lengths.getD r 0) :
    ∃ q, (histories E S Word).Runs (Complete E) es q ∧ p = q.map (ends E S) ∧
      p₁.context = p.context ∧ p₂.context slot = ends E S
        (q.context slot ++ (l.request (inputIds.take l.processedTokens) r).take (step + 1)) := by
  obtain ⟨q, hq, rfl⟩ := h.simulated ngramSlots_start ngramSlots_next
  have hlaid := layoutOf_laid hl
  obtain ⟨hlt, -⟩ := List.getElem?_eq_some_iff.mp hslot
  have hr : r < l.lengths.length := hlaid.slots ▸ hlt
  have hpos : l.processedTokens ≠ 0 := by
    rw [← hlaid.verify hmode]
    exact Nat.mul_ne_zero (by omega) (by omega)
  have hin : slot < S.slots := by
    obtain ⟨c, hc, -⟩ := hverify
    exact forward_slots hc hl slot (List.mem_of_getElem? hslot)
  have hcomplete : Complete E q (.forward fb inputIds) := ha
  obtain ⟨q₁, ⟨c, hc, happlied⟩, rfl⟩ := ngramSlots_step hcomplete hverify
  have hc : forwardHistory E S q fb inputIds = .ok c := hc
  rw [forwardHistory_layout hl] at hc
  obtain ⟨hsame, hstaged, hdrafts, hspec⟩ :=
    commitHistory_staged hc hmode hpos happlied hdraft hr ht hlive
  have htrivial : Complete E q₁ (.handoff (.accept a) : Event Word) := trivial
  obtain ⟨q₂, ⟨c', hc', happlied'⟩, rfl⟩ := ngramSlots_step htrivial haccept
  have hc' : updateAfterVerify S q₁ a = .ok c' := hc'
  refine ⟨q, hq, rfl, ?_, ?_⟩
  · show ends E S ∘ q₁.context = ends E S ∘ q.context
    rw [hsame]
  · show ends E S (q₂.context slot) = _
    rw [updateAfterVerify_row hc' hdraft hrow ⟨hdrafts, hin, hspec⟩ happlied', hstaged, grown,
      List.getD_eq_getElem?_getD, hslot, Option.getD_some]

end

/-! ## In the run of the request -/

/-- The request goes on with one token. -/
theorem slots_after_pass_sample : ∃ q history',
    (histories sampleSetting sampleShape Word).Runs (Complete sampleSetting) [samplePrefill] q ∧
      Passed sampleSetting (sampleBatch .decode none)
        ⟨⟨[1], 1, [0], [0]⟩, .decode, false, 1, 1, [true], [1]⟩ [9] q.context history' ∧
      [7, 9] = ends sampleSetting sampleShape (history' 1) := by
  let p' : Pool (List Word) :=
    { samplePool with context := Function.update samplePool.context 1 [7, 9] }
  have hforward : forward sampleSetting sampleShape samplePool (sampleBatch .decode none) [9] =
      .ok { stores := [[(1, [7, 9])]] } := rfl
  have hstep : (ngramSlots sampleSetting sampleShape).step samplePool
      (.forward (sampleBatch .decode none) [9]) p' :=
    ⟨_, hforward, ⟨_, Tensor.scatter_stored _ _, rfl⟩, rfl, rfl⟩
  have hlayout : layoutOf sampleSetting (sampleBatch .decode none) [(9 : Word)].length =
      .ok (some ⟨⟨[1], 1, [0], [0]⟩, .decode, false, 1, 1, [true], [1]⟩) := rfl
  obtain ⟨q, history', hq, -, hpassed, hslots⟩ := slots_after_pass
    (samplePool_runs samplePrefill_complete) (complete_of_layout hlayout trivial) hstep hlayout
    (by decide) (by decide)
  exact ⟨q, history', hq, hpassed, hslots 1⟩

/-- Of two draft tokens the first one is accepted. -/
theorem slot_after_accept_sample : ∃ (q : Pool (List Word)) (p₂ : Pool (List Word)),
    (histories sampleSetting sampleShape Word).Runs (Complete sampleSetting) [samplePrefill] q ∧
      p₂.context 1 = [7, 9] ∧
      p₂.context 1 = ends sampleSetting sampleShape (q.context 1 ++ [9]) := by
  let fb := sampleBatch .targetVerify none
  let p₁ : Pool (List Word) :=
    { samplePool with intermediate := stage [[[7, 9], [9, 11]]] samplePool.intermediate }
  let a : Accept := ⟨[1], [0], none, none⟩
  let p₂ : Pool (List Word) := { p₁ with context := Function.update p₁.context 1 [7, 9] }
  have hforward : forward sampleSetting sampleShape samplePool fb [9, 11] =
      .ok { staged := [[[7, 9], [9, 11]]] } := rfl
  have hverify : (ngramSlots sampleSetting sampleShape).step samplePool
      (.forward fb [9, 11]) p₁ := ⟨_, hforward, rfl, rfl, rfl⟩
  have hupdate : updateAfterVerify sampleShape p₁ a = .ok { stores := [[(1, [7, 9])]] } := rfl
  have haccept : (ngramSlots sampleSetting sampleShape).step p₁ (.handoff (.accept a)) p₂ :=
    ⟨_, hupdate, ⟨_, Tensor.scatter_stored _ _, rfl⟩, rfl, rfl⟩
  have hlayout : layoutOf sampleSetting fb [(9 : Word), 11].length =
      .ok (some ⟨⟨[2], 2, [0, 0], [0, 1]⟩, .targetVerify, false, 2, 2, [true, true], [1]⟩) := rfl
  have hrow : a.Row 0 1 0 := by
    refine ⟨rfl, rfl, fun row' h => ?_, fun track h => by cases h⟩
    cases row' with
    | zero => rfl
    | succ row' => cases h
  obtain ⟨q, hq, -, -, hslot⟩ := slot_after_accept (samplePool_runs samplePrefill_complete)
    (complete_of_layout hlayout trivial) hverify haccept hlayout rfl rfl rfl hrow (by decide)
    (by decide)
  exact ⟨q, p₂, hq, rfl, hslot⟩

end Ngram
end FlashNext
