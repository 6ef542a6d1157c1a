import FlashNext.Tensor.Stored
import FlashNext.Ngram.Batch

/-!
# A state for each slot

`NGramPool` and `ShortConvPool` keep one row for each state slot, and rows of a verification that
are not yet accepted.  A `Change` is what an operation does to them.  Nothing here looks into a row,
so the rows may be those of the code or whole histories, and a map between them carries every
change over (`Change.Applied.of_map`).
-/

namespace FlashNext
namespace Ngram

open Tensor (Stored)

/-- The sizes of a pool. -/
structure PoolShape where
  /-- The number of slots, with the reserved slot 0. -/
  slots : Nat
  /-- The number of columns of a row. -/
  rowLength : Nat
  specRows : Nat
  /-- `speculative_num_draft_tokens`. -/
  draftTokens : Option Nat

structure Pool (β : Type) where
  context : Nat → β
  /-- The row of a request after each of its draft tokens. -/
  intermediate : Nat → Nat → β
  /-- The rows that were copied to the host. -/
  host : Nat → List β

/-- The stores to the slots, one after the other, what is written over the front of the
intermediate rows, and what is copied to the host. -/
structure Change (β : Type) where
  stores : List (List (Nat × β)) := []
  staged : List (List β) := []
  offloaded : Option (Nat × List β) := none

variable {β γ : Type}

def StoredAll : List (List (Nat × β)) → (Nat → β) → (Nat → β) → Prop
  | [], m, m' => m' = m
  | writes :: stores, m, m' => ∃ mid, Stored writes m mid ∧ StoredAll stores mid m'

/-- `intermediate[:rows, :width] = staged`. -/
def stage (staged : List (List β)) (intermediate : Nat → Nat → β) (row step : Nat) : β :=
  match staged[row]? with
  | some steps => steps.getD step (intermediate row step)
  | none => intermediate row step

def offload (offloaded : Option (Nat × List β)) (host : Nat → List β) : Nat → List β :=
  match offloaded with
  | some (key, rows) => Function.update host key rows
  | none => host

/-- A pool that the change can leave. -/
structure Change.Applied (c : Change β) (p p' : Pool β) : Prop where
  context : StoredAll c.stores p.context p'.context
  intermediate : p'.intermediate = stage c.staged p.intermediate
  host : p'.host = offload c.offloaded p.host

/-! ## The operations -/

/-- What `_update_ple_state_after_mtp_verify` is given. -/
structure Accept where
  stateIndices : List Int
  lastCorrectSteps : List Int
  trackIndices : Option (List Int)
  stepsToTrack : Option (List Int)

section

variable (S : PoolShape) (blank : β) (p : Pool β)

def checkSlots (slots : List Nat) : Except Fault Unit :=
  require (slots.all fun slot => decide (slot < S.slots)) .tensor

/-- `context[indices] = rows`. -/
def setContext (indices : List Nat) (rows : List β) : Except Fault (List (Nat × β)) := do
  checkSlots S indices
  require (indices.length == rows.length) .tensor
  return indices.zip rows

/-- `context.index_select(0, indices)`. -/
def getContext (indices : List Nat) : Except Fault (List β) := do
  checkSlots S indices
  return indices.map p.context

/-- `set_intermediate_context`. -/
def setIntermediate (rows : List (List β)) (width : Nat) : Except Fault (List (List β)) :=
  match S.draftTokens with
  | none => .ok []
  | some draftTokens => do
    if rows.isEmpty || width == 0 then return []
    require (decide (rows.length ≤ S.specRows) && decide (width ≤ draftTokens)) .tensor
    return rows

/-- `_scatter_speculative_state_with_mask`, row by row: what is out of range is passed over. -/
def scatterWithMask (draftTokens : Nat) (dst steps : List Int) :
    Except Fault (List (Nat × β)) := do
  if steps.isEmpty then return []
  require (dst.length == steps.length) .tensor
  return (dst.zip steps).zipIdx.filterMap fun ((slot, step), row) =>
    if 0 ≤ step ∧ step < draftTokens ∧ 0 ≤ slot ∧ slot < S.slots ∧ row < S.specRows then
      some (slot.toNat, p.intermediate row step.toNat)
    else none

/-- `_update_ple_state_after_mtp_verify`, for one of the two states. -/
def updateAfterVerify (a : Accept) : Except Fault (Change β) := do
  require (a.trackIndices.isNone || a.stepsToTrack.isSome) .assertion
  match S.draftTokens with
  | none => return {}
  | some draftTokens =>
    let accepted ← scatterWithMask S p draftTokens a.stateIndices a.lastCorrectSteps
    match a.trackIndices, a.stepsToTrack with
    | some track, some steps =>
      let tracked ← scatterWithMask S p draftTokens track steps
      return { stores := [accepted, tracked] }
    | _, _ => return { stores := [accepted] }

/-- `reset_slots`. -/
def resetSlots (indices : List Nat) : Except Fault (Change β) := do
  checkSlots S indices
  return { stores := [indices.map fun slot => (slot, blank)] }

/-- `copy_slots`. -/
def copySlots (src dst : List Nat) : Except Fault (Change β) := do
  let rows ← getContext S p src
  let writes ← setContext S dst rows
  return { stores := [writes] }

/-- `get_cpu_slots`, to a place on the host. -/
def getCpuSlots (key : Nat) (indices : List Nat) : Except Fault (Change β) := do
  let rows ← getContext S p indices
  return { offloaded := some (key, rows) }

/-- `load_cpu_slots`, of what is at a place on the host. -/
def loadCpuSlots (key : Nat) (indices : List Nat) : Except Fault (Change β) := do
  let writes ← setContext S indices (p.host key)
  return { stores := [writes] }

/-- `clear`. -/
def clear : Change β := { stores := [(List.range S.slots).map fun slot => (slot, blank)] }

end

/-- What happens to a pool besides the forward passes. -/
inductive Handoff where
  | accept (a : Accept)
  | reset (indices : List Nat)
  | copy (src dst : List Nat)
  | offload (key : Nat) (indices : List Nat)
  | load (key : Nat) (indices : List Nat)
  | clear

def Handoff.change (S : PoolShape) (blank : β) (p : Pool β) : Handoff → Except Fault (Change β)
  | .accept a => updateAfterVerify S p a
  | .reset indices => resetSlots S blank indices
  | .copy src dst => copySlots S p src dst
  | .offload key indices => getCpuSlots S p key indices
  | .load key indices => loadCpuSlots S p key indices
  | .clear => .ok (Ngram.clear S blank)

/-! ## Maps between rows -/

def Pool.map (g : β → γ) (p : Pool β) : Pool γ where
  context := g ∘ p.context
  intermediate row step := g (p.intermediate row step)
  host key := (p.host key).map g

def Change.map (g : β → γ) (c : Change β) : Change γ where
  stores := c.stores.map (List.map (Prod.map id g))
  staged := c.staged.map (List.map g)
  offloaded := c.offloaded.map (Prod.map id (List.map g))

variable {g : β → γ} {p : Pool β} {c : Change β}

theorem StoredAll.of_map {stores : List (List (Nat × β))} {m : Nat → β} {m' : Nat → γ}
    (h : StoredAll (stores.map (List.map (Prod.map id g))) (g ∘ m) m') :
    ∃ n', StoredAll stores m n' ∧ m' = g ∘ n' := by
  induction stores generalizing m with
  | nil => exact ⟨m, rfl, h⟩
  | cons writes stores ih =>
    obtain ⟨mid, hstored, hrest⟩ := h
    obtain ⟨n, hn, rfl⟩ := hstored.of_map
    obtain ⟨n', hn', hm'⟩ := ih hrest
    exact ⟨n', ⟨n, hn, hn'⟩, hm'⟩

theorem stage_map (g : β → γ) (staged : List (List β)) (intermediate : Nat → Nat → β)
    (row step : Nat) : stage (staged.map (List.map g)) (fun r s => g (intermediate r s)) row step =
      g (stage staged intermediate row step) := by
  unfold stage
  rw [List.getElem?_map]
  cases staged[row]? with
  | none => rfl
  | some steps =>
    show (steps.map g).getD step (g (intermediate row step)) = _
    rw [List.getD_map]

/-- A change by images leaves the image of a pool that the change itself can leave. -/
theorem Change.Applied.of_map {p' : Pool γ} (h : (c.map g).Applied (p.map g) p') :
    ∃ q, c.Applied p q ∧ p' = q.map g := by
  obtain ⟨context, hcontext, hp'⟩ := h.context.of_map
  refine ⟨⟨context, stage c.staged p.intermediate, offload c.offloaded p.host⟩,
    ⟨hcontext, rfl, rfl⟩, ?_⟩
  have hintermediate := h.intermediate
  have hhost := h.host
  obtain ⟨context', intermediate', host'⟩ := p'
  dsimp only at hp' hintermediate hhost
  subst hp' hintermediate hhost
  rw [Pool.map, Pool.mk.injEq]
  refine ⟨rfl, funext fun row => funext fun step => ?_, funext fun key => ?_⟩
  · exact stage_map g c.staged p.intermediate row step
  · dsimp only [Change.map, Pool.map]
    cases c.offloaded with
    | none => rfl
    | some kept =>
      obtain ⟨place, rows⟩ := kept
      show Function.update (fun k => (p.host k).map g) place (rows.map g) key =
        (Function.update p.host place rows key).map g
      by_cases hkey : key = place
      · subst hkey
        rw [Function.update_self, Function.update_self]
      · rw [Function.update_of_ne hkey, Function.update_of_ne hkey]

section

variable {S : PoolShape}

theorem setContext_map (indices : List Nat) (rows : List β) :
    setContext S indices (rows.map g) =
      (setContext S indices rows).map (List.map (Prod.map id g)) := by
  unfold setContext
  rw [List.length_map]
  cases checkSlots S indices with
  | error f => rfl
  | ok _ =>
    cases require (indices.length == rows.length) .tensor with
    | error f => rfl
    | ok _ =>
      show Except.ok (indices.zip (rows.map g)) = _
      rw [List.zip_map_right]
      rfl

theorem getContext_map (indices : List Nat) :
    getContext S (p.map g) indices = (getContext S p indices).map (List.map g) := by
  unfold getContext
  cases checkSlots S indices with
  | error f => rfl
  | ok _ =>
    show Except.ok (indices.map (g ∘ p.context)) = Except.ok ((indices.map p.context).map g)
    rw [List.map_map]

theorem scatterWithMask_map (draftTokens : Nat) (dst steps : List Int) :
    scatterWithMask S (p.map g) draftTokens dst steps =
      (scatterWithMask S p draftTokens dst steps).map (List.map (Prod.map id g)) := by
  unfold scatterWithMask
  cases steps.isEmpty with
  | true => rfl
  | false =>
    cases require (dst.length == steps.length) .tensor with
    | error f => rfl
    | ok _ =>
      show Except.ok (List.filterMap _ _) = Except.ok ((List.filterMap _ _).map _)
      rw [List.map_filterMap]
      congr 1
      refine List.filterMap_congr fun entry _ => ?_
      obtain ⟨⟨slot, step⟩, row⟩ := entry
      dsimp only [Pool.map]
      split <;> rfl

theorem updateAfterVerify_map (a : Accept) :
    updateAfterVerify S (p.map g) a = (updateAfterVerify S p a).map (Change.map g) := by
  unfold updateAfterVerify
  cases require (a.trackIndices.isNone || a.stepsToTrack.isSome) .assertion with
  | error f => rfl
  | ok _ =>
    cases S.draftTokens with
    | none => rfl
    | some draftTokens =>
      dsimp only [bind, Except.bind]
      rw [scatterWithMask_map]
      cases scatterWithMask S p draftTokens a.stateIndices a.lastCorrectSteps with
      | error f => rfl
      | ok accepted =>
        dsimp only [Except.map]
        split
        · next track steps htrack hsteps =>
          rw [scatterWithMask_map]
          cases scatterWithMask S p draftTokens track steps <;> rfl
        · rfl

/-- A handoff does the same to images as to the rows. -/
theorem Handoff.change_map (op : Handoff) (blank : β) :
    op.change S (g blank) (p.map g) = (op.change S blank p).map (Change.map g) := by
  cases op with
  | accept a => exact updateAfterVerify_map a
  | reset indices =>
    dsimp only [Handoff.change, resetSlots]
    cases checkSlots S indices with
    | error f => rfl
    | ok _ =>
      dsimp only [bind, Except.bind, pure, Except.pure, Except.map, Change.map]
      rw [List.map_cons, List.map_nil, List.map_map]
      rfl
  | copy src dst =>
    dsimp only [Handoff.change, copySlots]
    rw [getContext_map]
    cases getContext S p src with
    | error f => rfl
    | ok rows =>
      dsimp only [bind, Except.bind, Except.map]
      rw [setContext_map]
      cases setContext S dst rows <;> rfl
  | offload key indices =>
    dsimp only [Handoff.change, getCpuSlots]
    rw [getContext_map]
    cases getContext S p indices <;> rfl
  | load key indices =>
    dsimp only [Handoff.change, loadCpuSlots]
    rw [show (p.map g).host key = (p.host key).map g from rfl, setContext_map]
    cases setContext S indices (p.host key) <;> rfl
  | clear =>
    dsimp only [Handoff.change, Ngram.clear, Except.map, Change.map]
    rw [List.map_cons, List.map_nil, List.map_map]
    rfl

end

end Ngram
end FlashNext
