import FlashNext.Effect.Pool
import FlashNext.Ngram.Rolled

/-!
# Runs over the slots

Forward passes, accepted verifications and handoffs of slots follow each other in any order.  Every
run over the n-gram pool is the image of a run over histories with the same events
(`ngramSlots_simulated`): what a slot holds is the end of what the requests that it has passed
through have had accepted.
-/

namespace FlashNext
namespace Ngram

open Effect
open Tensor (Stored lastOf)

variable {α β : Type}

inductive Event (α : Type) where
  | forward (fb : ForwardBatch) (tokens : List α)
  | handoff (op : Handoff)

/-- A forward pass over histories. -/
def forwardHistory (E : Setting) (S : PoolShape) (q : Pool (List α)) (fb : ForwardBatch)
    (xs : List α) : Except Fault (Change (List α)) := do
  match ← layoutOf E fb xs.length with
  | none => return {}
  | some l => commitHistory E S fb l q.context (xs.take l.processedTokens)

/-- A new pool. -/
def Pool.new (blank : β) : Pool β where
  context _ := blank
  intermediate _ _ := blank
  host _ := []

/-- A pool and what happens to it. -/
def slots (blank : β) (change : Pool β → Event α → Except Fault (Change β)) :
    System (Pool β) (Event α) where
  start p := p = .new blank
  step p event p' := ∃ c, change p event = .ok c ∧ c.Applied p p'

section

variable (E : Setting) (S : PoolShape)

/-- What a slot of the n-gram pool holds while there is no history. -/
def noContext : List Word := List.replicate S.rowLength E.eosTokenId

/-- The n-gram pool. -/
def ngramSlots : System (Pool (List Word)) (Event Word) :=
  slots (noContext E S) fun p => fun
    | .forward fb inputIds => forward E S p fb inputIds
    | .handoff op => op.change S (noContext E S) p

/-- The same events, over histories. -/
def histories (α : Type) : System (Pool (List α)) (Event α) :=
  slots [] fun q => fun
    | .forward fb xs => forwardHistory E S q fb xs
    | .handoff op => op.change S [] q

/-- All tokens of the extended requests are in the batch. -/
def Complete {σ α : Type} (_ : σ) : Event α → Prop
  | .forward fb xs => ∀ l, layoutOf E fb xs.length = .ok (some l) → l.Covered
  | .handoff _ => True

def Event.tokens {α : Type} : Event α → List α
  | .forward _ xs => xs
  | .handoff _ => []

/-- And they are tokens of the vocabulary. -/
def CompleteIn {σ α : Type} (P : α → Prop) (s : σ) (event : Event α) : Prop :=
  Complete E s event ∧ ∀ t ∈ event.tokens, P t

end

/-! ## Histories of the vocabulary -/

section

variable {E : Setting} {S : PoolShape} {fb : ForwardBatch} {es : List (Event α)} {P : α → Prop}

/-- The histories are of tokens with the property, as those that come to the slots are. -/
def Pool.AllIn (P : α → Prop) (q : Pool (List α)) : Prop :=
  ∃ q' : Pool {history : List α // ∀ t ∈ history, P t}, q = q'.map Subtype.val

theorem Pool.AllIn.context {q : Pool (List α)} (h : q.AllIn P) (slot : Nat) :
    ∀ t ∈ q.context slot, P t := by
  obtain ⟨q', rfl⟩ := h
  exact (q'.context slot).property

theorem mem_request {l : Layout} {xs : List α} {r : Nat} {t : α} (h : t ∈ l.request xs r) :
    t ∈ xs := by
  rw [Layout.request] at h
  exact List.mem_of_mem_drop (List.mem_of_mem_take h)

theorem grown_all {l : Layout} {history : Nat → List α} {xs : List α} {r n : Nat}
    (hhistory : ∀ slot, ∀ t ∈ history slot, P t) (hxs : ∀ t ∈ xs, P t) :
    ∀ t ∈ grown l history xs r n, P t := by
  intro t ht
  rw [grown, List.mem_append] at ht
  rcases ht with ht | ht
  · exact hhistory _ t ht
  · exact hxs t (mem_request (List.mem_of_mem_take ht))

theorem forwardHistory_all {q : Pool {history : List α // ∀ t ∈ history, P t}} {xs : List α}
    {c : Change (List α)} (hxs : ∀ t ∈ xs, P t)
    (h : forwardHistory E S (q.map Subtype.val) fb xs = .ok c) :
    ∃ c' : Change {history : List α // ∀ t ∈ history, P t}, c = c'.map Subtype.val := by
  simp only [forwardHistory, bind_ok] at h
  obtain ⟨layout, -, h⟩ := h
  cases layout with
  | none =>
    obtain rfl := pure_ok.mp h
    exact ⟨{}, rfl⟩
  | some l =>
    have hall : ∀ r n, ∀ t ∈ grown l (q.map Subtype.val).context (xs.take l.processedTokens) r n,
        P t := fun r n => grown_all (fun slot => (q.context slot).property)
          fun t ht => hxs t (List.mem_of_mem_take ht)
    have hmap := @commitRows_map {history : List α // ∀ t ∈ history, P t} (List α) E S fb l
      Subtype.val ⟨[], fun t ht => absurd ht List.not_mem_nil⟩ (fun r n => ⟨_, hall r n⟩) _
      fun _ _ _ _ => rfl
    dsimp only at h
    rw [commitHistory, hmap] at h
    obtain ⟨c', -, rfl⟩ := map_ok.mp h
    exact ⟨c', rfl⟩

theorem histories_step_all {q q' : Pool (List α)} {event : Event α} (h : q.AllIn P)
    (htokens : ∀ t ∈ event.tokens, P t) (hs : (histories E S α).step q event q') :
    q'.AllIn P := by
  obtain ⟨q₀, rfl⟩ := h
  obtain ⟨c, hchange, happlied⟩ := hs
  have himage : ∃ c' : Change {history : List α // ∀ t ∈ history, P t}, c = c'.map Subtype.val := by
    cases event with
    | forward fb xs => exact forwardHistory_all htokens hchange
    | handoff op =>
      have hmap := @Handoff.change_map _ _ Subtype.val q₀ S op
        ⟨[], fun t ht => absurd ht List.not_mem_nil⟩
      have hchange : op.change S [] (q₀.map Subtype.val) = .ok c := hchange
      obtain ⟨c', -, rfl⟩ := map_ok.mp (hmap.symm.trans hchange)
      exact ⟨c', rfl⟩
  obtain ⟨c', rfl⟩ := himage
  obtain ⟨q₁, -, rfl⟩ := happlied.of_map
  exact ⟨q₁, rfl⟩

end

section

variable {E : Setting} {S : PoolShape} {fb : ForwardBatch} {es : List (Event Word)}

/-- The end of a history, as a slot of the n-gram pool holds it. -/
def ends (E : Setting) (S : PoolShape) : List Word → List Word := lastOf E.eosTokenId S.rowLength

theorem ends_nil : ends E S [] = noContext E S := Tensor.lastOf_nil

theorem complete_of_layout {σ : Type} {s : σ} {xs : List α} {l : Layout}
    (hl : layoutOf E fb xs.length = .ok (some l)) (hc : l.Covered) :
    Complete E s (.forward fb xs) := by
  intro l' hl'
  obtain rfl := Option.some.inj (Except.ok.inj (hl.symm.trans hl'))
  exact hc

/-- A forward pass over the ends of histories. -/
theorem forward_ends {q : Pool (List Word)} {inputIds : List Word} {c : Change (List Word)}
    (hc : ∀ l, layoutOf E fb inputIds.length = .ok (some l) → l.Covered)
    (h : forward E S (q.map (ends E S)) fb inputIds = .ok c) :
    ∃ c', forwardHistory E S q fb inputIds = .ok c' ∧ c = c'.map (ends E S) := by
  simp only [forward, forwardHistory, bind_ok] at h ⊢
  obtain ⟨layout, hlayout, h⟩ := h
  cases layout with
  | none =>
    obtain rfl := pure_ok.mp h
    exact ⟨{}, ⟨none, hlayout, rfl⟩, rfl⟩
  | some l =>
    obtain ⟨context, hcontext, hcommit⟩ := bind_ok.mp h
    have hl := layoutOf_laid hlayout
    have hcovered := hc l hlayout
    have hphysical := layoutOf_physical hlayout
    have hlen : (inputIds.take l.processedTokens).length = l.processedTokens :=
      List.length_take_of_le (hphysical ▸ hl.processed_le)
    obtain ⟨-, hholds⟩ := ngramContext_holds hl hcovered hlen hcontext
    obtain ⟨c', hc', rfl⟩ := commit_ends hl hcovered hlen hholds hcommit
    exact ⟨c', ⟨some l, hlayout, hc'⟩, rfl⟩

theorem new_map (g : β → α) (blank : β) : (Pool.new blank).map g = Pool.new (g blank) := rfl

/-- An event does to the ends of histories what it does to the histories. -/
theorem ngramSlots_step {q : Pool (List Word)} {p' : Pool (List Word)} {event : Event Word}
    (ha : Complete E q event) (hs : (ngramSlots E S).step (q.map (ends E S)) event p') :
    ∃ q', (histories E S Word).step q event q' ∧ p' = q'.map (ends E S) := by
  obtain ⟨c, hchange, happlied⟩ := hs
  cases event with
  | forward fb inputIds =>
    obtain ⟨c', hc', rfl⟩ := forward_ends ha hchange
    obtain ⟨q', hq', rfl⟩ := happlied.of_map
    exact ⟨q', ⟨c', hc', hq'⟩, rfl⟩
  | handoff op =>
    have hchange : op.change S (noContext E S) (q.map (ends E S)) = .ok c := hchange
    rw [← ends_nil, Handoff.change_map] at hchange
    obtain ⟨c', hc', rfl⟩ := map_ok.mp hchange
    obtain ⟨q', hq', rfl⟩ := happlied.of_map
    exact ⟨q', ⟨c', hc', hq'⟩, rfl⟩

theorem ngramSlots_start (p : Pool (List Word)) (h : (ngramSlots E S).start p) :
    ∃ q, (histories E S Word).start q ∧ p = q.map (ends E S) := by
  refine ⟨.new [], rfl, ?_⟩
  rw [new_map, ends_nil]
  exact h

/-- Every step over the slots is one over the histories. -/
theorem ngramSlots_next (p q : Pool (List Word)) (event : Event Word) (p' : Pool (List Word))
    (hp : p = q.map (ends E S)) (ha : Complete E p event) (hs : (ngramSlots E S).step p event p') :
    Complete E q event ∧ ∃ q', (histories E S Word).step q event q' ∧ p' = q'.map (ends E S) := by
  subst hp
  exact ⟨ha, ngramSlots_step ha hs⟩

/-- Where all tokens are of the vocabulary, so are the histories. -/
theorem ngramSlots_simulated_all {P : Word → Prop} {p : Pool (List Word)}
    (h : (ngramSlots E S).Runs (CompleteIn E P) es p) :
    ∃ q, (histories E S Word).Runs (CompleteIn E P) es q ∧ p = q.map (ends E S) ∧ q.AllIn P := by
  have hstart : ∀ p, (ngramSlots E S).start p →
      ∃ q, (histories E S Word).start q ∧ p = q.map (ends E S) ∧ q.AllIn P := by
    intro p hp
    obtain ⟨q, rfl, hq⟩ := ngramSlots_start p hp
    exact ⟨_, rfl, hq, .new ⟨[], fun t ht => absurd ht List.not_mem_nil⟩, rfl⟩
  have hstep : ∀ (p : Pool (List Word)) (q : Pool (List Word)) (event : Event Word)
      (p' : Pool (List Word)), p = q.map (ends E S) ∧ q.AllIn P → CompleteIn E P p event →
      (ngramSlots E S).step p event p' → CompleteIn E P q event ∧
        ∃ q', (histories E S Word).step q event q' ∧ p' = q'.map (ends E S) ∧ q'.AllIn P := by
    rintro p q event p' ⟨rfl, hall⟩ ha hs
    obtain ⟨-, q', hq', hp'⟩ := ngramSlots_next _ q event p' rfl ha.1 hs
    exact ⟨ha, q', hq', hp', histories_step_all hall ha.2 hq'⟩
  exact h.simulated hstart hstep

/-- The n-gram pool holds the ends of histories that the same events leave. -/
theorem ngramSlots_simulated {p : Pool (List Word)}
    (h : (ngramSlots E S).Runs (Complete E) es p) :
    ∃ q, (histories E S Word).Runs (Complete E) es q ∧ p = q.map (ends E S) :=
  h.simulated ngramSlots_start ngramSlots_next

end

/-! ## A run -/

def sampleSetting : Setting where
  ngramSize := 3
  headsPerNgram := 8
  eosTokenId := 248046#64
  enablePleFusion := false
  chunkSize := 64

/-- A slot besides the reserved one, and two draft tokens. -/
def sampleShape : PoolShape where
  slots := 2
  rowLength := 2
  specRows := 1
  draftTokens := some 2

/-- A batch of the one request. -/
def sampleBatch (mode : ForwardMode) (lengths : Option (List Nat)) : ForwardBatch where
  forwardMode := mode
  originalForwardMode := none
  tboParentTokenRange := false
  ngramSpeculation := false
  specInfo := some ⟨1, 2⟩
  globalNumTokenNonPaddedCpu := none
  extendSeqLensCpu := lengths
  extendSeqLens := lengths
  extendPrefixLens := none
  mambaIndices := [1]
  outCacheLoc := none
  mambaTrackIndices := none
  mambaTrackMask := none
  mambaTrackSeqlens := none

/-- The request comes with two tokens. -/
def samplePrefill : Event Word := .forward (sampleBatch (.extend "EXTEND") (some [2])) [5, 7]

def samplePool : Pool (List Word) where
  context := Function.update (fun _ => noContext sampleSetting sampleShape) 1 [5, 7]
  intermediate _ _ := noContext sampleSetting sampleShape
  host _ := []

theorem samplePrefill_complete (p : Pool (List Word)) : Complete sampleSetting p samplePrefill := by
  have hlayout : layoutOf sampleSetting (sampleBatch (.extend "EXTEND") (some [2])) 2 =
      .ok (some ⟨⟨[2], 2, [0, 0], [0, 1]⟩, .extend "EXTEND", false, 2, 2, [true, true], [1]⟩) := rfl
  exact complete_of_layout hlayout (Nat.le_refl 2)

theorem samplePool_runs {allowed : Pool (List Word) → Event Word → Prop}
    (ha : ∀ p, allowed p samplePrefill) :
    (ngramSlots sampleSetting sampleShape).Runs allowed [samplePrefill] samplePool := by
  have hforward : forward sampleSetting sampleShape (.new (noContext sampleSetting sampleShape))
      (sampleBatch (.extend "EXTEND") (some [2])) [5, 7] = .ok { stores := [[(1, [5, 7])]] } := rfl
  have hstep : (ngramSlots sampleSetting sampleShape).step
      (.new (noContext sampleSetting sampleShape)) samplePrefill samplePool :=
    ⟨_, hforward, ⟨_, Tensor.scatter_stored _ _, rfl⟩, rfl, rfl⟩
  exact .step (.start rfl) (ha _) hstep

theorem ngramSlots_simulated_prefill : ∃ q,
    (histories sampleSetting sampleShape Word).Runs (Complete sampleSetting) [samplePrefill] q ∧
      samplePool = q.map (ends sampleSetting sampleShape) :=
  ngramSlots_simulated (samplePool_runs samplePrefill_complete)

end Ngram
end FlashNext
