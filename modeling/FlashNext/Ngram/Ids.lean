import FlashNext.Ngram.Runs
import FlashNext.Ngram.Segment

/-!
# The ids of a pass

`computeNgramIds` is asked by every layer and keeps what the layers share.  In every run the ids of
a token are those of what its request has had accepted up to it (`ids_of_history`), whatever passes
that was accepted in.
-/

namespace FlashNext
namespace Ngram

open Effect
open Tensor (lastOf)

/-! ## The contexts of the tokens -/

section

variable {α : Type} {l : Layout} {pad : α} {k : Nat} {history : Nat → List α} {xs : List α}
  {context : List (List α)}

/-- The context of a token is the end of the history that ends with the token. -/
theorem Holds.windows (h : Holds l pad k history xs context) (hl : l.Laid) (hc : l.Covered)
    (hxs : xs.length = l.processedTokens) {p : Nat} (hp : p < l.processedTokens)
    (hlive : l.validTokens.getD p false = true) :
    (Ngram.windows (k + 1) l context)[p]? = some (lastOf pad (k + 1)
      (grown l history xs (l.reqIndices.getD p 0) (l.tokenOffsets.getD p 0 + 1))) := by
  have hplaced := hl.placed hc
  obtain ⟨hr, ht⟩ := h.column p hp
  rw [hl.valid hc p hp, decide_eq_true_eq] at hlive
  have hrequest : l.tokenOffsets.getD p 0 < (l.request xs (l.reqIndices.getD p 0)).length := by
    rw [hl.length_request hc hxs hr]
    exact Nat.lt_min.mpr ⟨hlive, ht⟩
  obtain ⟨row, rest, hrow, heq, hwidth⟩ := h.row _ hr
  have hwindow : (row.drop (l.tokenOffsets.getD p 0)).take (k + 1) = lastOf pad (k + 1)
      (grown l history xs (l.reqIndices.getD p 0) (l.tokenOffsets.getD p 0 + 1)) := by
    rw [heq]
    exact Tensor.window_lastOf hrequest
  rw [← hwindow, Ngram.windows]
  split
  · next hfast =>
    have hrows := hl.decode (hl.fast hfast)
    have hreq : l.reqIndices.getD p 0 = p := by
      rw [hrows]
      exact getD_range hp
    have hoff : l.tokenOffsets.getD p 0 = 0 := by
      rw [hrows]
      exact List.getD_replicate _ hp
    have hone : l.rowWidth = 1 := by
      rw [hrows]
      rfl
    have hlen := h.length_row hrow
    rw [hreq] at hrow
    rw [hoff, List.drop_zero, List.take_of_length_le (by omega)]
    exact hrow
  · have hreqs : p < l.reqIndices.length := hplaced.reqs.symm ▸ hp
    have hoffs : p < l.tokenOffsets.length := hplaced.offsets.symm ▸ hp
    rw [List.getElem?_zipWith, List.getElem?_eq_getElem hreqs, List.getElem?_eq_getElem hoffs,
      ← List.getD_eq_getElem _ 0 hreqs, ← List.getD_eq_getElem _ 0 hoffs]
    have hget : context.getD (l.reqIndices.getD p 0) [] = row :=
      List.getD_eq_getElem?_getD.trans (by rw [hrow, Option.getD_some])
    dsimp only
    rw [hget]

end

/-! ## What the layers share -/

/-- `ple_window_cache`; a batch is known by its number. -/
structure WindowCache where
  batch : Nat
  contexts : List (List Word)
  shiftedTokens : Option (List (List (List Word)))

/-- The shifts of all contexts. -/
def shiftAll (ngramSize : Nat) (eos : Word) (contexts : List (List Word)) :
    List (List (List Word)) :=
  (List.range ngramSize).map fun shift => contexts.map fun row => shiftRightIgnoreEos eos row shift

/-- The blocks of `_hash_contexts`. -/
def hashAll (E : Setting) (L : Layer) (contexts : List (List Word))
    (shiftedTokens : List (List (List Word))) : List (List Word) :=
  (List.range contexts.length).map fun i =>
    hashShifts E.ngramSize E.headsPerNgram L (shiftedTokens.map fun shifted => shifted.getD i [])

/-- The cache of the batch, or a new one with its contexts. -/
def cacheOf (E : Setting) (batch : Nat) (l : Layout) (context : List (List Word))
    (cached : Option WindowCache) : WindowCache :=
  let fresh := ⟨batch, windows E.ngramSize l context, none⟩
  match cached with
  | some c => if c.batch = batch then c else fresh
  | none => fresh

def WindowCache.shifts (E : Setting) (L : Layer) (c : WindowCache) : List (List (List Word)) :=
  c.shiftedTokens.getD (shiftAll E.ngramSize L.eosTokenId c.contexts)

/-- `can_fuse_qwen4_ngram_hash`: besides the sizes, all is on the device and contiguous. -/
def canFuse (onDevice : Bool) (E : Setting) (L : Layer) : Bool :=
  onDevice && E.ngramSize == ngramSize && L.multipliers.length == ngramSize &&
    L.vocabSizes.length == ngramHeads && L.offsets.length == ngramHeads

/-- The contexts as they lie in memory. -/
def flat (contexts : List (List Word)) (address : Nat) : Word :=
  (contexts.getD (address / ngramSize) []).getD (address % ngramSize) 0

/-- `fused_qwen4_ngram_hash`: the id of each head of each row. -/
def fusedNgramHash (L : Layer) (contexts : List (List Word)) : List (List Word) :=
  (List.range contexts.length).map fun row =>
    (List.range ngramHeads).map fun head => fusedId L (flat contexts) row head

/-- Whether `_hash_contexts` launches the kernel. -/
def fuses (onDevice : Bool) (E : Setting) (L : Layer) (l : Layout) : Bool :=
  E.enablePleFusion && (decide (l.mode = .decode) || decide (l.mode = .targetVerify)) &&
    canFuse onDevice E L

/-- `compute_ngram_ids` of a layer. -/
def computeNgramIds (onDevice : Bool) (E : Setting) (L : Layer) (batch : Nat) (l : Layout)
    (context : List (List Word)) (cached : Option WindowCache) :
    List (List Word) × Option WindowCache :=
  let cache := cacheOf E batch l context cached
  if fuses onDevice E L l then (fusedNgramHash L cache.contexts, some cache)
  else
    let shiftedTokens := cache.shifts E L
    (hashAll E L cache.contexts shiftedTokens, some { cache with shiftedTokens := shiftedTokens })

/-- The layers of a pass, one after the other. -/
def computeAll (onDevice : Bool) (E : Setting) (batch : Nat) (l : Layout)
    (context : List (List Word)) : List Layer → Option WindowCache → List (List (List Word))
  | [], _ => []
  | L :: layers, cached =>
    let (ids, cached) := computeNgramIds onDevice E L batch l context cached
    ids :: computeAll onDevice E batch l context layers cached

/-- The ids of a layer for contexts that nothing is kept of. -/
def layerIds (onDevice : Bool) (E : Setting) (L : Layer) (l : Layout)
    (contexts : List (List Word)) : List (List Word) :=
  if fuses onDevice E L l then fusedNgramHash L contexts
  else contexts.map (hashRow E.ngramSize E.headsPerNgram L)

section

variable {onDevice : Bool} {E : Setting} {L : Layer} {batch : Nat} {l : Layout}
  {context : List (List Word)} {cached : Option WindowCache}

theorem hashAll_shiftAll (E : Setting) (L : Layer) (contexts : List (List Word)) :
    hashAll E L contexts (shiftAll E.ngramSize L.eosTokenId contexts) =
      contexts.map (hashRow E.ngramSize E.headsPerNgram L) := by
  refine List.ext_getElem (by simp [hashAll]) fun i hi hj => ?_
  have hi : i < contexts.length := by simpa [hashAll] using hi
  simp only [hashAll, shiftAll, List.getElem_map, List.getElem_range, hashRow, List.map_map]
  congr 1
  refine List.map_congr_left fun shift _ => ?_
  have hmap : i < (contexts.map fun row => shiftRightIgnoreEos L.eosTokenId row shift).length := by
    rw [List.length_map]
    exact hi
  rw [Function.comp_apply, List.getD_eq_getElem _ _ hmap, List.getElem_map]

/-- What is kept of a batch is the batch's. -/
def WindowCache.Of (E : Setting) (l : Layout) (context : List (List Word)) (batch : Nat)
    (c : WindowCache) : Prop :=
  c.batch = batch → c.contexts = windows E.ngramSize l context ∧
    ∀ shiftedTokens ∈ c.shiftedTokens,
      shiftedTokens = shiftAll E.ngramSize E.eosTokenId c.contexts

theorem computeNgramIds_of (heos : L.eosTokenId = E.eosTokenId)
    (h : ∀ c ∈ cached, c.Of E l context batch) :
    (computeNgramIds onDevice E L batch l context cached).1 =
        layerIds onDevice E L l (windows E.ngramSize l context) ∧
      ∀ c ∈ (computeNgramIds onDevice E L batch l context cached).2,
        c.Of E l context batch := by
  have hcache : (cacheOf E batch l context cached).contexts = windows E.ngramSize l context ∧
      ∀ shiftedTokens ∈ (cacheOf E batch l context cached).shiftedTokens, shiftedTokens =
        shiftAll E.ngramSize E.eosTokenId (cacheOf E batch l context cached).contexts := by
    unfold cacheOf
    cases cached with
    | none => exact ⟨rfl, fun s hs => by cases hs⟩
    | some c =>
      dsimp only
      split
      · next hbatch => exact h c rfl hbatch
      · exact ⟨rfl, fun s hs => by cases hs⟩
  obtain ⟨hcontexts, hshifts⟩ := hcache
  rw [computeNgramIds, layerIds]
  generalize cacheOf E batch l context cached = cache at hcontexts hshifts ⊢
  have hshifted : cache.shifts E L = shiftAll E.ngramSize E.eosTokenId cache.contexts := by
    unfold WindowCache.shifts
    cases hs : cache.shiftedTokens with
    | none => rw [Option.getD_none, heos]
    | some s => exact hshifts s hs
  dsimp only
  split
  · refine ⟨by rw [hcontexts], fun c hc _ => ?_⟩
    obtain rfl := Option.some.inj hc
    exact ⟨hcontexts, hshifts⟩
  · rw [hshifted]
    refine ⟨?_, fun c hc _ => ?_⟩
    · rw [← heos, hashAll_shiftAll, hcontexts]
    · obtain rfl := Option.some.inj hc
      exact ⟨hcontexts, fun s hs => (Option.some.inj hs).symm⟩

/-- Every layer gets the ids that it would compute alone, whatever the layers before it kept. -/
theorem computeAll_eq {layers : List Layer} (heos : ∀ L ∈ layers, L.eosTokenId = E.eosTokenId)
    (h : ∀ c ∈ cached, c.Of E l context batch) :
    computeAll onDevice E batch l context layers cached = layers.map fun L =>
      layerIds onDevice E L l (windows E.ngramSize l context) := by
  induction layers generalizing cached with
  | nil => rfl
  | cons L layers ih =>
    obtain ⟨hL, hrest⟩ := List.forall_mem_cons.mp heos
    have hfirst := @computeNgramIds_of onDevice E L batch l context cached hL h
    obtain ⟨hids, hcached⟩ := hfirst
    rw [computeAll, List.map_cons, ← hids, ← ih hrest hcached]

end

/-! ## The kernel -/

section

variable {config : Config} {nextprime : Nat → Nat} {layer : Nat} {L : Layer}
  {contexts : List (List Word)} {row : List Word} {r : Nat}

theorem contextRow_flat (hr : contexts[r]? = some row) (hlen : row.length = ngramSize) :
    contextRow (flat contexts) r = row := by
  have hat : ∀ col < ngramSize, flat contexts (r * ngramSize + col) = row.getD col 0 := by
    intro col hcol
    have hdiv : (r * ngramSize + col) / ngramSize = r := by
      rw [Nat.mul_comm, Nat.mul_add_div (by decide), Nat.div_eq_of_lt hcol, Nat.add_zero]
    have hmod : (r * ngramSize + col) % ngramSize = col := by
      rw [Nat.mul_comm, Nat.mul_add_mod, Nat.mod_eq_of_lt hcol]
    rw [flat, hdiv, hmod, List.getD_eq_getElem?_getD (l := contexts), hr, Option.getD_some]
  obtain ⟨t0, t1, t2, rfl⟩ := List.length_eq_three.mp hlen
  have h0 := hat 0 (by decide)
  have h1 := hat 1 (by decide)
  have h2 := hat 2 (by decide)
  rw [Nat.add_zero] at h0
  rw [contextRow, h0, h1, h2]
  rfl

theorem length_hashContexts (L : Layer) (row : List Word) :
    (hashContexts L row).length = ngramHeads := by
  rw [hashContexts, List.length_flatMap]
  simp only [List.length_map, List.length_range]
  rfl

/-- The kernel's ids of a row of the vocabulary are the eager ones. -/
theorem fusedNgramHash_row (hnext : ∀ n, n < nextprime n)
    (hbuild : build nextprime config layer = .ok L) (heos : InVocab config L.eosTokenId)
    (hr : contexts[r]? = some row) (hlen : row.length = ngramSize)
    (hvocab : ∀ t ∈ row, InVocab config t) :
    (fusedNgramHash L contexts)[r]? = some (hashRow ngramSize headsPerNgram L row) := by
  obtain ⟨hin, -⟩ := List.getElem?_eq_some_iff.mp hr
  have hrow := contextRow_flat hr hlen
  rw [fusedNgramHash, List.getElem?_map, List.getElem?_range hin, Option.map_some,
    ← hashContexts_eq]
  refine congrArg some (List.ext_getElem
    (by rw [List.length_map, List.length_range, length_hashContexts]) fun head hhead _ => ?_)
  have hhead : head < ngramHeads := by simpa using hhead
  obtain ⟨R⟩ := build_rows hnext hbuild hhead
  have hsettled := @settled_of_inVocab L (flat contexts) config nextprime layer hbuild r head
    heos (hrow.symm ▸ hvocab)
  have hsame := (fusedId_same_iff hhead R).mpr hsettled
  rw [hrow, List.getElem?_eq_getElem (by rw [length_hashContexts]; exact hhead)] at hsame
  rw [List.getElem_map, List.getElem_range]
  exact Option.some.inj hsame

end

/-! ## In a run -/

section

variable {config : Config} {nextprime : Nat → Nat} {onDevice : Bool} {E : Setting} {S : PoolShape}
  {es : List (Event Word)} {p : Pool (List Word)}

/-- A pass over a pool: its layout, and the context that it reads. -/
structure Pass (E : Setting) (S : PoolShape) (p : Pool (List Word)) where
  fb : ForwardBatch
  inputIds : List Word
  layout : Layout
  context : List (List Word)
  layout_eq : layoutOf E fb inputIds.length = .ok (some layout)
  covered : layout.Covered
  context_eq : ngramContext E S layout p (inputIds.take layout.processedTokens) = .ok context

/-- The tokens of the batch. -/
def Pass.tokens (pass : Pass E S p) : List Word :=
  pass.inputIds.take pass.layout.processedTokens

theorem Pass.length_tokens (pass : Pass E S p) :
    pass.tokens.length = pass.layout.processedTokens := by
  have hlaid := layoutOf_laid pass.layout_eq
  have hphysical := layoutOf_physical pass.layout_eq
  exact List.length_take_of_le (hphysical ▸ hlaid.processed_le)

/-- What a token stands behind and the token. -/
def Pass.upTo (pass : Pass E S p) (q : Pool (List Word)) (pos : Nat) : List Word :=
  grown pass.layout q.context pass.tokens (pass.layout.reqIndices.getD pos 0)
    (pass.layout.tokenOffsets.getD pos 0 + 1)

/-- A layer of the model: where it has the sizes of the kernel it is built from the
configuration. -/
structure Serves (config : Config) (nextprime : Nat → Nat) (E : Setting) (L : Layer) : Prop where
  eos : L.eosTokenId = E.eosTokenId
  built : E.ngramSize = ngramSize → L.vocabSizes.length = ngramHeads →
    E.headsPerNgram = headsPerNgram ∧ ∃ layer, build nextprime config layer = .ok L

/-- The ids of a layer at a token whose context is the end of a sequence. -/
theorem layerIds_lastOf {L : Layer} {l : Layout} {contexts : List (List Word)} {seq : List Word}
    {pos : Nat} (hnext : ∀ n, n < nextprime n) (heos : InVocab config E.eosTokenId)
    (hsize : 0 < E.ngramSize) (hL : Serves config nextprime E L) (hne : seq ≠ [])
    (hseq : ∀ t ∈ seq, InVocab config t)
    (hcontext : contexts[pos]? = some (lastOf E.eosTokenId E.ngramSize seq)) :
    (layerIds onDevice E L l contexts)[pos]? =
      some (idsOf E.ngramSize E.headsPerNgram L seq) := by
  rw [← hashRow_lastOf hsize hne, hL.eos, layerIds]
  split
  · next hfuses =>
    simp only [fuses, canFuse, Bool.and_eq_true, beq_iff_eq] at hfuses
    obtain ⟨-, ⟨⟨⟨-, hthree⟩, -⟩, hheads⟩, -⟩ := hfuses
    obtain ⟨height, layer, hbuild⟩ := hL.built hthree hheads
    rw [height]
    rw [hthree] at hcontext ⊢
    refine fusedNgramHash_row hnext hbuild (hL.eos.symm ▸ heos) hcontext Tensor.length_lastOf ?_
    intro t ht
    rw [lastOf] at ht
    rcases List.mem_append.mp (List.mem_of_mem_drop ht) with hpad | hmem
    · rw [List.eq_of_mem_replicate hpad]
      exact heos
    · exact hseq t hmem
  · rw [List.getElem?_map, hcontext, Option.map_some]

theorem Pass.holds {q : Pool (List Word)} (pass : Pass E S (q.map (ends E S))) :
    S.rowLength = E.ngramSize - 1 ∧
      Holds pass.layout E.eosTokenId S.rowLength q.context pass.tokens pass.context :=
  ngramContext_holds (layoutOf_laid pass.layout_eq) pass.covered pass.length_tokens pass.context_eq

section

variable {q : Pool (List Word)} {pos : Nat}

theorem Pass.windows_eq (pass : Pass E S (q.map (ends E S))) (hsize : 0 < E.ngramSize)
    (hpos : pos < pass.layout.processedTokens)
    (hlive : pass.layout.validTokens.getD pos false = true) :
    (windows E.ngramSize pass.layout pass.context)[pos]? =
      some (lastOf E.eosTokenId E.ngramSize (pass.upTo q pos)) := by
  obtain ⟨hrow, hholds⟩ := pass.holds
  have hwindow := hholds.windows (layoutOf_laid pass.layout_eq) pass.covered pass.length_tokens
    hpos hlive
  have hwidth : S.rowLength + 1 = E.ngramSize := by omega
  rw [hwidth] at hwindow
  exact hwindow

theorem Pass.upTo_ne_nil (pass : Pass E S (q.map (ends E S)))
    (hpos : pos < pass.layout.processedTokens)
    (hlive : pass.layout.validTokens.getD pos false = true) : pass.upTo q pos ≠ [] := by
  have hlaid := layoutOf_laid pass.layout_eq
  obtain ⟨hr, ht⟩ := pass.holds.2.column pos hpos
  rw [hlaid.valid pass.covered pos hpos, decide_eq_true_eq] at hlive
  have hlength := hlaid.length_request pass.covered pass.length_tokens hr
  intro hnil
  have hlen := congrArg List.length hnil
  rw [Pass.upTo, grown, List.length_append, List.length_take, hlength, List.length_nil] at hlen
  omega

end

/-- In every run the ids of a token, in every layer, are those of what its request has had accepted
with the tokens up to it. -/
theorem ids_of_history (hnext : ∀ n, n < nextprime n) (heos : InVocab config E.eosTokenId)
    (hsize : 0 < E.ngramSize) (h : (ngramSlots E S).Runs (CompleteIn E (InVocab config)) es p) :
    ∃ q, (histories E S Word).Runs (CompleteIn E (InVocab config)) es q ∧
      ∀ (pass : Pass E S p) (batch : Nat) (cached : Option WindowCache) (layers : List Layer),
        (∀ t ∈ pass.inputIds, InVocab config t) → (∀ c ∈ cached, c.batch ≠ batch) →
        (∀ L ∈ layers, Serves config nextprime E L) →
        ∀ i L pos, layers[i]? = some L → pos < pass.layout.processedTokens →
          pass.layout.validTokens.getD pos false = true →
          ((computeAll onDevice E batch pass.layout pass.context layers cached).getD i [])[pos]? =
            some (idsOf E.ngramSize E.headsPerNgram L (pass.upTo q pos)) := by
  obtain ⟨q, hq, rfl, hall⟩ := ngramSlots_simulated_all h
  refine ⟨q, hq, ?_⟩
  intro pass batch cached layers htokens hcached hlayers i L pos hi hpos hlive
  have hL := hlayers L (List.mem_of_getElem? hi)
  have hids : (computeAll onDevice E batch pass.layout pass.context layers cached).getD i [] =
      layerIds onDevice E L pass.layout (windows E.ngramSize pass.layout pass.context) := by
    have hall := @computeAll_eq onDevice E batch pass.layout pass.context cached layers
      (fun L hL => (hlayers L hL).eos) fun c hc hbatch => absurd hbatch (hcached c hc)
    rw [hall, List.getD_eq_getElem?_getD, List.getElem?_map, hi]
    rfl
  have hne := pass.upTo_ne_nil hpos hlive
  rw [hids]
  refine layerIds_lastOf hnext heos hsize hL hne ?_ (pass.windows_eq hsize hpos hlive)
  exact grown_all hall.context fun t ht => htokens t (List.mem_of_mem_take ht)

end

/-- The request goes on with one token. -/
def samplePass : Pass sampleSetting sampleShape samplePool where
  fb := sampleBatch .decode none
  inputIds := [9]
  layout := ⟨⟨[1], 1, [0], [0]⟩, .decode, false, 1, 1, [true], [1]⟩
  context := [[5, 7, 9]]
  layout_eq := rfl
  covered := trivial
  context_eq := rfl

theorem ids_of_history_sample : ∃ q L, build smallPrime smallConfig 0 = .ok L ∧
    (histories sampleSetting sampleShape Word).Runs
      (CompleteIn sampleSetting (InVocab smallConfig)) [samplePrefill] q ∧
    ((computeAll false sampleSetting 0 samplePass.layout samplePass.context [L] none).getD 0
      [])[0]? = some (idsOf 3 8 L (samplePass.upTo q 0)) := by
  have hprefill : ∀ p : Pool (List Word),
      CompleteIn sampleSetting (InVocab smallConfig) p samplePrefill := by
    refine fun p => ⟨samplePrefill_complete p, fun t ht => ?_⟩
    rcases List.mem_pair.mp ht with rfl | rfl
    · exact ⟨by decide, by decide⟩
    · exact ⟨by decide, by decide⟩
  have hbuild : build smallPrime smallConfig 0 = .ok _ := rfl
  have heos : InVocab smallConfig sampleSetting.eosTokenId :=
    ⟨by decide, by decide⟩
  obtain ⟨q, hq, hids⟩ := @ids_of_history smallConfig smallPrime false sampleSetting sampleShape
    [samplePrefill] samplePool lt_smallPrime heos (by decide) (samplePool_runs hprefill)
  refine ⟨q, _, hbuild, hq, ?_⟩
  refine hids samplePass 0 none [_] ?_ (fun c hc => by cases hc) (fun L hL => ?_) 0 _ 0 rfl
    (by decide) rfl
  · intro t ht
    rw [List.mem_singleton.mp ht]
    exact ⟨by decide, by decide⟩
  · rw [List.mem_singleton.mp hL]
    exact ⟨rfl, fun _ _ => ⟨rfl, 0, hbuild⟩⟩

end Ngram
end FlashNext
