import FlashNext.Qsa.Pool
import Mathlib.Algebra.Group.Action.Defs

/-!
# What a forward does to the pool

A paged forward stores its rows in the ring and compresses the group that a row ends, from the
ring as it is after all rows are stored (`update_paged`); the eager plan and the CUDA-graph plan
write the same groups.  An extend compresses the groups of its chunk from the chunk and leaves the
tail in the ring (`update_extend`).
-/

namespace FlashNext
namespace Qsa

variable {Key : Type} {l : Layout}

/-- Each completed group gets its members; every other write goes to the reserved slot. -/
structure Compresses (l : Layout) (writes : List (Nat × List Key)) (completes : Nat → Prop)
    (members : Nat → List Key) : Prop where
  sound : ∀ w ∈ writes, w.1 = 0 ∨ ∃ g, completes g ∧ w = (l.groupSlot g, members g)
  complete : ∀ g, completes g → (l.groupSlot g, members g) ∈ writes

section Compresses

variable {writes : List (Nat × List Key)} {completes : Nat → Prop} {members : Nat → List Key}
  {compressed : Nat → List Key} {g : Nat}

theorem Compresses.stored (h : Compresses l writes completes members) (hg : completes g) :
    Tensor.scatter compressed writes (l.groupSlot g) = members g := by
  refine Tensor.scatter_of_mem ⟨_, h.complete g hg, rfl⟩ fun w hw hloc => ?_
  rcases h.sound w hw with hzero | ⟨g', -, rfl⟩
  · exact absurd (hloc.symm.trans hzero) (l.groupSlot_ne_zero g)
  · rw [l.groupSlot_injective hloc]

theorem Compresses.kept (h : Compresses l writes completes members) (hg : ¬ completes g) :
    Tensor.scatter compressed writes (l.groupSlot g) = compressed (l.groupSlot g) := by
  refine Tensor.scatter_of_notMem fun w hw hloc => ?_
  rcases h.sound w hw with hzero | ⟨g', hg', rfl⟩
  · exact l.groupSlot_ne_zero g (hloc.symm.trans hzero)
  · rw [l.groupSlot_injective hloc] at hg'
    exact hg hg'

end Compresses

/-! ## Paged forwards -/

/-- A row of the forward ends the group. -/
def Completes (l : Layout) (start rows group : Nat) : Prop :=
  ∃ j < rows, start + j + 1 = (group + 1) * l.ratio

def ringMembers (l : Layout) (keyState : Nat → Key) (group : Nat) : List Key :=
  (List.range l.ratio).map fun k => keyState (l.ringSlot (group * l.ratio + k))

/-- The ring after the rows are stored. -/
def pagedKeyState (l : Layout) (keyState : Nat → Key) (start : Nat) (keys : List Key) :
    Nat → Key :=
  Tensor.scatter keyState
    (((List.range keys.length).map fun j => l.ringSlot (start + j)).zip keys)

/-- A length that is a multiple of the ratio ends a group. -/
theorem ends_group {length : Nat} (hpos : 0 < length) (h : length % l.ratio = 0) :
    length = (length / l.ratio - 1 + 1) * l.ratio := by
  have hdvd : length / l.ratio * l.ratio = length := Nat.div_mul_cancel (Nat.dvd_of_mod_eq_zero h)
  have hquot : length / l.ratio ≠ 0 := by
    intro hzero
    rw [hzero] at hdvd
    omega
  rw [Nat.sub_one_add_one hquot, hdvd]

theorem succ_mul_sub {group k : Nat} (hk : k < l.ratio) :
    (group + 1) * l.ratio - 1 - (l.ratio - 1 - k) = group * l.ratio + k := by
  rw [Nat.succ_mul]
  omega

theorem pagedRingSlots (start rows : Nat) (lengths : List Nat) :
    buildPendingRingSlots (List.range rows) (List.replicate rows l.request) lengths
        (Layout.pagedPositions start rows) l.ratio false =
      (List.range rows).map fun j => l.ringSlot (start + j) := by
  rw [buildPendingRingSlots, Layout.pagedPositions, List.zipWith_map_right, List.zipWith_self]
  refine List.map_congr_left fun j hj => ?_
  simp only [Bool.false_and, Bool.false_eq_true, if_false]
  rw [List.getD_replicate _ (List.mem_range.mp hj), Layout.ringSlot]

/-- The CUDA-graph plan: one write for each row. -/
def graphWrites (l : Layout) (keyState : Nat → Key) (start rows : Nat) :
    List (Nat × List Key) :=
  (List.range rows).map fun j =>
    (if (start + j + 1) % l.ratio = 0 ∧ 0 < start + j + 1 then l.tokenSlot (start + j) / l.ratio
      else 0,
    (List.range l.ratio).map fun k =>
      keyState (l.request * l.ratio + (start + j - (l.ratio - 1 - k)) % l.ratio))

theorem graphWrites_compresses (keyState : Nat → Key) (start rows : Nat) :
    Compresses l (graphWrites l keyState start rows) (Completes l start rows)
      (ringMembers l keyState) := by
  have hrow {j g : Nat} (hend : start + j + 1 = (g + 1) * l.ratio) :
      (if (start + j + 1) % l.ratio = 0 ∧ 0 < start + j + 1 then
          l.tokenSlot (start + j) / l.ratio else 0) = l.groupSlot g ∧
        ((List.range l.ratio).map fun k =>
          keyState (l.request * l.ratio + (start + j - (l.ratio - 1 - k)) % l.ratio)) =
            ringMembers l keyState g := by
    have hpos := l.ratio_pos
    have hlast : start + j = (g + 1) * l.ratio - 1 := by omega
    refine ⟨?_, List.map_congr_left fun k hk => ?_⟩
    · have hslot := l.tokenSlot_div_groupSlot g
        (Nat.sub_lt l.ratio_pos Nat.one_pos)
      have hsum : start + j = g * l.ratio + (l.ratio - 1) := by
        rw [Nat.succ_mul] at hend
        omega
      rw [if_pos ⟨by rw [hend, Nat.mul_mod_left], Nat.succ_pos _⟩, hsum, hslot]
    · rw [hlast, succ_mul_sub (List.mem_range.mp hk), Layout.ringSlot]
  constructor
  · intro w hw
    obtain ⟨j, hj, rfl⟩ := List.mem_map.mp hw
    by_cases hbound : (start + j + 1) % l.ratio = 0
    · have hend := ends_group (Nat.succ_pos _) hbound
      obtain ⟨hloc, hmembers⟩ := hrow hend
      exact .inr ⟨_, ⟨j, List.mem_range.mp hj, hend⟩, by rw [hloc, hmembers]⟩
    · exact .inl (if_neg fun h => hbound h.1)
  · rintro g ⟨j, hj, hend⟩
    obtain ⟨hloc, hmembers⟩ := hrow hend
    exact List.mem_map.mpr ⟨j, List.mem_range.mpr hj, by rw [hloc, hmembers]⟩

/-! ### The eager plan -/

theorem getD_map_range {f : Nat → Nat} {n i : Nat} (h : i < n) :
    ((List.range n).map f).getD i 0 = f i := by
  have hlen : i < ((List.range n).map f).length := by simpa using h
  rw [List.getD_eq_getElem _ _ hlen, List.getElem_map, List.getElem_range]

theorem planCounts_map_range (n : Nat) (f g : Nat → Nat) :
    planCounts ((List.range n).map f) ((List.range n).map g) =
      (List.range n).map fun j => g j - f j := by
  rw [planCounts, List.zipWith_map, List.zipWith_self]

/-- The block at which row `j` starts. -/
def startBlock (l : Layout) (start j : Nat) : Nat :=
  (start + j + 1) / l.ratio - if (start + j + 1) % l.ratio = 0 then 1 else 0

def endBlock (l : Layout) (start j : Nat) : Nat := (start + j + 1) / l.ratio

theorem pagedPlan_eq (start rows : Nat) :
    Layout.pagedPlan l.ratio ((Layout.pagedPositions start rows).map (· + 1)) =
      writePlan ((List.range rows).map (startBlock l start))
        ((List.range rows).map (endBlock l start)) rows := by
  have hlength : ((Layout.pagedPositions start rows).map (· + 1)).length = rows := by
    simp [Layout.pagedPositions]
  rw [Layout.pagedPlan, hlength, Layout.pagedPositions]
  simp only [List.map_map]
  rfl

/-- A row has one block when its length ends a group, and none otherwise. -/
theorem endBlock_sub_startBlock (start j : Nat) :
    endBlock l start j - startBlock l start j =
      if (start + j + 1) % l.ratio = 0 then 1 else 0 := by
  unfold endBlock startBlock
  split
  · next h =>
    have hquot : (start + j + 1) / l.ratio ≠ 0 := by
      intro hzero
      have hdvd := Nat.div_mul_cancel (Nat.dvd_of_mod_eq_zero h)
      rw [hzero] at hdvd
      omega
    exact Nat.sub_sub_self (Nat.one_le_iff_ne_zero.mpr hquot)
  · rw [Nat.sub_zero, Nat.sub_self]

def pagedWrites (l : Layout) (keyState : Nat → Key) (start rows : Nat) :
    List (Nat × List Key) :=
  (Layout.pagedPlan l.ratio ((Layout.pagedPositions start rows).map (· + 1))).map fun e =>
    (e.writeLoc (fun _ => l.tokenSlot) l.ratio,
    (List.range l.ratio).map fun k =>
      keyState ((List.replicate rows l.request).getD e.row 0 * l.ratio +
        (e.groupEndPosition l.ratio - (l.ratio - 1 - k)) % l.ratio))

theorem pagedWrites_compresses (keyState : Nat → Key) (start rows : Nat) :
    Compresses l (pagedWrites l keyState start rows) (Completes l start rows)
      (ringMembers l keyState) := by
  have hcounts := planCounts_map_range rows (startBlock l start) (endBlock l start)
  -- What the entry of the block that row `j` ends writes.
  have hentry {j g : Nat} (hj : j < rows) :
      ((⟨true, j, g⟩ : PlanEntry).writeLoc (fun _ => l.tokenSlot) l.ratio,
        (List.range l.ratio).map fun k =>
          keyState ((List.replicate rows l.request).getD j 0 * l.ratio +
            ((⟨true, j, g⟩ : PlanEntry).groupEndPosition l.ratio - (l.ratio - 1 - k)) %
              l.ratio)) = (l.groupSlot g, ringMembers l keyState g) := by
    refine Prod.ext rfl (List.map_congr_left fun k hk => ?_)
    have hk := List.mem_range.mp hk
    have hmember : (⟨true, j, g⟩ : PlanEntry).groupEndPosition l.ratio - (l.ratio - 1 - k) =
        g * l.ratio + k := by
      show g * l.ratio + (l.ratio - 1) - (l.ratio - 1 - k) = g * l.ratio + k
      omega
    rw [hmember, List.getD_replicate _ hj, Layout.ringSlot]
  have hends {j : Nat} (hbound : (start + j + 1) % l.ratio = 0) :
      start + j + 1 = (startBlock l start j + 1) * l.ratio := by
    rw [startBlock, if_pos hbound]
    exact ends_group (Nat.succ_pos _) hbound
  unfold pagedWrites
  rw [pagedPlan_eq]
  constructor
  · intro w hw
    obtain ⟨e, he, rfl⟩ := List.mem_map.mp hw
    cases hvalid : e.valid with
    | false =>
      refine .inl (if_neg ?_)
      rw [hvalid]
      exact Bool.false_ne_true
    | true =>
      obtain ⟨hrow, hlow, hhigh⟩ := mem_writePlan_valid he hvalid
      rw [hcounts, List.length_map, List.length_range] at hrow
      rw [hcounts, getD_map_range hrow, getD_map_range hrow, endBlock_sub_startBlock] at hhigh
      rw [getD_map_range hrow] at hlow
      by_cases hbound : (start + e.row + 1) % l.ratio = 0
      · rw [if_pos hbound] at hhigh
        obtain ⟨valid, row, block⟩ := e
        obtain rfl : valid = true := hvalid
        obtain rfl : block = startBlock l start row := by
          show block = _
          simp only at hlow hhigh
          omega
        exact .inr ⟨_, ⟨row, hrow, hends hbound⟩, hentry hrow⟩
      · rw [if_neg hbound] at hhigh
        omega
  · rintro g ⟨j, hj, hend⟩
    have hbound : (start + j + 1) % l.ratio = 0 := by
      rw [hend, Nat.mul_mod_left]
    obtain rfl : startBlock l start j = g := by
      have heq := (hends hbound).symm.trans hend
      have hsucc := Nat.eq_of_mul_eq_mul_right l.ratio_pos heq
      omega
    have hone : ∀ c ∈ planCounts ((List.range rows).map (startBlock l start))
        ((List.range rows).map (endBlock l start)), c ≤ 1 := by
      rw [hcounts]
      intro c hc
      obtain ⟨i, -, rfl⟩ := List.mem_map.mp hc
      rw [endBlock_sub_startBlock]
      split <;> omega
    have hcapacity := List.sum_le_card_nsmul _ _ hone
    have hlength : (planCounts ((List.range rows).map (startBlock l start))
        ((List.range rows).map (endBlock l start))).length = rows := by
      rw [hcounts, List.length_map, List.length_range]
    rw [hlength, smul_eq_mul, Nat.mul_one] at hcapacity
    have hcovers := writePlan_covers j 0 (hlength.symm ▸ hj)
      (by rw [hcounts, getD_map_range hj, endBlock_sub_startBlock, if_pos hbound]
          exact Nat.one_pos) hcapacity
    rw [getD_map_range hj, Nat.add_zero] at hcovers
    exact List.mem_map.mpr ⟨_, hcovers, hentry hj⟩

theorem graphMetadata_writes (l : Layout) (Key : Type) (start rows : Nat) :
    ∃ writeLocs groupLocs, (l.graphMetadata start rows).graphWriteLocs = some writeLocs ∧
      (l.graphMetadata start rows).graphRingGroupLocs = some groupLocs ∧
      ∀ keyState : Nat → Key,
        writeLocs.zip (ringGroups keyState groupLocs) = graphWrites l keyState start rows := by
  refine ⟨_, _, rfl, rfl, fun keyState => ?_⟩
  rw [ringGroups, buildGroupRingSlots, Layout.pagedPositions, graphWrites]
  simp only [List.map_map, List.zipWith_map_left, List.zipWith_self, List.zip_map']
  refine List.map_congr_left fun j hj => ?_
  simp only [Function.comp_apply, List.map_map, Nat.add_sub_cancel,
    List.getD_replicate _ (List.mem_range.mp hj)]
  rfl

theorem pagedMetadata_writes (l : Layout) (Key : Type) (start rows : Nat) :
    ∃ writeLocs, (l.pagedMetadata start rows).writeLocs = some writeLocs ∧
      ∀ keyState : Nat → Key,
        writeLocs.zip (ringGroups keyState (l.pagedMetadata start rows).compressGroupRingLocs) =
          pagedWrites l keyState start rows := by
  refine ⟨_, rfl, fun keyState => ?_⟩
  show List.zip _ (ringGroups keyState (buildGroupRingSlots _ _ _ _)) = _
  rw [ringGroups, buildGroupRingSlots, List.zipWith_map, List.zipWith_self, List.map_map,
    List.zip_map', pagedWrites]
  refine List.map_congr_left fun e _ => ?_
  simp only [Function.comp_apply, List.map_map]
  rfl

theorem graphMetadata_ring (start rows : Nat) :
    (l.graphMetadata start rows).pendingRingSlots =
      (List.range rows).map fun j => l.ringSlot (start + j) := by
  have hpositions : ((Layout.pagedPositions start rows).map (· + 1)).map (· - 1) =
      Layout.pagedPositions start rows := by
    rw [List.map_map]
    exact List.map_id _
  rw [Layout.graphMetadata, hpositions]
  exact pagedRingSlots start rows _

theorem pagedMetadata_ring (start rows : Nat) :
    (l.pagedMetadata start rows).pendingRingSlots =
      (List.range rows).map fun j => l.ringSlot (start + j) :=
  pagedRingSlots start rows _

/-- Either plan: the rows are in the ring, and a group that a row ends is compressed from it. -/
theorem update_paged (dev : Device Key) (graph : Bool) (start : Nat) (keys : List Key)
    (pool : Pool Key) :
    ∃ writes, l.pagedForward dev graph start keys pool =
        .ok ⟨pagedKeyState l pool.keyState start keys, Tensor.scatter pool.compressed writes⟩ ∧
      Compresses l writes (Completes l start keys.length)
        (ringMembers l (pagedKeyState l pool.keyState start keys)) := by
  cases graph with
  | true =>
    obtain ⟨writeLocs, groupLocs, hlocs, hgroups, hwrites⟩ :=
      graphMetadata_writes l Key start keys.length
    refine ⟨_, ?_, graphWrites_compresses _ start keys.length⟩
    rw [← hwrites]
    simp only [Layout.pagedForward, if_true, updateKeyStateAndCompress, hlocs, hgroups,
      graphMetadata_ring]
    rfl
  | false =>
    obtain ⟨writeLocs, hlocs, hwrites⟩ :=
      pagedMetadata_writes l Key start keys.length
    refine ⟨_, ?_, pagedWrites_compresses _ start keys.length⟩
    rw [← hwrites]
    simp only [Layout.pagedForward, Bool.false_eq_true, if_false, updateKeyStateAndCompress, hlocs,
      pagedMetadata_ring]
    rfl

/-! ## Extends -/

/-- The ring slot of token `j` of a chunk: only the tail that no group takes is kept. -/
def chunkSlot (l : Layout) (start rows j : Nat) : Nat :=
  if (start + rows) / l.ratio * l.ratio ≤ start + j then l.ringSlot (start + j)
  else (start + j) % l.ratio

def chunkKeyState (l : Layout) (keyState : Nat → Key) (start : Nat) (keys : List Key) :
    Nat → Key :=
  Tensor.scatter keyState
    (((List.range keys.length).map (chunkSlot l start keys.length)).zip keys)

/-- The members of a group, read from the chunk. -/
def chunkMembers (l : Layout) (dev : Device Key) (start : Nat) (keys : List Key) (group : Nat) :
    List Key :=
  (List.range l.ratio).map fun k =>
    keys.getD (group * l.ratio - start + k) (dev.outside (group * l.ratio - start + k))

theorem extendRingSlots (start rows : Nat) :
    buildPendingRingSlots (List.replicate rows 0) [l.request] [start + rows]
        (Layout.pagedPositions start rows) l.ratio true =
      (List.range rows).map (chunkSlot l start rows) := by
  have hrows : List.replicate rows 0 = (List.range rows).map fun _ => 0 := by
    rw [List.map_const', List.length_range]
  rw [hrows, buildPendingRingSlots, Layout.pagedPositions, List.zipWith_map, List.zipWith_self]
  refine List.map_congr_left fun j _ => ?_
  simp only [Bool.true_and, List.getD_cons_zero, chunkSlot, Layout.ringSlot]
  split
  · next h => rw [if_neg (by simpa using h)]
  · next h => rw [if_pos (by simpa using h)]

/-- A gather that succeeds reads every row that is there. -/
theorem gather_ok {dev : Device Key} {source : List Key} {groupLocs : List (List Nat)}
    {groups : List (List Key)} (h : dev.gather source groupLocs = .ok groups) :
    groups = groupLocs.map fun locs => locs.map fun i => source.getD i (dev.outside i) := by
  unfold Device.gather at h
  split at h
  · exact (Except.ok.inj h).symm
  · have hrow (i : Nat) (key : Key)
        (hkey : Effect.orRaise source[i]? "index is out of bounds" = .ok key) :
        key = source.getD i (dev.outside i) := by
      rw [Effect.orRaise_ok] at hkey
      rw [List.getD_eq_getElem?_getD, hkey, Option.getD_some]
    exact Effect.mapM_eq_map (fun _ _ => Effect.mapM_eq_map hrow) h

def chunkPlan (l : Layout) (start rows : Nat) : List PlanEntry :=
  writePlan [start / l.ratio] [(start + rows) / l.ratio] (rows / l.ratio + 1)

def chunkWrites (l : Layout) (dev : Device Key) (start : Nat) (keys : List Key) :
    List (Nat × List Key) :=
  (chunkPlan l start keys.length).map fun e =>
    (e.writeLoc (fun _ => l.tokenSlot) l.ratio,
    (List.range l.ratio).map fun k =>
      keys.getD (e.memberRow [0] [start] l.ratio + k)
        (dev.outside (e.memberRow [0] [start] l.ratio + k)))

theorem chunkWrites_compresses (dev : Device Key) {start : Nat} (keys : List Key)
    (haligned : start % l.ratio = 0) :
    Compresses l (chunkWrites l dev start keys)
      (fun g => start / l.ratio ≤ g ∧ g < (start + keys.length) / l.ratio)
      (chunkMembers l dev start keys) := by
  have hentry (g : Nat) :
      ((⟨true, 0, g⟩ : PlanEntry).writeLoc (fun _ => l.tokenSlot) l.ratio,
        (List.range l.ratio).map fun k =>
          keys.getD ((⟨true, 0, g⟩ : PlanEntry).memberRow [0] [start] l.ratio + k)
            (dev.outside ((⟨true, 0, g⟩ : PlanEntry).memberRow [0] [start] l.ratio + k))) =
        (l.groupSlot g, chunkMembers l dev start keys g) := by
    have hrow : (⟨true, 0, g⟩ : PlanEntry).memberRow [0] [start] l.ratio =
        g * l.ratio - start := by
      show 0 + g * l.ratio - start = g * l.ratio - start
      rw [Nat.zero_add]
    rw [hrow]
    rfl
  have hstart : start / l.ratio * l.ratio = start :=
    Nat.div_mul_cancel (Nat.dvd_of_mod_eq_zero haligned)
  constructor
  · intro w hw
    obtain ⟨e, he, rfl⟩ := List.mem_map.mp hw
    cases hvalid : e.valid with
    | false =>
      refine .inl (if_neg ?_)
      rw [hvalid]
      exact Bool.false_ne_true
    | true =>
      obtain ⟨valid, row, block⟩ := e
      obtain rfl : valid = true := hvalid
      obtain ⟨hrow, hlow, hhigh⟩ := mem_writePlan_valid he rfl
      obtain rfl : row = 0 := Nat.lt_one_iff.mp hrow
      have hstartBlock : start / l.ratio ≤ block := hlow
      refine .inr ⟨block, ⟨hstartBlock, ?_⟩, hentry block⟩
      have hrange : block < start / l.ratio +
          ((start + keys.length) / l.ratio - start / l.ratio) := hhigh
      omega
  · rintro g ⟨hlow, hhigh⟩
    have hquot : (start + keys.length) / l.ratio = start / l.ratio + keys.length / l.ratio := by
      conv => lhs; rw [← hstart, Nat.mul_comm, Nat.mul_add_div l.ratio_pos]
    have hcovers := @writePlan_covers [start / l.ratio] [(start + keys.length) / l.ratio]
      (keys.length / l.ratio + 1) 0 (g - start / l.ratio) Nat.one_pos
      (show g - start / l.ratio < (start + keys.length) / l.ratio - start / l.ratio by omega)
      (show ((start + keys.length) / l.ratio - start / l.ratio) + 0 ≤ _ by omega)
    have hblock : [start / l.ratio].getD 0 0 + (g - start / l.ratio) = g :=
      Nat.add_sub_cancel' hlow
    rw [hblock] at hcovers
    exact List.mem_map.mpr ⟨_, hcovers, hentry g⟩

/-- An extend that completes has compressed the groups of its chunk and kept the tail. -/
theorem update_extend {dev : Device Key} {start : Nat} {keys : List Key} {pool pool' : Pool Key}
    (h : l.extendForward dev start keys pool = .ok pool') :
    pool' = ⟨chunkKeyState l pool.keyState start keys,
      Tensor.scatter pool.compressed (chunkWrites l dev start keys)⟩ := by
  simp only [Layout.extendForward, updateKeyStateAndCompress, Layout.extendMetadata,
    Bool.false_eq_true, if_false, extendRingSlots] at h
  cases hgather : dev.gather keys (((chunkPlan l start keys.length).map
      (PlanEntry.memberRow [0] [start] l.ratio)).map fun row =>
        (List.range l.ratio).map (row + ·)) with
  | error e =>
    rw [chunkPlan] at hgather
    rw [hgather] at h
    cases h
  | ok groups =>
    have hgroups := gather_ok hgather
    rw [chunkPlan] at hgather
    rw [hgather] at h
    rw [← Except.ok.inj h, hgroups, ← chunkPlan, List.map_map, List.map_map]
    show Pool.mk _ (Tensor.scatter _ (List.zip _ _)) = _
    rw [List.zip_map']
    refine congrArg (fun writes => Pool.mk _ (Tensor.scatter pool.compressed writes)) ?_
    refine List.map_congr_left fun e _ => ?_
    simp only [Function.comp_apply, List.map_map]
    rfl

end Qsa
end FlashNext
