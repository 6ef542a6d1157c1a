import FlashNext.Qsa.Packing

/-!
# What the copies leave in the packed rows

A copy that packs each index row first leaves the selected slots of every row.  The copy that
writes lane after lane does so exactly for the rows whose selected entries stand in front:
`packs_iff`.
-/

namespace FlashNext
namespace Qsa

open Tensor (offset cdiv nextPowerOf2 Leaves)

variable {α F : Type}

/-! ## The row bounds -/

theorem isValid_neg_one (length : Nat) : isValid length (-1) = false := by
  rw [isValid, decide_eq_false_iff_not]
  omega

theorem loadIndex_eq {topk : Nat} {indices : List Int} (h : indices.length = topk) (col : Nat) :
    loadIndex topk indices col = indices.getD col (-1) := by
  rw [loadIndex]
  split
  · rfl
  · next hcol => rw [List.getD_eq_default _ _ (by omega)]

theorem sum_lanes (p : Int → Bool) (hp : p (-1) = false) (indices : List Int) (n : Nat)
    (h : indices.length ≤ n) :
    ((List.range n).map fun col => if p (indices.getD col (-1)) then 1 else 0).sum =
      indices.countP p := by
  induction indices generalizing n with
  | nil =>
    rw [List.countP_nil, List.sum_eq_zero]
    rw [List.forall_mem_map]
    intro col _
    rw [List.getD_nil, hp, if_neg Bool.false_ne_true]
  | cons x indices ih =>
    obtain ⟨m, rfl⟩ : ∃ m, n = m + 1 := ⟨n - 1, by rw [List.length_cons] at h; omega⟩
    rw [List.range_succ_eq_map, List.map_cons, List.map_map, List.sum_cons, List.countP_cons]
    have hrest := ih m (by rw [List.length_cons] at h; omega)
    show (if p x then 1 else 0) + ((List.range m).map fun col =>
      if p (indices.getD col (-1)) then 1 else 0).sum = _
    rw [hrest, Nat.add_comm]

theorem fa2ValidCounts_eq {topk : Nat} {r : IndexRow} (h : r.indices.length = topk) :
    fa2ValidCounts topk r = r.selected.length := by
  rw [fa2ValidCounts, IndexRow.selected, ← List.countP_eq_length_filter,
    ← sum_lanes (isValid r.length) (isValid_neg_one r.length) r.indices (nextPowerOf2 topk)
      (h ▸ Tensor.le_nextPowerOf2 _)]
  simp only [loadIndex_eq h]

theorem take_rowCounts (counts : List Nat) {n k : Nat} (hk : k ≤ counts.length)
    (hn : counts.length ≤ n) :
    ((List.range n).map fun row => if row < counts.length then counts.getD row 0 else 0).take k =
      counts.take k := by
  refine List.ext_getElem ?_ fun i hi hi' => ?_
  · rw [List.length_take, List.length_map, List.length_range, List.length_take]
    omega
  · rw [List.length_take] at hi'
    rw [List.getElem_take, List.getElem_map, List.getElem_range, if_pos (by omega),
      List.getElem_take, List.getD_eq_getElem _ _ (by omega)]

theorem fa2PrefixSum_eq (counts : List Nat) {b : Nat} (h : b ≤ counts.length) :
    (fa2PrefixSum counts counts.length).getD b 0 = (counts.take b).sum := by
  cases b with
  | zero => rfl
  | succ b =>
    have hn := Tensor.le_nextPowerOf2 counts.length
    rw [fa2PrefixSum, List.getD_cons_succ, List.getD_eq_getElem _ _ (by
        rw [List.length_map, List.length_range]
        omega), List.getElem_map, List.getElem_range, List.getD_eq_getElem _ _ (by
        rw [Tensor.length_cumsum, List.length_map, List.length_range]
        omega), Tensor.getElem_cumsum, take_rowCounts counts h hn]

/-- Where the packed rows of a row start. -/
def Batch.start (batch : Batch) (b : Nat) : Nat :=
  ((batch.rows.map fun r => r.selected.length).take b).sum

theorem Batch.start_succ (batch : Batch) {b : Nat} {r : IndexRow} (h : batch.rows[b]? = some r) :
    batch.start (b + 1) = batch.start b + r.selected.length := by
  rw [start, start, Tensor.sum_take_succ_getD, List.getD_eq_getElem?_getD, List.getElem?_map, h]
  rfl

theorem cuSeqlens_eq (batch : Batch) {b : Nat} (h : b ≤ batch.rows.length) :
    (qwenSparseFa2CuSeqlens batch).getD b 0 = batch.start b := by
  have hcounts : batch.rows.map (fa2ValidCounts batch.topk) =
      batch.rows.map fun r => r.selected.length :=
    List.map_congr_left fun r hr => fa2ValidCounts_eq (batch.width r hr)
  have hprefix := fa2PrefixSum_eq (batch.rows.map fun r => r.selected.length) (b := b)
    (by rwa [List.length_map])
  rw [qwenSparseFa2CuSeqlens, hcounts, Batch.start, ← hprefix, List.length_map]

/-- A packed row belongs to one index row. -/
theorem Batch.row_inj (batch : Batch) {b b' i i' : Nat} {r r' : IndexRow}
    (hb : batch.rows[b]? = some r) (hb' : batch.rows[b']? = some r') (hi : i < r.selected.length)
    (hi' : i' < r'.selected.length) (h : batch.start b + i = batch.start b' + i') :
    b = b' ∧ i = i' := by
  have hmono : ∀ {c d : Nat}, c ≤ d → batch.start c ≤ batch.start d := fun hcd =>
    List.monotone_sum_take _ hcd
  have hnext := batch.start_succ hb
  have hnext' := batch.start_succ hb'
  rcases Nat.lt_trichotomy b b' with hlt | rfl | hlt
  · have := hmono (show b + 1 ≤ b' from hlt)
    omega
  · exact ⟨rfl, by omega⟩
  · have := hmono (show b' + 1 ≤ b from hlt)
    omega

/-! ## The stores of a launch -/

/-- The lane of a row, with the bounds that its program loads. -/
def Batch.laneOf (batch : Batch) (lane : Nat → IndexRow → Nat → Nat → Nat → Option (Nat × Nat))
    (b : Nat) (r : IndexRow) (col : Nat) : Option (Nat × Nat) :=
  lane b r (batch.start b) r.selected.length col

theorem mem_compactProgram {heads dim head block : Nat} {element : Nat → Nat → Nat → α}
    {lane : Nat → Option (Nat × Nat)} {w : Nat × α} :
    w ∈ compactProgram heads dim element lane head block ↔ ∃ i < 16, ∃ row slot d,
      lane (block * 16 + i) = some (row, slot) ∧ d < dim ∧
        w = (offset heads dim row head d, element slot head d) := by
  rw [compactProgram, List.mem_flatMap]
  constructor
  · rintro ⟨i, hi, hw⟩
    refine ⟨i, List.mem_range.mp hi, ?_⟩
    split at hw
    · next row slot hlane =>
      obtain ⟨d, -, hd⟩ := List.mem_filterMap.mp hw
      split at hd
      · next hdim => exact ⟨row, slot, d, hlane, hdim, (Option.some.inj hd).symm⟩
      · cases hd
    · exact absurd hw List.not_mem_nil
  · rintro ⟨i, hi, row, slot, d, hlane, hd, hw⟩
    refine ⟨i, List.mem_range.mpr hi, ?_⟩
    rw [hlane]
    have hrange : d < nextPowerOf2 dim := lt_of_lt_of_le hd (Tensor.le_nextPowerOf2 dim)
    exact List.mem_filterMap.mpr ⟨d, List.mem_range.mpr hrange, by rw [if_pos hd, hw]⟩

theorem mem_compactLaunch {batch : Batch} {heads dim : Nat} {element : Nat → Nat → Nat → α}
    {lane : Nat → IndexRow → Nat → Nat → Nat → Option (Nat × Nat)} {w : Nat × α}
    (hlane : ∀ b r s c col, batch.topk ≤ col → lane b r s c col = none) :
    w ∈ compactLaunch batch heads dim element lane ↔ ∃ b r head col row slot d,
      batch.rows[b]? = some r ∧ head < heads ∧ d < dim ∧
        batch.laneOf lane b r col = some (row, slot) ∧
        w = (offset heads dim row head d, element slot head d) := by
  have hbounds : ∀ {b : Nat} {r : IndexRow}, batch.rows[b]? = some r →
      (qwenSparseFa2CuSeqlens batch).getD b 0 = batch.start b ∧
      (qwenSparseFa2CuSeqlens batch).getD (b + 1) 0 - (qwenSparseFa2CuSeqlens batch).getD b 0 =
        r.selected.length := by
    intro b r hb
    obtain ⟨hlt, -⟩ := List.getElem?_eq_some_iff.mp hb
    rw [cuSeqlens_eq batch (Nat.le_of_lt hlt), cuSeqlens_eq batch hlt, batch.start_succ hb]
    exact ⟨rfl, Nat.add_sub_cancel_left _ _⟩
  rw [compactLaunch, List.mem_flatMap]
  constructor
  · rintro ⟨⟨r, b⟩, hb, hw⟩
    have hb := List.mem_zipIdx_iff_getElem?.mp hb
    dsimp only at hb hw
    rw [(hbounds hb).2, (hbounds hb).1, List.mem_flatMap] at hw
    obtain ⟨head, hhead, hw⟩ := hw
    obtain ⟨block, -, hw⟩ := List.mem_flatMap.mp hw
    obtain ⟨i, -, row, slot, d, hlane, hd, hw⟩ := mem_compactProgram.mp hw
    exact ⟨b, r, head, block * 16 + i, row, slot, d, hb, List.mem_range.mp hhead, hd, hlane, hw⟩
  · rintro ⟨b, r, head, col, row, slot, d, hb, hhead, hd, hsome, hw⟩
    have hcol : col < batch.topk := by
      by_contra hge
      rw [Batch.laneOf, hlane _ _ _ _ _ (Nat.le_of_not_lt hge)] at hsome
      cases hsome
    refine ⟨(r, b), List.mem_zipIdx_iff_getElem?.mpr hb, ?_⟩
    dsimp only
    rw [(hbounds hb).2, (hbounds hb).1, List.mem_flatMap]
    refine ⟨head, List.mem_range.mpr hhead, List.mem_flatMap.mpr ⟨col / 16, ?_, ?_⟩⟩
    · exact List.mem_range.mpr (Tensor.lt_cdiv_mul (by decide) hcol)
    · refine mem_compactProgram.mpr ⟨col % 16, Nat.mod_lt _ (by decide), row, slot, d, ?_, hd, hw⟩
      rw [Nat.mul_comm, Nat.div_add_mod]
      exact hsome

/-! ## What a copy is to leave -/

/-- Every packed row of every index row holds the elements of the slot of its selected entry. -/
def Filled (batch : Batch) (reqToToken : Nat → Nat → Nat) (heads dim : Nat)
    (element : Nat → Nat → Nat → α) (memory : Nat → Option α) : Prop :=
  ∀ b r, batch.rows[b]? = some r → ∀ i position, r.selected[i]? = some position →
    ∀ head < heads, ∀ d < dim,
      memory (offset heads dim ((qwenSparseFa2CuSeqlens batch).getD b 0 + i) head d) =
        some (element (reqToToken r.request position.toNat) head d)

/-- The bounds of the packed rows are those of the selected entries. -/
def Bounds (batch : Batch) : Prop :=
  (qwenSparseFa2CuSeqlens batch).getD 0 0 = 0 ∧ ∀ b r, batch.rows[b]? = some r →
    (qwenSparseFa2CuSeqlens batch).getD (b + 1) 0 =
      (qwenSparseFa2CuSeqlens batch).getD b 0 + r.selected.length

theorem bounds (batch : Batch) : Bounds batch := by
  refine ⟨rfl, fun b r hb => ?_⟩
  obtain ⟨hlt, -⟩ := List.getElem?_eq_some_iff.mp hb
  rw [cuSeqlens_eq batch hlt, cuSeqlens_eq batch (Nat.le_of_lt hlt), batch.start_succ hb]

/-- A launch whose lanes are the selected entries leaves them in the packed rows. -/
theorem holds_of_lanes {batch : Batch} {reqToToken : Nat → Nat → Nat} {heads dim : Nat}
    {element : Nat → Nat → Nat → α} {memory : Nat → Option α}
    {lane : Nat → IndexRow → Nat → Nat → Nat → Option (Nat × Nat)}
    (hlane : ∀ b r s c col, batch.topk ≤ col → lane b r s c col = none)
    (hlanes : ∀ b r, batch.rows[b]? = some r → ∀ col, batch.laneOf lane b r col =
      (r.selected[col]?).map fun p => (batch.start b + col, reqToToken r.request p.toNat))
    (h : Leaves (compactLaunch batch heads dim element lane) memory) :
    Filled batch reqToToken heads dim element memory := by
  intro b r hb i position hi head hhead d hd
  obtain ⟨hlt, -⟩ := List.getElem?_eq_some_iff.mp hb
  obtain ⟨hilt, -⟩ := List.getElem?_eq_some_iff.mp hi
  rw [cuSeqlens_eq batch (Nat.le_of_lt hlt)]
  refine h.eq_some ((mem_compactLaunch hlane).mpr
    ⟨b, r, head, i, _, _, d, hb, hhead, hd, ?_, rfl⟩) ?_
  · rw [hlanes b r hb, hi]
    rfl
  · intro w hw haddress
    obtain ⟨b', r', head', col, row, slot, d', hb', hhead', hd', hsome, rfl⟩ :=
      (mem_compactLaunch hlane).mp hw
    rw [hlanes b' r' hb', Option.map_eq_some_iff] at hsome
    obtain ⟨position', hposition', hpair⟩ := hsome
    obtain ⟨rfl, rfl⟩ := Prod.mk.inj hpair
    obtain ⟨hcol, -⟩ := List.getElem?_eq_some_iff.mp hposition'
    obtain ⟨hrow, rfl, rfl⟩ := Tensor.offset_inj hhead' hhead hd' hd haddress
    obtain ⟨rfl, rfl⟩ := batch.row_inj hb' hb hcol hilt hrow
    obtain rfl := Option.some.inj (hb'.symm.trans hb)
    obtain rfl := Option.some.inj (hposition'.symm.trans hi)
    rfl

/-! ## The two copies -/

theorem compactLane_of_invalid {reqToToken : Nat → Nat → Nat} {r : IndexRow} {s c col : Nat} :
    compactLane reqToToken r s c (-1) col = none := by
  rw [compactLane, isValid_neg_one, if_neg]
  exact fun h => Bool.false_ne_true h.2

theorem compactKvLane_none {reqToToken : Nat → Nat → Nat} {topk col : Nat} (hcol : topk ≤ col)
    (r : IndexRow) (s c : Nat) : compactKvLane reqToToken topk r s c col = none := by
  rw [compactKvLane, loadIndex, if_neg (by omega)]
  exact compactLane_of_invalid

theorem compactNvfp4Lane_none {reqToToken : Nat → Nat → Nat} {topk col : Nat} (hcol : topk ≤ col)
    (packed : Nat → Int) (r : IndexRow) (s c : Nat) :
    compactNvfp4Lane reqToToken topk packed r s c col = none := by
  rw [compactNvfp4Lane, if_neg (by omega)]
  exact compactLane_of_invalid

/-- The selected entries stand in front of the others. -/
def IndexRow.Gapless (r : IndexRow) : Prop := r.selected <+: r.indices

theorem isValid_selected {r : IndexRow} {i : Nat} {position : Int}
    (h : r.selected[i]? = some position) : isValid r.length position = true := by
  obtain ⟨hi, hposition⟩ := List.getElem?_eq_some_iff.mp h
  exact (List.mem_filter.mp (hposition ▸ List.getElem_mem hi)).2

theorem selected_length_le (r : IndexRow) : r.selected.length ≤ r.indices.length :=
  List.length_filter_le _ _

theorem nvfp4_lanes {batch : Batch} {reqToToken : Nat → Nat → Nat} (fresh : Nat → Nat → Int)
    {b : Nat} {r : IndexRow} (hb : batch.rows[b]? = some r) (col : Nat) :
    batch.laneOf (fun b r => compactNvfp4Lane reqToToken batch.topk (packIndices (fresh b) r) r)
      b r col =
      (r.selected[col]?).map fun p => (batch.start b + col, reqToToken r.request p.toNat) := by
  rw [Batch.laneOf, compactNvfp4Lane, compactLane]
  have hwidth := batch.width r (List.mem_of_getElem? hb)
  cases hposition : r.selected[col]? with
  | none =>
    have hcol := List.getElem?_eq_none_iff.mp hposition
    rw [if_neg fun h => absurd h.1 (by omega)]
    rfl
  | some position =>
    obtain ⟨hcol, -⟩ := List.getElem?_eq_some_iff.mp hposition
    have hle := selected_length_le r
    have hpacked : packIndices (fresh b) r col = position := Tensor.scatter_rank hposition
    rw [if_pos (c := col < batch.topk ∧ col < r.selected.length) ⟨by omega, hcol⟩, hpacked,
      if_pos ⟨hcol, isValid_selected hposition⟩]
    rfl

theorem IndexRow.Gapless.lanes {batch : Batch} {reqToToken : Nat → Nat → Nat} {b : Nat} {r : IndexRow}
    (hb : batch.rows[b]? = some r) (h : r.Gapless) (col : Nat) :
    batch.laneOf (fun _ => compactKvLane reqToToken batch.topk) b r col =
      (r.selected[col]?).map fun p => (batch.start b + col, reqToToken r.request p.toNat) := by
  rw [Batch.laneOf, compactKvLane, compactLane,
    loadIndex_eq (batch.width r (List.mem_of_getElem? hb))]
  cases hposition : r.selected[col]? with
  | none =>
    have hcol := List.getElem?_eq_none_iff.mp hposition
    rw [if_neg fun h => absurd h.1 (by omega)]
    rfl
  | some position =>
    obtain ⟨hcol, -⟩ := List.getElem?_eq_some_iff.mp hposition
    have hindex : r.indices[col]? = some position := by
      obtain ⟨rest, hrest⟩ := h
      rw [← hrest, List.getElem?_append_left hcol]
      exact hposition
    rw [List.getD_eq_getElem?_getD, hindex, Option.getD_some,
      if_pos ⟨hcol, isValid_selected hposition⟩]
    rfl

/-- A row all of whose first entries, as many as are selected, are valid. -/
theorem gapless_of_valid {r : IndexRow} (h : ∀ i < r.selected.length,
    ∃ position, r.indices[i]? = some position ∧ isValid r.length position = true) :
    r.Gapless := by
  have hfront : (r.indices.take r.selected.length).filter (isValid r.length) =
      r.indices.take r.selected.length := by
    rw [List.filter_eq_self]
    intro position hmem
    obtain ⟨i, hi, hget⟩ := List.mem_take_iff_getElem.mp hmem
    obtain ⟨position', hposition', hvalid⟩ := h i (by omega)
    obtain ⟨_, hget'⟩ := List.getElem?_eq_some_iff.mp hposition'
    rw [← hget, hget']
    exact hvalid
  have hprefix : r.indices.take r.selected.length <+: r.selected := by
    have := (List.take_prefix r.selected.length r.indices).filter (isValid r.length)
    rwa [hfront] at this
  have hlength : (r.indices.take r.selected.length).length = r.selected.length := by
    rw [List.length_take, Nat.min_eq_left (selected_length_le r)]
  rw [IndexRow.Gapless, ← hprefix.eq_of_length hlength]
  exact List.take_prefix _ _

/-- The copy that writes lane after lane leaves the selected entries of gapless rows only. -/
theorem compactKv_holds_iff {reqToToken : Nat → Nat → Nat} {heads dim : Nat} {pool : KvPool α}
    {batch : Batch} (hheads : 0 < heads) (hdim : 0 < dim) :
    (∀ memory, Leaves (compactKv reqToToken heads dim pool batch) memory →
      Filled batch reqToToken heads dim (pool.element heads dim) memory) ↔
      ∀ r ∈ batch.rows, r.Gapless := by
  have hnone : ∀ (_ : Nat) r s c col, batch.topk ≤ col →
      compactKvLane reqToToken batch.topk r s c col = none :=
    fun _ r s c _ hcol => compactKvLane_none hcol r s c
  constructor
  · intro h r hr
    obtain ⟨b, hb⟩ := List.getElem?_of_mem hr
    obtain ⟨hlt, -⟩ := List.getElem?_eq_some_iff.mp hb
    refine gapless_of_valid fun i hi => ?_
    have hwritten := h _ (Tensor.leaves_self _) b r hb i _ (List.getElem?_eq_getElem hi) 0 hheads
      0 hdim
    rw [cuSeqlens_eq batch (Nat.le_of_lt hlt)] at hwritten
    -- the packed row has been written, so some lane has written it
    obtain ⟨w, hw, haddress⟩ : ∃ w ∈ compactKv reqToToken heads dim pool batch,
        w.1 = offset heads dim (batch.start b + i) 0 0 := by
      by_contra hno
      have hempty := (Tensor.leaves_self (compactKv reqToToken heads dim pool batch)).eq_none
        fun w hw ha => hno ⟨w, hw, ha⟩
      rw [hempty] at hwritten
      cases hwritten
    obtain ⟨b', r', head, col, row, slot, d, hb', hhead, hd, hsome, rfl⟩ :=
      (mem_compactLaunch hnone).mp hw
    obtain ⟨rfl, -, -⟩ := Tensor.offset_inj hhead hheads hd hdim haddress
    rw [Batch.laneOf, compactKvLane, compactLane,
      loadIndex_eq (batch.width r' (List.mem_of_getElem? hb'))] at hsome
    split at hsome
    · next hvalid =>
      obtain ⟨hrow, -⟩ := Prod.mk.inj (Option.some.inj hsome)
      obtain ⟨rfl, rfl⟩ := batch.row_inj hb' hb hvalid.1 hi hrow
      obtain rfl := Option.some.inj (hb'.symm.trans hb)
      have hcol : col < r'.indices.length := lt_of_lt_of_le hi (selected_length_le r')
      rw [List.getD_eq_getElem _ _ hcol] at hvalid
      exact ⟨_, List.getElem?_eq_getElem hcol, hvalid.2⟩
    · cases hsome
  · intro h memory hleaves
    exact holds_of_lanes hnone
      (fun b r hb => (h r (List.mem_of_getElem? hb)).lanes hb) hleaves

theorem compactNvfp4Kv_holds {f : Floats F α} {reqToToken : Nat → Nat → Nat} {heads dim : Nat}
    {pool : Nvfp4Pool F} {fresh : Nat → Nat → Int} {batch : Batch} {memory : Nat → Option (α × α)}
    (h : Leaves (compactNvfp4Kv f reqToToken heads dim pool fresh batch) memory) :
    Filled batch reqToToken heads dim (pool.element f heads dim) memory :=
  holds_of_lanes (fun b r s c _ hcol => compactNvfp4Lane_none hcol (packIndices (fresh b) r) r s c)
    (fun _ _ hb => nvfp4_lanes fresh hb) h

/-- What sparse packing is for: both copies leave exactly the selected slots of every row. -/
structure Packs (batch : Batch) (reqToToken : Nat → Nat → Nat) (heads dim : Nat) (pool : KvPool α)
    (f : Floats F α) (nvfp4Pool : Nvfp4Pool F) : Prop where
  bounds : Bounds batch
  bf16 : ∀ memory, Leaves (compactKv reqToToken heads dim pool batch) memory →
    Filled batch reqToToken heads dim (pool.element heads dim) memory
  nvfp4 : ∀ fresh memory,
    Leaves (compactNvfp4Kv f reqToToken heads dim nvfp4Pool fresh batch) memory →
    Filled batch reqToToken heads dim (nvfp4Pool.element f heads dim) memory
  same : ∀ (fresh : Nat → Nat → Int) b r, batch.rows[b]? = some r → ∀ col,
    batch.laneOf (fun _ => compactKvLane reqToToken batch.topk) b r col =
      batch.laneOf (fun b r => compactNvfp4Lane reqToToken batch.topk (packIndices (fresh b) r) r)
        b r col

theorem packs_iff (batch : Batch) (reqToToken : Nat → Nat → Nat) (heads dim : Nat)
    (pool : KvPool α) (f : Floats F α) (nvfp4Pool : Nvfp4Pool F) :
    Packs batch reqToToken heads dim pool f nvfp4Pool ↔ ∀ r ∈ batch.rows, r.Gapless := by
  constructor
  · intro h r hr
    obtain ⟨b, hb⟩ := List.getElem?_of_mem hr
    refine gapless_of_valid fun i hi => ?_
    have hsame := h.same (fun _ _ => 0) b r hb i
    rw [nvfp4_lanes _ hb, List.getElem?_eq_getElem hi, Batch.laneOf, compactKvLane, compactLane,
      loadIndex_eq (batch.width r hr)] at hsame
    split at hsame
    · next hvalid =>
      have hcol : i < r.indices.length := lt_of_lt_of_le hi (selected_length_le r)
      rw [List.getD_eq_getElem _ _ hcol] at hvalid
      exact ⟨_, List.getElem?_eq_getElem hcol, hvalid.2⟩
    · cases hsame
  · intro h
    refine ⟨bounds batch, fun memory hleaves => ?_, fun _ _ => compactNvfp4Kv_holds,
      fun fresh b r hb col => ?_⟩
    · exact holds_of_lanes (fun _ r s c _ hcol => compactKvLane_none hcol r s c)
        (fun b r hb => (h r (List.mem_of_getElem? hb)).lanes hb) hleaves
    · rw [nvfp4_lanes fresh hb, (h r (List.mem_of_getElem? hb)).lanes hb]

end Qsa
end FlashNext
