import FlashNext.Qsa.GraphLayout
import FlashNext.Qsa.Plan
import Mathlib.Algebra.Order.Ring.Int

/-!
# The row metadata of a captured graph

From the layout of its rows a replay derives where each row stores its key, which group it
compresses and which pages it reads.  The kernel and the host derive the same from the same row.
The rows behind the real requests may only touch request slot 0: `graph_metadata_iff` says when
the host keeps to that as the kernel does.
-/

namespace FlashNext
namespace Qsa

/-- `req_to_token`, a row of token slots for each request slot. -/
structure ReqToToken where
  width : Nat
  slot : Nat → Nat → Int

/-- The element at an address of the table. -/
def ReqToToken.load (table : ReqToToken) (address : Nat) : Int :=
  table.slot (address / table.width) (address % table.width)

/-- The sizes that both paths take from the pool and the captured buffers. -/
structure GraphPool where
  ratio : Nat
  compressedPageSize : Nat
  maxPages : Nat
  two_le_ratio : 2 ≤ ratio
  compressedPageSize_pos : 0 < compressedPageSize

namespace GraphPool

variable (pool : GraphPool)

def fullPage : Nat := pool.compressedPageSize * pool.ratio

theorem ratio_pos : 0 < pool.ratio := Nat.lt_of_lt_of_le Nat.two_pos pool.two_le_ratio

theorem fullPage_pos : 0 < pool.fullPage := Nat.mul_pos pool.compressedPageSize_pos pool.ratio_pos

/-- The pages that fit both in the buffer and in a row of the table. -/
def pages (table : ReqToToken) : Nat := min pool.maxPages (table.width / pool.fullPage)

end GraphPool

/-- What a replay writes for a row.  The page table is the row of the buffer. -/
structure RowMetadata where
  layout : LayoutRow
  compressedLength : Nat
  writeLoc : Int
  logicalPosition : Nat
  stateSlot : Nat
  groupRingLocs : List Nat
  pageTable : Nat → Int

/-- The row stores no compressed key, and its own key in a ring row of request slot 0. -/
def RowMetadata.Inert (pool : GraphPool) (m : RowMetadata) : Prop :=
  m.writeLoc = 0 ∧ m.stateSlot < pool.ratio

/-! ## The kernel -/

/-- The page-table stores of a program, 128 lanes at a time. -/
def pageStores (pool : GraphPool) (table : ReqToToken) (tokenRow : Nat) : List (Nat × Int) :=
  (List.range (Tensor.cdiv pool.maxPages 128)).flatMap fun block =>
    (List.range 128).filterMap fun lane =>
      let idx := block * 128 + lane
      if idx < pool.pages table then
        let loc := table.load (tokenRow + idx * pool.fullPage)
        some (idx, max (loc.tdiv pool.fullPage) 0)
      else none

/-- One program of `_qsa_graph_row_metadata_kernel`.  Its divisions round towards 0. -/
def rowMetadataProgram (pool : GraphPool) (table : ReqToToken) (old : Nat → Int)
    (row : LayoutRow) : RowMetadata :=
  let tokenRow := row.request * table.width
  let current := row.seqLen - 1
  let lastLoc := table.load (tokenRow + current)
  { layout := row
    compressedLength := row.seqLen / pool.ratio
    writeLoc := if 0 < row.seqLen ∧ row.seqLen % pool.ratio = 0 then lastLoc.tdiv pool.ratio else 0
    logicalPosition := current
    stateSlot := row.request * pool.ratio + current % pool.ratio
    groupRingLocs := (List.range pool.ratio).map fun k =>
      row.request * pool.ratio + (current - (pool.ratio - 1 - k)) % pool.ratio
    pageTable := Tensor.scatter old (pageStores pool table tokenRow) }

/-! ## The host -/

/-- `_update_qsa_cuda_graph_metadata`.  Its divisions round down. -/
def updateQsaCudaGraphMetadata (pool : GraphPool) (table : ReqToToken) (old : Nat → Nat → Int)
    (layout : Replay.GraphLayout) : List RowMetadata :=
  let currentPositions := layout.lengths.map (· - 1)
  let tokenToBatchIdx := List.range layout.lengths.length
  let pendingRingSlots := buildPendingRingSlots tokenToBatchIdx layout.requests layout.lengths
    currentPositions pool.ratio false
  let groupRingLocs := buildGroupRingSlots layout.requests currentPositions tokenToBatchIdx
    pool.ratio
  tokenToBatchIdx.map fun i =>
    let length := layout.lengths.getD i 0
    let request := layout.requests.getD i 0
    let current := currentPositions.getD i 0
    let lastLoc := table.slot request current
    { layout := layout.row i
      compressedLength := length / pool.ratio
      writeLoc := if length % pool.ratio = 0 ∧ 0 < length then lastLoc.fdiv pool.ratio else 0
      logicalPosition := current
      stateSlot := pendingRingSlots.getD i 0
      groupRingLocs := groupRingLocs.getD i []
      pageTable := fun page =>
        if page < pool.pages table then
          max ((table.slot request (page * pool.fullPage)).fdiv pool.fullPage) 0
        else old i page }

/-- The replay without the kernels. -/
def Replay.hostMetadata (r : Replay) (pool : GraphPool) (table : ReqToToken)
    (old : Nat → Nat → Int) : Except String (List RowMetadata) :=
  r.hostLayout.map (updateQsaCudaGraphMetadata pool table old)

/-! ## One row -/

section Row

variable {pool : GraphPool} {table : ReqToToken} {old : Nat → Int} {row : LayoutRow}

/-- What the host derives from a row. -/
def hostRow (pool : GraphPool) (table : ReqToToken) (old : Nat → Int) (row : LayoutRow) :
    RowMetadata where
  layout := row
  compressedLength := row.seqLen / pool.ratio
  writeLoc :=
    if row.seqLen % pool.ratio = 0 ∧ 0 < row.seqLen then
      (table.slot row.request (row.seqLen - 1)).fdiv pool.ratio
    else 0
  logicalPosition := row.seqLen - 1
  stateSlot := row.request * pool.ratio + (row.seqLen - 1) % pool.ratio
  groupRingLocs := (List.range pool.ratio).map fun k =>
    row.request * pool.ratio + (row.seqLen - 1 - (pool.ratio - 1 - k)) % pool.ratio
  pageTable page :=
    if page < pool.pages table then
      max ((table.slot row.request (page * pool.fullPage)).fdiv pool.fullPage) 0
    else old page

theorem updateQsaCudaGraphMetadata_row (old : Nat → Nat → Int) {layout : Replay.GraphLayout}
    {i : Nat} (hi : i < layout.lengths.length) :
    (updateQsaCudaGraphMetadata pool table old layout)[i]? =
      some (hostRow pool table (old i) (layout.row i)) := by
  have hcurrent : (layout.lengths.map (· - 1)).getD i 0 = layout.lengths.getD i 0 - 1 := by
    rw [List.getD_eq_getElem _ _ (by rwa [List.length_map]), List.getElem_map,
      List.getD_eq_getElem _ _ hi]
  have hslot : (buildPendingRingSlots (List.range layout.lengths.length) layout.requests
      layout.lengths (layout.lengths.map (· - 1)) pool.ratio false).getD i 0 =
      layout.requests.getD i 0 * pool.ratio + (layout.lengths.getD i 0 - 1) % pool.ratio := by
    rw [← hcurrent, List.getD_eq_getElem?_getD, buildPendingRingSlots, List.getElem?_zipWith,
      List.getElem?_range hi, List.getElem?_map, List.getElem?_eq_getElem hi,
      List.getD_eq_getElem (layout.lengths.map _) _ (by rwa [List.length_map]), List.getElem_map]
    rfl
  have hring : (buildGroupRingSlots layout.requests (layout.lengths.map (· - 1))
      (List.range layout.lengths.length) pool.ratio).getD i [] =
      (List.range pool.ratio).map fun k => layout.requests.getD i 0 * pool.ratio +
        (layout.lengths.getD i 0 - 1 - (pool.ratio - 1 - k)) % pool.ratio := by
    rw [← hcurrent, List.getD_eq_getElem?_getD, buildGroupRingSlots, List.getElem?_zipWith,
      List.getElem?_range hi, List.getElem?_map, List.getElem?_eq_getElem hi,
      List.getD_eq_getElem (layout.lengths.map _) _ (by rwa [List.length_map]), List.getElem_map]
    rfl
  rw [updateQsaCudaGraphMetadata, List.getElem?_map, List.getElem?_range hi]
  simp only [Option.map_some, hcurrent, hslot, hring]
  rfl

theorem load_eq (request : Nat) {column : Nat} (h : column < table.width) :
    table.load (request * table.width + column) = table.slot request column := by
  have hpos : 0 < table.width := Nat.zero_lt_of_lt h
  rw [ReqToToken.load, Nat.mul_comm, Nat.mul_add_div hpos, Nat.div_eq_of_lt h, Nat.add_zero,
    Nat.mul_add_mod, Nat.mod_eq_of_lt h]

theorem column_lt {page : Nat} (h : page < pool.pages table) :
    page * pool.fullPage < table.width := by
  have hpage : page < table.width / pool.fullPage := Nat.lt_of_lt_of_le h (Nat.min_le_right _ _)
  have hmul : (page + 1) * pool.fullPage ≤ table.width / pool.fullPage * pool.fullPage :=
    Nat.mul_le_mul_right _ hpage
  have hwidth := Nat.div_mul_le_self table.width pool.fullPage
  have hfull := pool.fullPage_pos
  rw [Nat.succ_mul] at hmul
  omega

/-- Both roundings of a negative page end at 0. -/
theorem max_tdiv (loc : Int) {n : Nat} (hn : 0 < n) :
    max (loc.tdiv n) 0 = max (loc.fdiv n) 0 := by
  rw [Int.fdiv_eq_ediv_of_nonneg loc (Int.natCast_nonneg n)]
  rcases Int.le_total 0 loc with hloc | hloc
  · rw [Int.tdiv_eq_ediv_of_nonneg hloc]
  · have hneg := Int.tdiv_nonneg (Int.neg_nonneg_of_nonpos hloc) (Int.natCast_nonneg n)
    rw [Int.neg_tdiv] at hneg
    have htrunc : loc.tdiv n ≤ 0 := by omega
    have hfloor : loc / (n : Int) ≤ 0 :=
      Int.ediv_nonpos_of_nonpos_of_neg hloc (Int.natCast_pos.mpr hn)
    rw [max_eq_right htrunc, max_eq_right hfloor]

theorem mem_pageStores {request : Nat} {w : Nat × Int} :
    w ∈ pageStores pool table (request * table.width) ↔ ∃ page < pool.pages table,
      w = (page, max ((table.slot request (page * pool.fullPage)).fdiv pool.fullPage) 0) := by
  rw [pageStores, List.mem_flatMap]
  constructor
  · rintro ⟨block, -, hw⟩
    obtain ⟨lane, -, hlane⟩ := List.mem_filterMap.mp hw
    dsimp only at hlane
    split at hlane
    · next hpage =>
      rw [load_eq _ (column_lt hpage), max_tdiv _ pool.fullPage_pos] at hlane
      exact ⟨_, hpage, (Option.some.inj hlane).symm⟩
    · cases hlane
  · rintro ⟨page, hpage, rfl⟩
    have hmax : page < pool.maxPages := Nat.lt_of_lt_of_le hpage (Nat.min_le_left _ _)
    have hlane : page / 128 * 128 + page % 128 = page := Nat.div_add_mod' page 128
    refine ⟨page / 128, List.mem_range.mpr (Tensor.lt_cdiv_mul (by decide) hmax), ?_⟩
    refine List.mem_filterMap.mpr ⟨page % 128, List.mem_range.mpr (Nat.mod_lt _ (by decide)), ?_⟩
    dsimp only
    rw [hlane, if_pos hpage, load_eq _ (column_lt hpage), max_tdiv _ pool.fullPage_pos]

theorem scatter_pageStores (request : Nat) :
    Tensor.scatter old (pageStores pool table (request * table.width)) = fun page =>
      if page < pool.pages table then
        max ((table.slot request (page * pool.fullPage)).fdiv pool.fullPage) 0
      else old page := by
  funext page
  by_cases hpage : page < pool.pages table
  · rw [if_pos hpage]
    refine Tensor.scatter_of_mem ⟨_, mem_pageStores.mpr ⟨page, hpage, rfl⟩, rfl⟩ fun w hw heq => ?_
    obtain ⟨page', -, rfl⟩ := mem_pageStores.mp hw
    rw [← heq]
  · rw [if_neg hpage]
    refine Tensor.scatter_of_notMem fun w hw heq => ?_
    obtain ⟨page', hpage', rfl⟩ := mem_pageStores.mp hw
    exact hpage (heq ▸ hpage')

/-- The two roundings agree from 0 on and on the multiples. -/
theorem tdiv_eq_fdiv_iff (loc : Int) {n : Nat} (hn : 0 < n) :
    loc.tdiv n = loc.fdiv n ↔ 0 ≤ loc ∨ (n : Int) ∣ loc := by
  rw [Int.fdiv_eq_ediv_of_nonneg loc (Int.natCast_nonneg n), Int.tdiv_eq_ediv]
  have hsign : Int.sign (n : Int) = 1 := Int.sign_eq_one_of_pos (Int.natCast_pos.mpr hn)
  split
  · next h => exact ⟨fun _ => h, fun _ => Int.add_zero _⟩
  · next h =>
    rw [hsign]
    exact ⟨fun heq => by omega, fun h' => absurd h' h⟩

/-- The slot of a row that ends a group divides alike in both roundings. -/
def EndsOnSlot (pool : GraphPool) (table : ReqToToken) (row : LayoutRow) : Prop :=
  0 < row.seqLen → row.seqLen % pool.ratio = 0 →
    0 ≤ table.slot row.request (row.seqLen - 1) ∨
      (pool.ratio : Int) ∣ table.slot row.request (row.seqLen - 1)

/-- The kernel and the host derive the same from a row that the table has a column for. -/
theorem rowMetadataProgram_eq_iff (h : row.seqLen - 1 < table.width) :
    rowMetadataProgram pool table old row = hostRow pool table old row ↔
      EndsOnSlot pool table row := by
  have hlast := load_eq row.request h
  constructor
  · intro heq hpos hmod
    have hloc := congrArg RowMetadata.writeLoc heq
    simp only [rowMetadataProgram, hostRow, hlast, if_pos (And.intro hpos hmod),
      if_pos (And.intro hmod hpos)] at hloc
    exact (tdiv_eq_fdiv_iff _ pool.ratio_pos).mp hloc
  · intro hends
    have hloc : (if 0 < row.seqLen ∧ row.seqLen % pool.ratio = 0 then
        (table.slot row.request (row.seqLen - 1)).tdiv pool.ratio else 0) =
        if row.seqLen % pool.ratio = 0 ∧ 0 < row.seqLen then
          (table.slot row.request (row.seqLen - 1)).fdiv pool.ratio else 0 := by
      by_cases hboundary : 0 < row.seqLen ∧ row.seqLen % pool.ratio = 0
      · rw [if_pos hboundary, if_pos hboundary.symm]
        exact (tdiv_eq_fdiv_iff _ pool.ratio_pos).mpr (hends hboundary.1 hboundary.2)
      · rw [if_neg hboundary, if_neg fun hswap => hboundary hswap.symm]
    simp only [rowMetadataProgram, hostRow, hlast, hloc, scatter_pageStores]

/-- A row of the host is inert when it is of request slot 0 and compresses nothing. -/
theorem hostRow_inert_iff : (hostRow pool table old row).Inert pool ↔ row.request = 0 ∧
    (row.seqLen % pool.ratio = 0 → 0 < row.seqLen →
      (table.slot row.request (row.seqLen - 1)).fdiv pool.ratio = 0) := by
  have hring := Nat.mod_lt (row.seqLen - 1) pool.ratio_pos
  have hslot : row.request * pool.ratio + (row.seqLen - 1) % pool.ratio < pool.ratio ↔
      row.request = 0 := by
    constructor
    · intro hlt
      by_contra hne
      have hone : pool.ratio ≤ row.request * pool.ratio :=
        Nat.le_mul_of_pos_left _ (Nat.pos_of_ne_zero hne)
      omega
    · intro hzero
      rw [hzero, Nat.zero_mul, Nat.zero_add]
      exact hring
  rw [RowMetadata.Inert, and_comm]
  refine and_congr hslot ?_
  simp only [hostRow, ite_eq_right_iff, and_imp]

theorem one_mod_ratio : 1 % pool.ratio ≠ 0 := by
  rw [Nat.mod_eq_of_lt pool.two_le_ratio]
  exact Nat.one_ne_zero

theorem dummyRow_inert : (rowMetadataProgram pool table old Replay.dummyRow).Inert pool := by
  constructor
  · exact if_neg fun h => one_mod_ratio h.2
  · show 0 * pool.ratio + 0 % pool.ratio < pool.ratio
    rw [Nat.zero_mul, Nat.zero_mod]
    exact pool.ratio_pos

end Row

/-! ## All rows -/

namespace Replay

variable {r : Replay} {pool : GraphPool} {table : ReqToToken} {old : Nat → Nat → Int}

/-- The table has a column for every position of a request. -/
def Within (r : Replay) (table : ReqToToken) : Prop :=
  0 < table.width ∧ ∀ i < r.bs, r.limit i ≤ table.width

/-- Whatever the launch leaves as the layout, kernel and host write the same for the rows of the
real requests and keep to request slot 0 behind them. -/
def Agrees (r : Replay) (pool : GraphPool) (table : ReqToToken) (old : Nat → Nat → Int) : Prop :=
  ∀ memory, Tensor.Leaves r.layoutStores memory →
    ∃ host, r.hostMetadata pool table old = .ok host ∧ host.length = r.numRows ∧
      ∀ row < r.numRows, ∃ device onHost,
        (memory row).map (rowMetadataProgram pool table (old row)) = some device ∧
        host[row]? = some onHost ∧
        if row < r.counts.sum then device = onHost
        else device.Inert pool ∧ onHost.Inert pool

/-- The rows of the real requests end their groups on slots that divide alike. -/
def SlotsDivide (r : Replay) (pool : GraphPool) (table : ReqToToken) : Prop :=
  ∀ row < r.counts.sum, EndsOnSlot pool table (r.kernelRow row)

/-- The captured requests behind the real ones have request slot 0 and, on a decode, lengths
that compress nothing; a speculative mode has no row behind the real ones, or request slot 0 in
front. -/
def HostPads (r : Replay) (pool : GraphPool) (table : ReqToToken) : Prop :=
  match r.mode with
  | .decode => ∀ i, r.realReqs ≤ i → i < r.bs → r.reqPool.getD i 0 = 0 ∧
    (r.seqLens.getD i 0 % pool.ratio = 0 → 0 < r.seqLens.getD i 0 →
      (table.slot 0 (r.seqLens.getD i 0 - 1)).fdiv pool.ratio = 0)
  | _ => r.counts.sum = r.numTokens ∨ r.reqPool.getD 0 0 = 0

theorem seqLen_le {row : Nat} (h : r.Within table) (hrow : row < r.counts.sum) :
    (r.kernelRow row).seqLen - 1 < table.width := by
  obtain ⟨i, hi, hlow, hhigh⟩ := Tensor.exists_row hrow
  obtain ⟨j, rfl⟩ := Nat.exists_eq_add_of_le hlow
  rw [Tensor.sum_take_succ_getD] at hhigh
  have hbs : i < r.bs := by
    by_cases hmode : r.mode = .decode
    · have hlen : r.counts.length = r.realReqs := by
        simp only [counts, hmode]
        exact List.length_replicate
      exact Nat.lt_of_lt_of_le (hlen ▸ hi) realReqs_le
    · rwa [length_counts hmode] at hi
  rw [kernelRow_real hi (by omega)]
  have hlimit := h.2 i hbs
  have hseq : (r.realRow i j).seqLen ≤ r.limit i := Nat.min_le_right _ _
  have hwidth := h.1
  omega

theorem hostMetadata_row (pool : GraphPool) (table : ReqToToken) (old : Nat → Nat → Int)
    (h : r.Fits) : ∃ host, r.hostMetadata pool table old = .ok host ∧
    host.length = r.numRows ∧ ∀ row < r.numRows, host[row]? = some (hostRow pool table (old row)
      (if row < r.counts.sum then r.kernelRow row else r.hostPadding row)) := by
  obtain ⟨layout, hlayout, hlen, hrows⟩ := layout_host h
  refine ⟨updateQsaCudaGraphMetadata pool table old layout, ?_, ?_, fun row hrow => ?_⟩
  · rw [hostMetadata, hlayout]
    rfl
  · rw [updateQsaCudaGraphMetadata, List.length_map, List.length_range, hlen]
  · rw [updateQsaCudaGraphMetadata_row old (hlen.symm ▸ hrow), hrows row hrow]

theorem hostPadding_inert_iff (old : Nat → Nat → Int) (h : r.Fits) :
    (∀ row, r.counts.sum ≤ row → row < r.numRows →
      (hostRow pool table (old row) (r.hostPadding row)).Inert pool) ↔ r.HostPads pool table := by
  by_cases hmode : r.mode = .decode
  · have hrows : r.numRows = r.bs := by simp only [numRows, hmode]
    rw [sum_counts_decode hmode, hrows]
    simp only [hostRow_inert_iff, HostPads, hostPadding, hmode]
    refine forall_congr' fun i => forall_congr' fun _ => forall_congr' fun _ => ?_
    refine and_congr_right fun hzero => ?_
    rw [hzero]
  · have hshape : r.numRows = r.numTokens ∧ (r.HostPads pool table ↔
        r.counts.sum = r.numTokens ∨ r.reqPool.getD 0 0 = 0) ∧
        ∀ row, r.hostPadding row = ⟨1, 0, r.reqPool.getD 0 0⟩ := by
      cases hcase : r.mode with
      | decode => exact absurd hcase hmode
      | targetVerify => simp only [numRows, HostPads, hostPadding, hcase, implies_true, and_self]
      | draftExtend => simp only [numRows, HostPads, hostPadding, hcase, implies_true, and_self]
    have hfits : r.counts.sum ≤ r.numTokens := hshape.1 ▸ h
    rw [hshape.1, hshape.2.1]
    simp only [hshape.2.2, hostRow_inert_iff]
    constructor
    · intro hinert
      by_cases hfull : r.counts.sum = r.numTokens
      · exact .inl hfull
      · exact .inr (hinert r.counts.sum (Nat.le_refl _) (Nat.lt_of_le_of_ne hfits hfull)).1
    · intro hpads row hlow hhigh
      rcases hpads with hfull | hzero
      · omega
      · exact ⟨hzero, fun hmod => absurd hmod one_mod_ratio⟩

/-- The kernels are right about every row.  The host is right where the slots of the real rows
divide alike and the rows behind the real ones are of request slot 0 and compress nothing. -/
theorem graph_metadata_iff (h : r.Fits) (hwithin : r.Within table) :
    r.Agrees pool table old ↔ r.SlotsDivide pool table ∧ r.HostPads pool table := by
  obtain ⟨host, hhost, hlen, hrows⟩ := hostMetadata_row pool table old h
  rw [← hostPadding_inert_iff old h]
  constructor
  · intro hagrees
    obtain ⟨host', hhost', -, hsame⟩ := hagrees _ (Tensor.leaves_self r.layoutStores)
    obtain rfl := Except.ok.inj (hhost.symm.trans hhost')
    constructor
    · intro row hrow
      obtain ⟨device, onHost, hdevice, honHost, heq⟩ := hsame row (Nat.lt_of_lt_of_le hrow h)
      rw [layout_kernel (Tensor.leaves_self r.layoutStores) (Nat.lt_of_lt_of_le hrow h)] at hdevice
      rw [hrows row (Nat.lt_of_lt_of_le hrow h), if_pos hrow] at honHost
      rw [if_pos hrow, ← Option.some.inj hdevice, ← Option.some.inj honHost] at heq
      exact (rowMetadataProgram_eq_iff (seqLen_le hwithin hrow)).mp heq
    · intro row hlow hhigh
      obtain ⟨device, onHost, -, honHost, hinert⟩ := hsame row hhigh
      rw [hrows row hhigh, if_neg (Nat.not_lt.mpr hlow)] at honHost
      rw [if_neg (Nat.not_lt.mpr hlow), ← Option.some.inj honHost] at hinert
      exact hinert.2
  · rintro ⟨hdivide, hpads⟩ memory hmemory
    refine ⟨host, hhost, hlen, fun row hrow => ?_⟩
    rw [layout_kernel hmemory hrow]
    refine ⟨_, _, rfl, hrows row hrow, ?_⟩
    split
    · next hreal =>
      exact (rowMetadataProgram_eq_iff (seqLen_le hwithin hreal)).mpr (hdivide row hreal)
    · next hreal =>
      have hlow := Nat.not_lt.mp hreal
      rw [kernelRow_padding hlow]
      exact ⟨dummyRow_inert, hpads row hlow hrow⟩

/-! ### Two requests with one and two accepted rows -/

def twoRequests (numTokens : Nat) : Replay where
  mode := .draftExtend
  seqLens := [11, 21]
  reqPool := [3, 7]
  draftTokenNum := 0
  extendSeqLens := some [1, 2]
  numTokens := numTokens
  padding := 0
  reqPool_covers := by decide
  extendSeqLens_covers := by
    intro values hvalues
    rw [← Option.some.inj hvalues]
    decide

def quarterPool : GraphPool where
  ratio := 4
  compressedPageSize := 16
  maxPages := 1
  two_le_ratio := by decide
  compressedPageSize_pos := by decide

def rowTable : ReqToToken where
  width := 64
  slot request position := (64 * request + position : Nat)

theorem twoRequests_within (numTokens : Nat) : (twoRequests numTokens).Within rowTable := by
  refine ⟨by decide, fun i hi => ?_⟩
  have hcases : i = 0 ∨ i = 1 := by
    have hlt : i < 2 := hi
    omega
  rcases hcases with rfl | rfl
  · show 11 ≤ 64
    decide
  · show 21 ≤ 64
    decide

/-- Three rows fill a shape of three. -/
theorem graph_metadata_full : (twoRequests 3).Agrees quarterPool rowTable (fun _ _ => 0) := by
  have hfits : (twoRequests 3).Fits := Nat.le_refl 3
  refine (graph_metadata_iff hfits (twoRequests_within 3)).mpr ⟨fun row _ _ _ => ?_, .inl rfl⟩
  exact .inl (Int.natCast_nonneg _)

/-- The fourth row of a shape of eight stores its key in the ring of the first request. -/
theorem graph_metadata_tail :
    ¬ ∀ (r : Replay) (pool : GraphPool) (table : ReqToToken) (old : Nat → Nat → Int),
      r.Fits → r.Within table → (∀ i < r.realReqs, r.reqPool.getD i 0 ≠ 0) →
        r.Agrees pool table old := by
  intro h
  have hfits : (twoRequests 8).Fits := by
    show 3 ≤ 8
    decide
  have hslots : ∀ i < (twoRequests 8).realReqs, (twoRequests 8).reqPool.getD i 0 ≠ 0 := by decide
  obtain ⟨host, hhost, -, hsame⟩ := h (twoRequests 8) quarterPool rowTable (fun _ _ => 0) hfits
    (twoRequests_within 8) hslots _ (Tensor.leaves_self _)
  obtain ⟨device, onHost, -, honHost, hinert⟩ := hsame 3 (by decide)
  obtain ⟨host', hhost', -, hrows⟩ := hostMetadata_row quarterPool rowTable (fun _ _ => 0) hfits
  obtain rfl := Except.ok.inj (hhost.symm.trans hhost')
  have hpadding : ¬ 3 < (twoRequests 8).counts.sum := by decide
  rw [hrows 3 (by decide), if_neg hpadding] at honHost
  rw [if_neg hpadding, ← Option.some.inj honHost] at hinert
  have hring : 3 * 4 + 0 < 4 := hinert.2.2
  exact absurd hring (by decide)

end Replay

end Qsa
end FlashNext
