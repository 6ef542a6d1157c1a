import FlashNext.Tensor.Launch
import FlashNext.Tensor.Ragged

/-!
# The row layout of a captured graph

A replay gives each request its rows: one row on a decode, the draft window on a target verify,
the accepted rows on a draft extend.  The layout kernel and the host fallback lay the rows of the
real requests out alike.  They fill the rest of the captured shape differently: the kernel with
request slot 0 (`layout_kernel`), the host with the slots that it is given (`layout_host`).
-/

namespace FlashNext
namespace Qsa

inductive GraphMode where
  | decode
  | targetVerify
  | draftExtend
deriving DecidableEq

/-- What the layout says of a row. -/
structure LayoutRow where
  seqLen : Nat
  prefixLen : Nat
  request : Nat
deriving DecidableEq

/-- What a replay is given.  The extend lengths are those of the spec info, if it has any. -/
structure Replay where
  mode : GraphMode
  seqLens : List Nat
  reqPool : List Nat
  draftTokenNum : Nat
  extendSeqLens : Option (List Nat)
  numTokens : Nat
  padding : Nat
  reqPool_covers : seqLens.length ≤ reqPool.length
  extendSeqLens_covers : ∀ values, extendSeqLens = some values → seqLens.length ≤ values.length

namespace Replay

variable (r : Replay)

def bs : Nat := r.seqLens.length

def numPadding : Nat := min r.padding r.bs

def realReqs : Nat := r.bs - r.numPadding

def numRows : Nat :=
  match r.mode with
  | .decode => r.bs
  | _ => r.numTokens

/-! ## The kernel -/

/-- `_stage_extend_lens`. -/
def stageExtendLens : List Nat :=
  match r.extendSeqLens with
  | some values => values.take r.bs
  | none => List.replicate r.bs (r.numTokens / max r.bs 1)

/-- The first row of a program's request and the number of its rows. -/
def kernelRows (pid : Nat) : Nat × Nat :=
  match r.mode with
  | .targetVerify =>
    (min pid r.realReqs * r.draftTokenNum, if pid < r.realReqs then r.draftTokenNum else 0)
  | _ => (List.range r.bs).foldl (fun acc j =>
    let extendLen := if j < r.realReqs then r.stageExtendLens.getD j 0 else 0
    (acc.1 + (if j < pid then extendLen else 0), if j = pid then extendLen else acc.2)) (0, 0)

/-- The first row of the tail program. -/
def kernelTail : Nat :=
  match r.mode with
  | .targetVerify => r.realReqs * r.draftTokenNum
  | _ => (List.range r.realReqs).foldl (fun start j => start + r.stageExtendLens.getD j 0) 0

/-- A row past the real requests, of request slot 0. -/
def dummyRow : LayoutRow := ⟨1, 0, 0⟩

/-- The stores of one program of `_qsa_graph_layout_kernel`. -/
def layoutProgram (pid : Nat) : List (Nat × LayoutRow) :=
  match r.mode with
  | .decode =>
    if pid < r.bs then
      let seqLen := if pid < r.realReqs then r.seqLens.getD pid 0 else 1
      let request := if pid < r.realReqs then r.reqPool.getD pid 0 else 0
      [(pid, ⟨seqLen, seqLen - 1, request⟩)]
    else []
  | mode =>
    if pid = r.bs then
      (List.range (r.numTokens - r.kernelTail)).map fun k => (r.kernelTail + k, dummyRow)
    else
      let offset := (r.kernelRows pid).1
      let eff := (r.kernelRows pid).2
      let base := r.seqLens.getD pid 0
      let prefixLen := if mode = .targetVerify then base else base - eff
      let limit := if mode = .targetVerify then base + eff else base
      (List.range eff).map fun j =>
        (offset + j, ⟨min (prefixLen + 1 + j) limit, prefixLen, r.reqPool.getD pid 0⟩)

/-- The launch has a program for each request and one for the tail. -/
def layoutStores : List (Nat × LayoutRow) := (List.range (r.bs + 1)).flatMap r.layoutProgram

/-! ## The host -/

/-- The three tensors that the host lays out. -/
structure GraphLayout where
  lengths : List Nat
  requests : List Nat
  prefixLens : List Nat

def GraphLayout.row (layout : GraphLayout) (i : Nat) : LayoutRow :=
  ⟨layout.lengths.getD i 0, layout.prefixLens.getD i 0, layout.requests.getD i 0⟩

/-- The extend lengths, with those of the padding at 0. -/
def hostExtendLens : List Nat :=
  let extendLens :=
    match r.mode, r.extendSeqLens with
    | .targetVerify, _ => List.replicate r.bs r.draftTokenNum
    | _, some values =>
      values.take r.bs ++ List.replicate (r.bs - (values.take r.bs).length) 0
    | _, none => List.replicate r.bs (r.numTokens / max r.bs 1)
  extendLens.take (r.bs - r.numPadding) ++ List.replicate r.numPadding 0

/-- `_graph_speculative_layout`. -/
def graphSpeculativeLayout : Except String GraphLayout :=
  let extendLens := r.hostExtendLens
  let effective := fun i =>
    if r.mode = .targetVerify then r.seqLens.getD i 0 + extendLens.getD i 0 else r.seqLens.getD i 0
  let prefixLen := fun i => effective i - extendLens.getD i 0
  let lengths := Tensor.ragged extendLens fun i j => min (prefixLen i + 1 + j) (effective i)
  let prefixLens := Tensor.ragged extendLens fun i _ => prefixLen i
  let requests := Tensor.ragged extendLens fun i _ => (r.reqPool.take r.bs).getD i 0
  if r.numTokens < lengths.length then
    .error ("QSA CUDA graph speculative layout has inconsistent token count: capacity=" ++
      toString r.numTokens ++ ", actual=" ++ toString lengths.length)
  else
    -- The tail has the request slot of the first row.
    let padding := r.numTokens - lengths.length
    .ok ⟨lengths ++ List.replicate padding 1,
      requests ++ List.replicate padding (r.reqPool.getD 0 0),
      prefixLens ++ List.replicate padding 0⟩

/-- The layout of `_replay_cuda_graph_metadata` without the kernels. -/
def hostLayout : Except String GraphLayout :=
  match r.mode with
  | .decode => .ok ⟨r.seqLens, r.reqPool.take r.bs, r.seqLens.map (· - 1)⟩
  | _ => r.graphSpeculativeLayout

/-! ## The rows of the real requests -/

/-- The number of rows of each request. -/
def counts : List Nat :=
  match r.mode with
  | .decode => List.replicate r.realReqs 1
  | _ => r.hostExtendLens

/-- A request's length with its rows. -/
def limit (i : Nat) : Nat :=
  match r.mode with
  | .targetVerify => r.seqLens.getD i 0 + r.counts.getD i 0
  | _ => r.seqLens.getD i 0

/-- The rows of a request end at its length, one row a token. -/
def realRow (i j : Nat) : LayoutRow where
  seqLen := min (r.limit i - r.counts.getD i 0 + 1 + j) (r.limit i)
  prefixLen := r.limit i - r.counts.getD i 0
  request := r.reqPool.getD i 0

def realRows : List LayoutRow := Tensor.ragged r.counts r.realRow

/-- The rows of the real requests fit in the captured shape. -/
def Fits : Prop := r.counts.sum ≤ r.numRows

section Counts

variable {r : Replay}

theorem realReqs_le : r.realReqs ≤ r.bs := Nat.sub_le _ _

theorem realReqs_add : r.realReqs + r.numPadding = r.bs :=
  Nat.sub_add_cancel (Nat.min_le_right _ _)

theorem length_stageExtendLens : r.stageExtendLens.length = r.bs := by
  rw [stageExtendLens]
  split
  · next values hvalues =>
    exact List.length_take_of_le (r.extendSeqLens_covers values hvalues)
  · exact List.length_replicate

theorem hostExtendLens_verify (h : r.mode = .targetVerify) :
    r.hostExtendLens =
      List.replicate r.realReqs r.draftTokenNum ++ List.replicate r.numPadding 0 := by
  simp only [hostExtendLens, h]
  rw [List.take_replicate, Nat.min_eq_left (Nat.sub_le _ _), realReqs]

theorem hostExtendLens_draft (h : r.mode = .draftExtend) :
    r.hostExtendLens =
      r.stageExtendLens.take r.realReqs ++ List.replicate r.numPadding 0 := by
  cases hvalues : r.extendSeqLens with
  | none => simp only [hostExtendLens, stageExtendLens, h, hvalues, realReqs]
  | some values =>
    have hlen : (values.take r.bs).length = r.bs :=
      List.length_take_of_le (r.extendSeqLens_covers values hvalues)
    simp only [hostExtendLens, stageExtendLens, h, hvalues, realReqs]
    rw [hlen, Nat.sub_self, List.replicate_zero, List.append_nil]

theorem length_hostExtendLens (h : r.mode ≠ .decode) : r.hostExtendLens.length = r.bs := by
  cases hmode : r.mode with
  | decode => exact absurd hmode h
  | targetVerify =>
    rw [hostExtendLens_verify hmode, List.length_append, List.length_replicate,
      List.length_replicate, realReqs_add]
  | draftExtend =>
    rw [hostExtendLens_draft hmode, List.length_append, List.length_take,
      length_stageExtendLens, Nat.min_eq_left realReqs_le, List.length_replicate, realReqs_add]

theorem counts_eq (h : r.mode ≠ .decode) : r.counts = r.hostExtendLens := by
  cases hmode : r.mode with
  | decode => exact absurd hmode h
  | targetVerify => simp only [counts, hmode]
  | draftExtend => simp only [counts, hmode]

theorem length_counts (h : r.mode ≠ .decode) : r.counts.length = r.bs := by
  rw [counts_eq h, length_hostExtendLens h]

theorem getD_counts_draft (h : r.mode = .draftExtend) (j : Nat) :
    r.counts.getD j 0 = if j < r.realReqs then r.stageExtendLens.getD j 0 else 0 := by
  have hmode : r.mode ≠ .decode := by simp only [h, ne_eq, reduceCtorEq, not_false_eq_true]
  have hlen : (r.stageExtendLens.take r.realReqs).length = r.realReqs := by
    rw [List.length_take, length_stageExtendLens, Nat.min_eq_left realReqs_le]
  rw [counts_eq hmode, hostExtendLens_draft h]
  split
  · next hj =>
    rw [List.getD_append _ _ _ _ (hlen.symm ▸ hj), List.getD_eq_getElem?_getD,
      List.getElem?_take_of_lt hj, ← List.getD_eq_getElem?_getD]
  · next hj =>
    rw [List.getD_append_right _ _ _ _ (hlen.symm ▸ Nat.not_lt.mp hj), List.getD_eq_getElem?_getD,
      List.getElem?_getD_replicate_default_eq]

end Counts

/-! ## What the kernel finds -/

section Kernel

variable {r : Replay}

/-- A loop that adds up the counts before `pid` and picks its own. -/
theorem foldl_rows (counts : List Nat) (pid n : Nat) :
    (List.range n).foldl (fun acc j => (acc.1 + (if j < pid then counts.getD j 0 else 0),
      if j = pid then counts.getD j 0 else acc.2)) (0, 0) =
      ((counts.take (min n pid)).sum, if pid < n then counts.getD pid 0 else 0) := by
  induction n with
  | zero =>
    rw [Nat.zero_min, List.take_zero]
    rfl
  | succ n ih =>
    rw [List.range_succ, List.foldl_append, ih, List.foldl_cons, List.foldl_nil]
    dsimp only
    rcases Nat.lt_trichotomy n pid with hlt | rfl | hgt
    · rw [if_pos hlt, if_neg (Nat.ne_of_lt hlt), if_neg (Nat.not_lt.mpr (Nat.le_of_lt hlt)),
        if_neg (Nat.not_lt.mpr hlt), Nat.min_eq_left (Nat.le_of_lt hlt), Nat.min_eq_left hlt,
        Tensor.sum_take_succ_getD]
    · rw [if_neg (Nat.lt_irrefl n), if_pos rfl, if_pos (Nat.lt_succ_self n), Nat.min_self,
        Nat.min_eq_right (Nat.le_succ n), Nat.add_zero]
    · rw [if_neg (Nat.lt_asymm hgt), if_neg (Nat.ne_of_gt hgt), if_pos hgt,
        if_pos (Nat.lt_succ_of_lt hgt), Nat.min_eq_right (Nat.le_of_lt hgt),
        Nat.min_eq_right (Nat.le_of_lt (Nat.lt_succ_of_lt hgt)), Nat.add_zero]

theorem foldl_sum (values : List Nat) (n : Nat) :
    (List.range n).foldl (fun start j => start + values.getD j 0) 0 = (values.take n).sum := by
  induction n with
  | zero => rfl
  | succ n ih =>
    rw [List.range_succ, List.foldl_append, ih, List.foldl_cons, List.foldl_nil,
      Tensor.sum_take_succ_getD]

/-- A program finds the rows behind those of the requests before its own. -/
theorem kernelRows_eq (h : r.mode ≠ .decode) {pid : Nat} (hpid : pid < r.bs) :
    r.kernelRows pid = ((r.counts.take pid).sum, r.counts.getD pid 0) := by
  cases hmode : r.mode with
  | decode => exact absurd hmode h
  | targetVerify =>
    have hcounts : r.counts =
        List.replicate r.realReqs r.draftTokenNum ++ List.replicate r.numPadding 0 := by
      rw [counts_eq h, hostExtendLens_verify hmode]
    simp only [kernelRows, hmode]
    rw [hcounts]
    congr 1
    · rw [List.take_append, List.sum_append, List.take_replicate, List.take_replicate,
        List.sum_replicate_nat, List.sum_replicate_nat, Nat.mul_zero, Nat.add_zero]
    · by_cases hreal : pid < r.realReqs
      · rw [if_pos hreal, List.getD_append _ _ _ _ (by rwa [List.length_replicate]),
          List.getD_replicate _ hreal]
      · rw [if_neg hreal, List.getD_append_right _ _ _ _ (by
          rw [List.length_replicate]
          exact Nat.not_lt.mp hreal), List.getD_eq_getElem?_getD,
          List.getElem?_getD_replicate_default_eq]
  | draftExtend =>
    have hloop := foldl_rows r.counts pid r.bs
    rw [Nat.min_eq_right (Nat.le_of_lt hpid), if_pos hpid] at hloop
    simp only [getD_counts_draft hmode] at hloop ⊢
    simp only [kernelRows, hmode]
    exact hloop

theorem kernelTail_eq (h : r.mode ≠ .decode) : r.kernelTail = r.counts.sum := by
  cases hmode : r.mode with
  | decode => exact absurd hmode h
  | targetVerify =>
    simp only [kernelTail, hmode]
    rw [counts_eq h, hostExtendLens_verify hmode, List.sum_append,
      List.sum_replicate_nat, List.sum_replicate_nat, Nat.mul_zero, Nat.add_zero]
  | draftExtend =>
    simp only [kernelTail, hmode]
    rw [foldl_sum, counts_eq h, hostExtendLens_draft hmode, List.sum_append,
      List.sum_replicate_nat, Nat.mul_zero, Nat.add_zero]

end Kernel

/-! ## The two layouts -/

section Layouts

variable {r : Replay} {memory : Nat → Option LayoutRow} {row : Nat}

/-- The rows of the kernel: those of the real requests, then request slot 0. -/
def kernelRow (r : Replay) (row : Nat) : LayoutRow := r.realRows.getD row dummyRow

theorem length_realRows : r.realRows.length = r.counts.sum := Tensor.length_ragged _ _

theorem kernelRow_real {i j : Nat} (hi : i < r.counts.length) (hj : j < r.counts.getD i 0) :
    r.kernelRow ((r.counts.take i).sum + j) = r.realRow i j := by
  rw [kernelRow, List.getD_eq_getElem?_getD, realRows, Tensor.getElem?_ragged hi hj,
    Option.getD_some]

theorem kernelRow_padding (h : r.counts.sum ≤ row) : r.kernelRow row = dummyRow :=
  List.getD_eq_default _ _ (length_realRows.symm ▸ h)

theorem sum_counts_decode (h : r.mode = .decode) : r.counts.sum = r.realReqs := by
  simp only [counts, h]
  rw [List.sum_replicate_nat, Nat.mul_one]

/-- On a decode row `i` is the row of request `i`. -/
theorem kernelRow_decode (h : r.mode = .decode) (hrow : row < r.realReqs) :
    r.kernelRow row =
      ⟨r.seqLens.getD row 0, r.seqLens.getD row 0 - 1, r.reqPool.getD row 0⟩ := by
  have hcounts : r.counts = List.replicate r.realReqs 1 := by simp only [counts, h]
  have hone : r.counts.getD row 0 = 1 := by rw [hcounts, List.getD_replicate _ hrow]
  have hstart : (r.counts.take row).sum + 0 = row := by
    rw [hcounts, List.take_replicate, List.sum_replicate_nat, Nat.mul_one, Nat.add_zero,
      Nat.min_eq_left (Nat.le_of_lt hrow)]
  have hlimit : r.limit row = r.seqLens.getD row 0 := by simp only [limit, h]
  have heq := kernelRow_real (r := r) (i := row) (j := 0)
    (by rwa [hcounts, List.length_replicate]) (hone.symm ▸ Nat.one_pos)
  rw [hstart] at heq
  rw [heq, realRow, hlimit, hone, LayoutRow.mk.injEq]
  refine ⟨?_, rfl, rfl⟩
  omega

/-- A program of a speculative mode stores the rows of its request, the last one the tail. -/
theorem layoutProgram_eq (h : r.mode ≠ .decode) {pid : Nat} (hpid : pid ≤ r.bs) :
    r.layoutProgram pid =
      if pid = r.bs then
        (List.range (r.numTokens - r.counts.sum)).map fun k => (r.counts.sum + k, dummyRow)
      else (List.range (r.counts.getD pid 0)).map fun j =>
        ((r.counts.take pid).sum + j, r.realRow pid j) := by
  by_cases hlast : pid = r.bs
  · rw [if_pos hlast, ← kernelTail_eq h]
    cases hmode : r.mode with
    | decode => exact absurd hmode h
    | targetVerify => simp only [layoutProgram, hmode, if_pos hlast]
    | draftExtend => simp only [layoutProgram, hmode, if_pos hlast]
  · have hrows := kernelRows_eq h (Nat.lt_of_le_of_ne hpid hlast)
    rw [if_neg hlast]
    cases hmode : r.mode with
    | decode => exact absurd hmode h
    | targetVerify =>
      simp only [layoutProgram, hmode, if_neg hlast, hrows, realRow, limit, if_true,
        Nat.add_sub_cancel]
    | draftExtend =>
      simp only [layoutProgram, hmode, if_neg hlast, hrows, realRow, limit, reduceCtorEq, if_false]

/-- Whatever a program stores is the row of its place. -/
theorem layoutProgram_row {pid : Nat} (hpid : pid ≤ r.bs) {w : Nat × LayoutRow}
    (hw : w ∈ r.layoutProgram pid) : w.2 = r.kernelRow w.1 := by
  by_cases hmode : r.mode = .decode
  · simp only [layoutProgram, hmode] at hw
    split at hw
    · rw [List.mem_singleton] at hw
      rw [hw]
      dsimp only
      by_cases hreal : pid < r.realReqs
      · rw [if_pos hreal, if_pos hreal, kernelRow_decode hmode hreal]
      · rw [if_neg hreal, if_neg hreal, kernelRow_padding (by
          rw [sum_counts_decode hmode]
          exact Nat.not_lt.mp hreal)]
        rfl
    · exact absurd hw List.not_mem_nil
  · rw [layoutProgram_eq hmode hpid] at hw
    split at hw
    · obtain ⟨k, -, rfl⟩ := List.mem_map.mp hw
      rw [kernelRow_padding (Nat.le_add_right _ _)]
    · next hne =>
      have hlt : pid < r.bs := Nat.lt_of_le_of_ne hpid hne
      obtain ⟨j, hj, rfl⟩ := List.mem_map.mp hw
      rw [kernelRow_real (by rwa [length_counts hmode]) (List.mem_range.mp hj)]

/-- Every row of the captured shape is stored. -/
theorem layoutProgram_covers (hrow : row < r.numRows) :
    ∃ pid ≤ r.bs, ∃ w ∈ r.layoutProgram pid, w.1 = row := by
  by_cases hmode : r.mode = .decode
  · have hlt : row < r.bs := by simpa only [numRows, hmode] using hrow
    refine ⟨row, Nat.le_of_lt hlt, ?_⟩
    simp only [layoutProgram, hmode, if_pos hlt, List.mem_singleton]
    exact ⟨_, rfl, rfl⟩
  · by_cases hreal : row < r.counts.sum
    · obtain ⟨i, hi, hlow, hhigh⟩ := Tensor.exists_row hreal
      rw [Tensor.sum_take_succ_getD] at hhigh
      rw [length_counts hmode] at hi
      refine ⟨i, Nat.le_of_lt hi, ?_⟩
      rw [layoutProgram_eq hmode (Nat.le_of_lt hi), if_neg (Nat.ne_of_lt hi)]
      refine ⟨_, List.mem_map.mpr ⟨row - (r.counts.take i).sum, ?_, rfl⟩, ?_⟩
      · rw [List.mem_range]
        omega
      · exact Nat.add_sub_cancel' hlow
    · have hshape : row < r.numTokens := by
        cases hcase : r.mode with
        | decode => exact absurd hcase hmode
        | targetVerify => simpa only [numRows, hcase] using hrow
        | draftExtend => simpa only [numRows, hcase] using hrow
      refine ⟨r.bs, Nat.le_refl _, ?_⟩
      rw [layoutProgram_eq hmode (Nat.le_refl _), if_pos rfl]
      refine ⟨_, List.mem_map.mpr ⟨row - r.counts.sum, ?_, rfl⟩, ?_⟩
      · rw [List.mem_range]
        omega
      · exact Nat.add_sub_cancel' (Nat.not_lt.mp hreal)

/-- The launch leaves the rows of the real requests and request slot 0 behind them, in whatever
order its programs store. -/
theorem layout_kernel (h : Tensor.Leaves r.layoutStores memory) (hrow : row < r.numRows) :
    memory row = some (r.kernelRow row) := by
  obtain ⟨pid, hpid, w, hw, rfl⟩ := layoutProgram_covers hrow
  have hmem : (w.1, r.kernelRow w.1) ∈ r.layoutStores := by
    rw [← layoutProgram_row hpid hw]
    exact List.mem_flatMap.mpr ⟨pid, List.mem_range.mpr (Nat.lt_succ_of_le hpid), hw⟩
  refine h.eq_some hmem fun v hv hplace => ?_
  obtain ⟨pid', hpid', hv⟩ := List.mem_flatMap.mp hv
  rw [layoutProgram_row (Nat.le_of_lt_succ (List.mem_range.mp hpid')) hv, hplace]

/-! ### The host -/

/-- The rows of the host behind those of the real requests: the captured requests themselves on
a decode, the first request slot otherwise. -/
def hostPadding (r : Replay) (row : Nat) : LayoutRow :=
  match r.mode with
  | .decode => ⟨r.seqLens.getD row 0, r.seqLens.getD row 0 - 1, r.reqPool.getD row 0⟩
  | _ => ⟨1, 0, r.reqPool.getD 0 0⟩

theorem getD_take_reqPool {i : Nat} (hi : i < r.bs) :
    (r.reqPool.take r.bs).getD i 0 = r.reqPool.getD i 0 := by
  rw [List.getD_eq_getElem?_getD, List.getElem?_take_of_lt hi, ← List.getD_eq_getElem?_getD]

/-- The lists of the host, with the lengths and prefixes of the rows as the kernel has them. -/
theorem graphSpeculativeLayout_eq (h : r.mode ≠ .decode) (hfits : r.counts.sum ≤ r.numTokens) :
    r.graphSpeculativeLayout = .ok
      { lengths := Tensor.ragged r.counts (fun i j => (r.realRow i j).seqLen) ++
          List.replicate (r.numTokens - r.counts.sum) 1
        requests := Tensor.ragged r.counts (fun i j => (r.realRow i j).request) ++
          List.replicate (r.numTokens - r.counts.sum) (r.reqPool.getD 0 0)
        prefixLens := Tensor.ragged r.counts (fun i j => (r.realRow i j).prefixLen) ++
          List.replicate (r.numTokens - r.counts.sum) 0 } := by
  have heffective : ∀ i, (if r.mode = .targetVerify then
      r.seqLens.getD i 0 + r.counts.getD i 0 else r.seqLens.getD i 0) = r.limit i := by
    intro i
    cases hmode : r.mode with
    | decode => exact absurd hmode h
    | targetVerify => simp only [limit, hmode, if_true]
    | draftExtend => simp only [limit, hmode, reduceCtorEq, if_false]
  have hrequests : Tensor.ragged r.counts (fun i _ => (r.reqPool.take r.bs).getD i 0) =
      Tensor.ragged r.counts fun i j => (r.realRow i j).request :=
    Tensor.ragged_congr fun i hi _ _ => getD_take_reqPool (length_counts h ▸ hi)
  unfold graphSpeculativeLayout
  simp only [← counts_eq h, heffective, hrequests, Tensor.length_ragged,
    if_neg (Nat.not_lt.mpr hfits)]
  rfl

/-- The host lays out the same rows of the real requests. -/
theorem layout_host (h : r.Fits) : ∃ layout, r.hostLayout = .ok layout ∧
    layout.lengths.length = r.numRows ∧ ∀ row < r.numRows, layout.row row =
      if row < r.counts.sum then r.kernelRow row else r.hostPadding row := by
  by_cases hmode : r.mode = .decode
  · refine ⟨⟨r.seqLens, r.reqPool.take r.bs, r.seqLens.map (· - 1)⟩, ?_, ?_, fun row hrow => ?_⟩
    · simp only [hostLayout, hmode]
    · simp only [numRows, hmode, bs]
    · have hlt : row < r.bs := by simpa only [numRows, hmode] using hrow
      have hrow : GraphLayout.row ⟨r.seqLens, r.reqPool.take r.bs, r.seqLens.map (· - 1)⟩ row =
          ⟨r.seqLens.getD row 0, r.seqLens.getD row 0 - 1, r.reqPool.getD row 0⟩ := by
        rw [GraphLayout.row, getD_take_reqPool hlt, List.getD_eq_getElem (r.seqLens.map _) _ (by
          rwa [List.length_map]), List.getElem_map, List.getD_eq_getElem _ _ hlt]
        rfl
      rw [hrow, sum_counts_decode hmode]
      split
      · next hreal => rw [kernelRow_decode hmode hreal]
      · simp only [hostPadding, hmode]
  · have hfits : r.counts.sum ≤ r.numTokens := by
      cases hcase : r.mode with
      | decode => exact absurd hcase hmode
      | targetVerify => simpa only [Fits, numRows, hcase] using h
      | draftExtend => simpa only [Fits, numRows, hcase] using h
    have hshape : r.numRows = r.numTokens ∧ r.hostLayout = r.graphSpeculativeLayout ∧
        ∀ row, r.hostPadding row = ⟨1, 0, r.reqPool.getD 0 0⟩ := by
      cases hcase : r.mode with
      | decode => exact absurd hcase hmode
      | targetVerify => simp only [numRows, hostLayout, hostPadding, hcase, and_self, implies_true]
      | draftExtend => simp only [numRows, hostLayout, hostPadding, hcase, and_self, implies_true]
    rw [hshape.2.1, graphSpeculativeLayout_eq hmode hfits]
    refine ⟨_, rfl, ?_, fun row hrow => ?_⟩
    · rw [List.length_append, Tensor.length_ragged, List.length_replicate, hshape.1,
        Nat.add_sub_cancel' hfits]
    split
    · next hreal =>
      obtain ⟨i, hi, hlow, hhigh⟩ := Tensor.exists_row hreal
      obtain ⟨j, rfl⟩ := Nat.exists_eq_add_of_le hlow
      rw [Tensor.sum_take_succ_getD] at hhigh
      have hj : j < r.counts.getD i 0 := by omega
      rw [kernelRow_real hi hj, GraphLayout.row]
      simp only [Tensor.getD_ragged_append hi hj]
    · next hreal =>
      rw [hshape.1] at hrow
      have hlow := Nat.not_lt.mp hreal
      have hhigh : row < r.counts.sum + (r.numTokens - r.counts.sum) := by omega
      rw [hshape.2.2, GraphLayout.row]
      simp only [Tensor.getD_ragged_tail hlow hhigh]

end Layouts

end Replay
end Qsa
end FlashNext
