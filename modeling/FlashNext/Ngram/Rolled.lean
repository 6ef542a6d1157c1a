import FlashNext.Ngram.Placed

/-!
# Rolling forward

A commit takes the state of each slot over the tokens of its request.  `commitHistory` says so of
whole histories, to which the tokens are appended; where the states are the ends of the histories,
`commit` leaves the ends of what `commitHistory` leaves (`commit_ends`).
-/

namespace FlashNext
namespace Ngram

open Effect
open Tensor (lastOf)

variable {α β γ : Type}

/-! ## On histories -/

/-- A commit, where `after r n` is row `r` after the first `n` of its tokens. -/
def commitRows (E : Setting) (S : PoolShape) (fb : ForwardBatch) (l : Layout) (blank : β)
    (after : Nat → Nat → β) : Except Fault (Change β) := do
  let rows := List.range l.lengths.length
  if l.processedTokens = 0 then return {}
  if l.mode = .targetVerify then
    let steps := rows.map fun r => (List.range l.rowWidth).map fun t =>
      if t < l.lengths.getD r 0 then after r (t + 1) else blank
    let staged ← setIntermediate S steps l.rowWidth
    return { staged := staged }
  let writes ← setContext S l.stateIndices (rows.map fun r => after r (l.lengths.getD r 0))
  match ← trackTargets E fb l with
  | none => return { stores := [writes] }
  | some (track, offsets) =>
    let tracked ← setContext S track (rows.map fun r => after r (offsets.getD r 0))
    return { stores := [writes, tracked] }

/-- The history of a row's slot with the first tokens of its request. -/
def grown (l : Layout) (history : Nat → List α) (xs : List α) (r n : Nat) : List α :=
  history (l.stateIndices.getD r 0) ++ (l.request xs r).take n

def commitHistory (E : Setting) (S : PoolShape) (fb : ForwardBatch) (l : Layout)
    (history : Nat → List α) (xs : List α) : Except Fault (Change (List α)) :=
  commitRows E S fb l [] (grown l history xs)

/-! ## Rows -/

section

variable {E : Setting} {S : PoolShape} {fb : ForwardBatch} {l : Layout}

theorem setIntermediate_map {g : β → γ} {rows : List (List β)} {width : Nat} :
    setIntermediate S (rows.map (List.map g)) width =
      (setIntermediate S rows width).map (List.map (List.map g)) := by
  unfold setIntermediate
  cases S.draftTokens with
  | none => rfl
  | some draftTokens =>
    dsimp only
    rw [List.isEmpty_map, List.length_map]
    split
    · rfl
    · cases require (decide (rows.length ≤ S.specRows) && decide (width ≤ draftTokens)) .tensor <;>
        rfl

/-- The offsets of the snapshots are no longer than the rows. -/
theorem trackTargets_le {track offsets : List Nat}
    (h : trackTargets E fb l = .ok (some (track, offsets))) (r : Nat) :
    offsets.getD r 0 ≤ l.lengths.getD r 0 := by
  unfold trackTargets at h
  split at h
  · simp only [bind_ok] at h
    obtain ⟨dst, -, h⟩ := h
    split at h
    · obtain ⟨-, rfl⟩ := Prod.mk.inj (Option.some.inj (pure_ok.mp h))
      exact Nat.le_refl _
    · obtain ⟨aligned, -, h⟩ := bind_ok.mp h
      cases aligned with
      | none => cases pure_ok.mp h
      | some aligned =>
        simp only [bind_ok, pure_ok, Option.some.injEq, Prod.mk.injEq] at h
        obtain ⟨-, -, -, rfl⟩ := h
        rw [List.getD_eq_getElem?_getD, List.getD_eq_getElem?_getD, List.getElem?_zipWith]
        cases (aligned.take l.lengths.length)[r]? with
        | none => exact Nat.zero_le _
        | some n =>
          cases l.lengths[r]? with
          | none => exact Nat.le_refl 0
          | some length => exact Nat.min_le_right _ _
  · cases h

/-- Two commits whose rows are images of each other where they are looked at. -/
theorem commitRows_map {g : β → γ} {blank : β} {after : Nat → Nat → β} {after' : Nat → Nat → γ}
    (h : ∀ r n, n ≤ l.lengths.getD r 0 →
      (l.mode = .targetVerify → n ≤ l.rowWidth) → after' r n = g (after r n)) :
    commitRows E S fb l (g blank) after' =
      (commitRows E S fb l blank after).map (Change.map g) := by
  unfold commitRows
  dsimp only
  split
  · rfl
  · split
    · next hverify =>
      have hsteps : ((List.range l.lengths.length).map fun r => (List.range l.rowWidth).map fun t =>
          if t < l.lengths.getD r 0 then after' r (t + 1) else g blank) =
          ((List.range l.lengths.length).map fun r => (List.range l.rowWidth).map fun t =>
            if t < l.lengths.getD r 0 then after r (t + 1) else blank).map (List.map g) := by
        rw [List.map_map]
        refine List.map_congr_left fun r _ => ?_
        rw [Function.comp_apply, List.map_map]
        refine List.map_congr_left fun t ht => ?_
        rw [Function.comp_apply]
        split
        · next hlt => exact h r (t + 1) hlt fun _ => List.mem_range.mp ht
        · rfl
      rw [hsteps, setIntermediate_map]
      cases setIntermediate S _ l.rowWidth <;> rfl
    · next hverify =>
      have hrows : ∀ n : Nat → Nat, (∀ r, n r ≤ l.lengths.getD r 0) →
          ((List.range l.lengths.length).map fun r => after' r (n r)) =
          ((List.range l.lengths.length).map fun r => after r (n r)).map g := by
        intro n hn
        rw [List.map_map]
        exact List.map_congr_left fun r _ => h r (n r) (hn r) fun hv => absurd hv hverify
      rw [hrows _ fun r => Nat.le_refl _, setContext_map]
      cases setContext S l.stateIndices _ with
      | error f => rfl
      | ok writes =>
        dsimp only [bind, Except.bind, Except.map]
        cases htrack : trackTargets E fb l with
        | error f => rfl
        | ok targets =>
          cases targets with
          | none => rfl
          | some targets =>
            obtain ⟨track, offsets⟩ := targets
            dsimp only
            rw [hrows _ fun r => trackTargets_le htrack r, setContext_map]
            cases setContext S track _ <;> rfl

end

/-! ## What stands in the columns -/

section

variable {l : Layout} {xs : List α} {pad : α} {r : Nat}

theorem Layout.min_le_extent (l : Layout) (r : Nat) :
    min (l.lengths.getD r 0) l.rowWidth ≤ l.extent r := by
  unfold Layout.extent
  split
  · exact Nat.min_le_left _ _
  · exact Nat.min_le_right _ _

theorem Layout.Laid.length_request (hl : l.Laid) (hc : l.Covered)
    (hxs : xs.length = l.processedTokens) (hr : r < l.lengths.length) :
    (l.request xs r).length = min (l.lengths.getD r 0) l.rowWidth := by
  have hle := l.min_le_extent r
  rw [Layout.request, List.length_take, List.length_drop, hxs]
  refine Nat.min_eq_left ?_
  cases hm : min (l.lengths.getD r 0) l.rowWidth with
  | zero => exact Nat.zero_le _
  | succ m =>
    obtain ⟨hlt, -, -⟩ := (hl.placed hc).found r hr m (by omega)
    omega

theorem getElem?_request {t : Nat} (ht : t < min (l.lengths.getD r 0) l.rowWidth) :
    (l.request xs r)[t]? = xs[l.start r + t]? := by
  rw [Layout.request, List.getElem?_take_of_lt ht, List.getElem?_drop]

theorem row_col_inj {width r t r' t' : Nat} (ht : t < width) (ht' : t' < width)
    (h : r * width + t = r' * width + t') : r = r' ∧ t = t' := by
  have hdiv : ∀ {a b}, b < width → (a * width + b) / width = a := by
    intro a b hb
    rw [Nat.mul_comm, Nat.mul_add_div (Nat.zero_lt_of_lt hb), Nat.div_eq_of_lt hb, Nat.add_zero]
  have hrow : r = r' := by rw [← hdiv (a := r) ht, h, hdiv ht']
  subst hrow
  exact ⟨rfl, by omega⟩

theorem zipWith_eq_map_range {f : Nat → Nat → β} {as bs : List Nat} {n : Nat}
    (ha : as.length = n) (hb : bs.length = n) :
    List.zipWith f as bs = (List.range n).map fun p => f (as.getD p 0) (bs.getD p 0) := by
  refine List.ext_getElem (by simp [ha, hb]) fun p hp _ => ?_
  rw [List.length_zipWith, ha, hb, Nat.min_self] at hp
  rw [List.getElem_zipWith, List.getElem_map, List.getElem_range,
    List.getD_eq_getElem _ _ (ha.symm ▸ hp), List.getD_eq_getElem _ _ (hb.symm ▸ hp)]

/-- Each token has a column. -/
theorem Layout.Laid.fill_column (hl : l.Laid) (hc : l.Covered) {values : List α}
    {padded : List (List α)} (h : l.fill pad values = .ok padded) {q : Nat}
    (hq : q < l.processedTokens) : l.reqIndices.getD q 0 < l.lengths.length ∧
      l.tokenOffsets.getD q 0 < l.rowWidth := by
  have hplaced := hl.placed hc
  simp only [Layout.fill, bind_ok, pure_ok, require_ok] at h
  obtain ⟨-, -, -, hrange, -⟩ := h
  have hr : q < l.reqIndices.length := hplaced.reqs.symm ▸ hq
  have ho : q < l.tokenOffsets.length := hplaced.offsets.symm ▸ hq
  have hmem : (l.reqIndices[q], l.tokenOffsets[q]) ∈ l.reqIndices.zip l.tokenOffsets := by
    refine List.mem_iff_getElem.mpr ⟨q, ?_, List.getElem_zip⟩
    rw [List.length_zip]
    exact Nat.lt_min.mpr ⟨hr, ho⟩
  have hboth := List.all_eq_true.mp hrange _ hmem
  rw [Bool.and_eq_true, decide_eq_true_eq, decide_eq_true_eq] at hboth
  rw [List.getD_eq_getElem _ _ hr, List.getD_eq_getElem _ _ ho]
  exact hboth

/-- The columns of a row hold the values of its tokens. -/
theorem Layout.Laid.fill_row (hl : l.Laid) (hc : l.Covered) {values : List α}
    {padded : List (List α)} (h : l.fill pad values = .ok padded) :
    values.length = l.processedTokens ∧ padded.length = l.lengths.length ∧
      ∀ r < l.lengths.length, ∃ row, padded[r]? = some row ∧ row.length = l.rowWidth ∧
        ∀ t < l.extent r, t < l.rowWidth → row[t]? = values[l.start r + t]? := by
  have hplaced := hl.placed hc
  have hwidth : ∀ q < l.processedTokens, l.tokenOffsets.getD q 0 < l.rowWidth := fun q hq =>
    (hl.fill_column hc h hq).2
  simp only [Layout.fill, bind_ok, pure_ok, require_ok, beq_iff_eq,
    zipWith_eq_map_range hplaced.reqs hplaced.offsets] at h
  obtain ⟨-, hvalues, -, -, rfl⟩ := h
  refine ⟨hvalues, by rw [List.length_map, List.length_range], fun r hr => ?_⟩
  refine ⟨_, by rw [List.getElem?_map, List.getElem?_range hr]; rfl, ?_, fun t ht hw => ?_⟩
  · rw [List.length_map, List.length_range]
  · obtain ⟨hlt, hreq, hoff⟩ := hplaced.found r hr t ht
    have hin : l.start r + t < values.length := hvalues.symm ▸ hlt
    have halone : ∀ q < values.length, l.reqIndices.getD q 0 * l.rowWidth +
        l.tokenOffsets.getD q 0 = l.reqIndices.getD (l.start r + t) 0 * l.rowWidth +
          l.tokenOffsets.getD (l.start r + t) 0 → q = l.start r + t := by
      intro q hq heq
      rw [hvalues] at hq
      obtain ⟨hrow, hcol⟩ := row_col_inj (hwidth q hq) (hwidth _ hlt) heq
      rw [← hplaced.place q hq, hrow, hcol, hplaced.place _ hlt]
    have hstore := @Tensor.scatter_rows α (fun _ => pad)
      (fun p => l.reqIndices.getD p 0 * l.rowWidth + l.tokenOffsets.getD p 0) values _ hin halone
    rw [hreq, hoff, hvalues] at hstore
    rw [List.getElem?_map, List.getElem?_range hw, Option.map_some, hstore,
      List.getElem?_eq_getElem hin]

/-! ## The context -/

/-- Each row of the context is the end of its slot's history with the tokens of its request and
some padding behind. -/
structure Holds (l : Layout) (pad : α) (k : Nat) (history : Nat → List α) (xs : List α)
    (context : List (List α)) : Prop where
  length : context.length = l.lengths.length
  row : ∀ r < l.lengths.length, ∃ row rest, context[r]? = some row ∧
    row = lastOf pad k (history (l.stateIndices.getD r 0)) ++ (l.request xs r ++ rest) ∧
    (l.request xs r ++ rest).length = l.rowWidth
  column : ∀ p < l.processedTokens, l.reqIndices.getD p 0 < l.lengths.length ∧
    l.tokenOffsets.getD p 0 < l.rowWidth

theorem exists_request (hl : l.Laid) (hc : l.Covered) (hxs : xs.length = l.processedTokens)
    (hr : r < l.lengths.length) {row : List α} (hlen : row.length = l.rowWidth)
    (hrow : ∀ t < min (l.lengths.getD r 0) l.rowWidth, row[t]? = xs[l.start r + t]?) :
    ∃ rest, row = l.request xs r ++ rest := by
  have hrequest := hl.length_request hc hxs hr
  refine ⟨row.drop (l.request xs r).length, ?_⟩
  have htake : row.take (l.request xs r).length = l.request xs r := by
    refine List.ext_getElem? fun t => ?_
    by_cases ht : t < min (l.lengths.getD r 0) l.rowWidth
    · rw [List.getElem?_take_of_lt (hrequest ▸ ht), hrow t ht, getElem?_request ht]
    · rw [List.getElem?_eq_none, List.getElem?_eq_none]
      · omega
      · rw [List.length_take]
        omega
  conv_lhs => rw [← List.take_append_drop (l.request xs r).length row, htake]

theorem holds_of_rows (hl : l.Laid) {k : Nat} {history : Nat → List α} {padded : List (List α)}
    (hlen : padded.length = l.lengths.length)
    (hrows : ∀ r < l.lengths.length, ∃ rest, padded[r]? = some (l.request xs r ++ rest) ∧
      (l.request xs r ++ rest).length = l.rowWidth)
    (hcolumn : ∀ p < l.processedTokens, l.reqIndices.getD p 0 < l.lengths.length ∧
      l.tokenOffsets.getD p 0 < l.rowWidth) :
    Holds l pad k history xs
      (List.zipWith (· ++ ·) (l.stateIndices.map (lastOf pad k ∘ history)) padded) := by
  refine ⟨?_, fun r hr => ?_, hcolumn⟩
  · rw [List.length_zipWith, List.length_map, hl.slots, hlen, Nat.min_self]
  · obtain ⟨rest, hrow, hwidth⟩ := hrows r hr
    have hslot : r < l.stateIndices.length := hl.slots.symm ▸ hr
    refine ⟨_, rest, ?_, rfl, hwidth⟩
    rw [List.getElem?_zipWith, hrow, List.getElem?_map, List.getElem?_eq_getElem hslot,
      List.getD_eq_getElem _ _ hslot]
    rfl

theorem getContext_ok {S : PoolShape} {p : Pool β} {indices : List Nat} {rows : List β}
    (h : getContext S p indices = .ok rows) : rows = indices.map p.context := by
  simp only [getContext, bind_ok, pure_ok] at h
  obtain ⟨-, -, rfl⟩ := h
  rfl

/-- The rows of decoding are the tokens. -/
theorem request_decode (hl : l.Laid) (hmode : l.mode = .decode) (hr : r < xs.length)
    (hxs : xs.length = l.processedTokens) : l.request xs r = [xs[r]] := by
  have hrows := hl.decode hmode
  have hstart : l.start r = r := by
    rw [Layout.start, hmode, hrows]
    exact Nat.mul_one r
  have hone : min (l.lengths.getD r 0) l.rowWidth = 1 := by
    rw [hrows, decodeRows, List.getD_replicate _ (hxs ▸ hr)]
    rfl
  rw [Layout.request, hstart, hone, List.drop_eq_getElem_cons hr, List.take_succ_cons,
    List.take_zero]

end

theorem ngramContext_holds {E : Setting} {S : PoolShape} {l : Layout} {q : Pool (List Word)}
    {tokens : List Word} {context : List (List Word)} (hl : l.Laid) (hc : l.Covered)
    (htokens : tokens.length = l.processedTokens)
    (h : ngramContext E S l (q.map (lastOf E.eosTokenId S.rowLength)) tokens = .ok context) :
    S.rowLength = E.ngramSize - 1 ∧
      Holds l E.eosTokenId S.rowLength q.context tokens context := by
  simp only [ngramContext, bind_ok, pure_ok, require_ok, beq_iff_eq] at h
  obtain ⟨padded, hpadded, history, hhistory, -, hlen, rfl⟩ := h
  obtain rfl := getContext_ok hhistory
  refine ⟨hlen, ?_⟩
  unfold paddedTokens at hpadded
  split at hpadded
  · next hfast =>
    obtain rfl := Except.ok.inj hpadded
    have hmode := hl.fast hfast
    have hrows := hl.decode hmode
    have hseq : l.lengths.length = l.processedTokens := by
      rw [hrows, decodeRows, List.length_replicate]
    refine holds_of_rows hl ?_ (fun r hr => ?_) fun p hp => ?_
    · rw [List.length_map, htokens, hseq]
    · have hin : r < tokens.length := by omega
      rw [request_decode hl hmode hin htokens]
      refine ⟨[], ?_, ?_⟩
      · rw [List.getElem?_map, List.getElem?_eq_getElem hin]
        rfl
      · rw [hrows]
        rfl
    · rw [hrows, decodeRows, getD_range hp, List.length_replicate, List.getD_replicate _ hp]
      exact ⟨hp, Nat.one_pos⟩
  · obtain ⟨hvalues, hlength, hrows⟩ := hl.fill_row hc hpadded
    refine holds_of_rows hl hlength (fun r hr => ?_) fun p hp => hl.fill_column hc hpadded hp
    obtain ⟨row, hrow, hwidth, hcols⟩ := hrows r hr
    obtain ⟨rest, rfl⟩ := exists_request hl hc htokens hr hwidth fun t ht => by
      have hext := l.min_le_extent r
      rw [hcols t (by omega) (by omega), List.getElem?_zipWith]
      obtain ⟨hlt, hreq, hoff⟩ := (hl.placed hc).found r hr t (by omega)
      have hvalid := hl.valid hc _ hlt
      rw [hreq, hoff, decide_eq_true (by omega)] at hvalid
      have hlen : l.start r + t < l.validTokens.length := hl.valid_length hc ▸ hlt
      rw [List.getD_eq_getElem _ _ hlen] at hvalid
      rw [List.getElem?_eq_getElem hlen, hvalid]
      cases tokens[l.start r + t]? <;> rfl
    exact ⟨rest, hrow, hwidth⟩

/-! ## The commit of ends -/

section

variable {E : Setting} {S : PoolShape} {fb : ForwardBatch} {l : Layout} {pad : α} {k : Nat}
  {history : Nat → List α} {xs : List α} {context : List (List α)}

/-- The columns behind the first tokens of a row are the end of its grown history. -/
theorem Holds.window (h : Holds l pad k history xs context) {r n : Nat} {row : List α}
    (hr : context[r]? = some row) (hn : n ≤ (l.request xs r).length) :
    (row.drop n).take k = lastOf pad k (grown l history xs r n) := by
  have hlt : r < l.lengths.length := by
    obtain ⟨hlt, -⟩ := List.getElem?_eq_some_iff.mp hr
    exact h.length ▸ hlt
  obtain ⟨row', rest, hrow', heq, -⟩ := h.row r hlt
  obtain rfl := Option.some.inj (hr.symm.trans hrow')
  have hsplit : l.request xs r ++ rest =
      (l.request xs r).take n ++ ((l.request xs r).drop n ++ rest) := by
    rw [← List.append_assoc, List.take_append_drop]
  have hlen : ((l.request xs r).take n).length = n := List.length_take_of_le hn
  have hwindow := @Tensor.take_drop_lastOf α pad k (history (l.stateIndices.getD r 0))
    ((l.request xs r).take n) ((l.request xs r).drop n ++ rest)
  rw [hlen] at hwindow
  rw [heq, hsplit, grown]
  exact hwindow

theorem Holds.length_row (h : Holds l pad k history xs context) {r : Nat} {row : List α}
    (hr : context[r]? = some row) : row.length = k + l.rowWidth := by
  have hlt : r < l.lengths.length := by
    obtain ⟨hlt, -⟩ := List.getElem?_eq_some_iff.mp hr
    exact h.length ▸ hlt
  obtain ⟨row', rest, hrow', heq, hwidth⟩ := h.row r hlt
  obtain rfl := Option.some.inj (hr.symm.trans hrow')
  rw [heq, List.length_append, Tensor.length_lastOf, hwidth]

/-- Rows are given by what each is. -/
theorem Holds.rows_eq (h : Holds l pad k history xs context) {rows : List β} {f : Nat → β}
    (hlen : rows.length = context.length)
    (hrow : ∀ r row, context[r]? = some row → rows[r]? = some (f r)) :
    rows = (List.range l.lengths.length).map f := by
  refine List.ext_getElem? fun r => ?_
  by_cases hr : r < context.length
  · rw [hrow r _ (List.getElem?_eq_getElem hr), List.getElem?_map,
      List.getElem?_range (h.length ▸ hr), Option.map_some]
  · rw [List.getElem?_eq_none (by omega), List.getElem?_eq_none]
    rw [List.length_map, List.length_range, ← h.length]
    omega

theorem gatherAt_ok {width : Nat} {offsets : List Nat} {rows : List (List α)}
    (h : gatherAt width context offsets = .ok rows) : rows.length = context.length ∧
      ∀ r row, context[r]? = some row → offsets.getD r 0 + width ≤ row.length ∧
        rows[r]? = some ((row.drop (offsets.getD r 0)).take width) := by
  simp only [gatherAt, bind_ok, pure_ok, require_ok, beq_iff_eq] at h
  obtain ⟨-, hlen, -, hfits, rfl⟩ := h
  refine ⟨by rw [List.length_zipWith, hlen, Nat.min_self], fun r row hr => ?_⟩
  obtain ⟨hlt, hrow⟩ := List.getElem?_eq_some_iff.mp hr
  have ho : r < offsets.length := hlen.symm ▸ hlt
  rw [List.getD_eq_getElem _ _ ho]
  constructor
  · have hmem : (row, offsets[r]) ∈ context.zip offsets := by
      refine List.mem_iff_getElem?.mpr ⟨r, ?_⟩
      rw [List.getElem?_zip_eq_some]
      exact ⟨hr, List.getElem?_eq_getElem ho⟩
    exact of_decide_eq_true (List.all_eq_true.mp hfits _ hmem)
  · rw [List.getElem?_zipWith, hr, List.getElem?_eq_getElem ho]

/-- Columns gathered behind tokens of the requests. -/
theorem Holds.gatherAt (h : Holds l pad k history xs context) (hl : l.Laid) (hc : l.Covered)
    (hxs : xs.length = l.processedTokens) {offsets : List Nat} {rows : List (List α)}
    (hle : ∀ r, offsets.getD r 0 ≤ l.lengths.getD r 0)
    (hg : Ngram.gatherAt k context offsets = .ok rows) :
    rows = (List.range l.lengths.length).map fun r =>
      lastOf pad k (grown l history xs r (offsets.getD r 0)) := by
  obtain ⟨hlen, hrows⟩ := gatherAt_ok hg
  refine h.rows_eq hlen fun r row hr => ?_
  obtain ⟨hfits, hrow⟩ := hrows r row hr
  have hwidth := h.length_row hr
  have hlt : r < l.lengths.length := by
    obtain ⟨hlt, -⟩ := List.getElem?_eq_some_iff.mp hr
    exact h.length ▸ hlt
  have hoffset := hle r
  rw [hrow, h.window hr]
  rw [hl.length_request hc hxs hlt]
  omega

/-- While decoding a row is one column longer than a state. -/
theorem Holds.drop_decode (h : Holds l pad k history xs context) (hl : l.Laid) (hc : l.Covered)
    (hxs : xs.length = l.processedTokens) (hmode : l.mode = .decode) :
    context.map (List.drop l.rowWidth) = (List.range l.lengths.length).map fun r =>
      lastOf pad k (grown l history xs r (l.lengths.getD r 0)) := by
  have hrows := hl.decode hmode
  have hwidth : l.rowWidth = 1 := by
    rw [hrows]
    rfl
  refine h.rows_eq (List.length_map _) fun r row hr => ?_
  have hlt : r < l.lengths.length := by
    obtain ⟨hlt, -⟩ := List.getElem?_eq_some_iff.mp hr
    exact h.length ▸ hlt
  have hone : l.lengths.getD r 0 = 1 := by
    have hlt' : r < l.processedTokens := by
      rw [hrows, decodeRows, List.length_replicate] at hlt
      exact hlt
    rw [hrows, decodeRows, List.getD_replicate _ hlt']
  have hlen := h.length_row hr
  have hn : 1 ≤ (l.request xs r).length := by
    rw [hl.length_request hc hxs hlt, hone, hwidth]
    exact Nat.le_refl 1
  rw [List.getElem?_map, hr, Option.map_some, hone, ← h.window hr hn, hwidth,
    List.take_of_length_le]
  rw [List.length_drop]
  omega

/-- The staged rows of a verification. -/
theorem Holds.steps (h : Holds l pad k history xs context) (hl : l.Laid) (hc : l.Covered)
    (hxs : xs.length = l.processedTokens) (hmode : l.mode = .targetVerify) :
    (context.zipIdx.map fun (row, r) => (List.range l.rowWidth).map fun t =>
      if l.validTokens.getD (r * l.rowWidth + t) false then (row.drop (t + 1)).take k
      else List.replicate k pad) =
    (List.range l.lengths.length).map fun r => (List.range l.rowWidth).map fun t =>
      if t < l.lengths.getD r 0 then lastOf pad k (grown l history xs r (t + 1))
      else lastOf pad k [] := by
  refine h.rows_eq (by rw [List.length_map, List.length_zipIdx]) fun r row hr => ?_
  have hlt : r < l.lengths.length := by
    obtain ⟨hlt, -⟩ := List.getElem?_eq_some_iff.mp hr
    exact h.length ▸ hlt
  rw [List.getElem?_map, List.getElem?_zipIdx, hr, Option.map_some, Option.map_some, Nat.zero_add]
  refine congrArg some (List.map_congr_left fun t ht => ?_)
  have ht := List.mem_range.mp ht
  have hext : l.extent r = l.rowWidth := by
    rw [Layout.extent, hmode]
  have hstart : l.start r = r * l.rowWidth := by
    rw [Layout.start, hmode]
  obtain ⟨hin, hreq, hoff⟩ := (hl.placed hc).found r hlt t (hext.symm ▸ ht)
  have hvalid := hl.valid hc _ hin
  rw [hreq, hoff, hstart] at hvalid
  rw [hvalid]
  by_cases hlive : t < l.lengths.getD r 0
  · rw [decide_eq_true hlive, if_pos rfl, if_pos hlive, h.window hr]
    rw [hl.length_request hc hxs hlt]
    omega
  · rw [decide_eq_false hlive, if_neg Bool.false_ne_true, if_neg hlive, Tensor.lastOf_nil]

theorem trackTargets_decode {track offsets : List Nat} (hmode : l.mode = .decode)
    (h : trackTargets E fb l = .ok (some (track, offsets))) : offsets = l.lengths := by
  unfold trackTargets at h
  split at h
  · simp only [bind_ok, if_pos hmode, pure_ok, Option.some.injEq, Prod.mk.injEq] at h
    obtain ⟨-, -, -, hoffsets⟩ := h
    exact hoffsets.symm
  · cases h

/-- A commit leaves the ends of what the commit of the histories leaves. -/
theorem commit_ends {c : Change (List α)} (hl : l.Laid) (hc : l.Covered)
    (hxs : xs.length = l.processedTokens) (h : Holds l pad S.rowLength history xs context)
    (hcommit : commit E S fb l pad context = .ok c) :
    ∃ c', commitHistory E S fb l history xs = .ok c' ∧ c = c'.map (lastOf pad S.rowLength) := by
  have hrows : commitRows E S fb l (lastOf pad S.rowLength [])
      (fun r n => lastOf pad S.rowLength (grown l history xs r n)) = .ok c := by
    unfold commit at hcommit
    unfold commitRows
    dsimp only at hcommit ⊢
    split at hcommit
    · next hzero => rw [if_pos hzero, ← hcommit]
    next hpos =>
    rw [if_neg hpos]
    split at hcommit
    · next hmode =>
      rw [if_pos hmode, ← h.steps hl hc hxs hmode]
      exact hcommit
    next hmode =>
    rw [if_neg hmode]
    split at hcommit
    · next hfast =>
      have hdecode := hl.fast hfast
      simp only [bind_ok, h.drop_decode hl hc hxs hdecode] at hcommit ⊢
      obtain ⟨writes, hwrites, targets, htargets, hrest⟩ := hcommit
      refine ⟨writes, hwrites, targets, htargets, ?_⟩
      cases targets with
      | none => exact hrest
      | some targets =>
        obtain ⟨track, offsets⟩ := targets
        obtain rfl := trackTargets_decode hdecode htargets
        exact bind_ok.mpr (bind_ok.mp hrest)
    · simp only [bind_ok] at hcommit ⊢
      obtain ⟨next, hnext, writes, hwrites, targets, htargets, hrest⟩ := hcommit
      obtain rfl := h.gatherAt hl hc hxs (fun r => Nat.le_refl _) hnext
      refine ⟨writes, hwrites, targets, htargets, ?_⟩
      cases targets with
      | none => exact hrest
      | some targets =>
        obtain ⟨track, offsets⟩ := targets
        simp only [bind_ok] at hrest
        obtain ⟨snapshots, hsnapshots, hrest⟩ := hrest
        obtain rfl := h.gatherAt hl hc hxs (fun r => trackTargets_le htargets r) hsnapshots
        exact bind_ok.mpr hrest
  have hmap : commitRows E S fb l (lastOf pad S.rowLength [])
      (fun r n => lastOf pad S.rowLength (grown l history xs r n)) =
      (commitHistory E S fb l history xs).map (Change.map (lastOf pad S.rowLength)) :=
    commitRows_map fun _ _ _ _ => rfl
  rw [hmap] at hrows
  obtain ⟨c', hc', rfl⟩ := map_ok.mp hrows
  exact ⟨c', hc', rfl⟩

end

end Ngram
end FlashNext
