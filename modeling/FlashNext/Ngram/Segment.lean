import FlashNext.Ngram.Hash
import FlashNext.Ngram.Placed

/-!
# The hash of a context

The last column of a shifted context is the token that many places before the last one, or the end
of text where one lies between (`shift_last`).  So the ids of a context are those of the sequence
that it is the end of (`hashRow_lastOf`).
-/

namespace FlashNext
namespace Ngram

open Tensor (lastOf)

/-- The token `j` places before the last one, with the end of text for all in front of the last end
of text before it. -/
def previous (eos : Word) (seq : List Word) : Nat → Word
  | 0 => seq.getLastD eos
  | j + 1 => (seq.reverse.tail.takeWhile (· ≠ eos)).getD j eos

/-- The mix of the last tokens. -/
def mixAt (L : Layer) (seq : List Word) (ngram : Nat) : Word :=
  (List.range' 1 (ngram - 1)).foldl
    (fun mix pos => mix ^^^ previous L.eosTokenId seq pos * L.multipliers.getD pos 0)
    (previous L.eosTokenId seq 0 * L.multipliers.getD 0 0)

/-- The ids of the last token of a sequence. -/
def idsOf (ngramSize heads : Nat) (L : Layer) (seq : List Word) : List Word :=
  (List.range' 2 (ngramSize - 1)).flatMap fun ngram =>
    (List.range heads).map fun head =>
      (mixAt L seq ngram).smod (L.vocabSizes.getD ((ngram - 2) * heads + head) 0) +
        L.offsets.getD ((ngram - 2) * heads + head) 0

/-- The blocks of `_hash_contexts`, of one row, from its shifts. -/
def hashShifts (ngramSize heads : Nat) (L : Layer) (shifted : List (List Word)) : List Word :=
  (List.range' 2 (ngramSize - 1)).flatMap fun ngram =>
    let startIdx := (ngram - 2) * heads
    (List.range heads).map fun head =>
      ((mixOf L shifted ngram).getLastD 0).smod (L.vocabSizes.getD (startIdx + head) 0) +
        L.offsets.getD (startIdx + head) 0

/-- The eager branch of `_hash_contexts`, of one row. -/
def hashRow (ngramSize heads : Nat) (L : Layer) (row : List Word) : List Word :=
  hashShifts ngramSize heads L
    ((List.range ngramSize).map (shiftRightIgnoreEos L.eosTokenId row))

theorem hashContexts_eq (L : Layer) (row : List Word) :
    hashContexts L row = hashRow ngramSize headsPerNgram L row := rfl

/-! ## Running maxima -/

theorem cummaxFrom_lt {b m : Int} {xs : List Int} {i : Nat} (hi : i < xs.length) :
    (cummaxFrom m xs).getD i (-1) < b ↔ m < b ∧ ∀ k ≤ i, xs.getD k (-1) < b := by
  induction xs generalizing m i with
  | nil => exact absurd hi (Nat.not_lt_zero i)
  | cons x xs ih =>
    rw [cummaxFrom]
    cases i with
    | zero =>
      rw [List.getD_cons_zero, Int.max_lt]
      refine and_congr_right fun _ => ⟨fun hx k hk => ?_, fun h => h 0 (Nat.le_refl 0)⟩
      rw [Nat.le_zero.mp hk]
      exact hx
    | succ i =>
      rw [List.getD_cons_succ, ih (Nat.lt_of_succ_lt_succ hi), Int.max_lt, and_assoc]
      refine and_congr_right fun _ => ⟨fun hboth k hk => ?_, fun h => ⟨?_, fun k hk => ?_⟩⟩
      · obtain ⟨hx, hxs⟩ := hboth
        cases k with
        | zero => exact hx
        | succ k => exact hxs k (Nat.le_of_succ_le_succ hk)
      · exact h 0 (Nat.zero_le _)
      · exact h (k + 1) (Nat.succ_le_succ hk)

theorem cummax_lt {b : Int} {xs : List Int} {i : Nat} (hi : i < xs.length) :
    (cummax xs).getD i (-1) < b ↔ ∀ k ≤ i, xs.getD k (-1) < b := by
  cases xs with
  | nil => exact absurd hi (Nat.not_lt_zero i)
  | cons x xs =>
    rw [cummax]
    cases i with
    | zero =>
      refine ⟨fun hx k hk => ?_, fun h => h 0 (Nat.le_refl 0)⟩
      rw [Nat.le_zero.mp hk]
      exact hx
    | succ i =>
      rw [List.getD_cons_succ, cummaxFrom_lt (Nat.lt_of_succ_lt_succ hi)]
      refine ⟨fun hboth k hk => ?_, fun h => ⟨h 0 (Nat.zero_le _), fun k hk => ?_⟩⟩
      · obtain ⟨hx, hxs⟩ := hboth
        cases k with
        | zero => exact hx
        | succ k => exact hxs k (Nat.le_of_succ_le_succ hk)
      · exact h (k + 1) (Nat.succ_le_succ hk)

theorem length_cummaxFrom (m : Int) (xs : List Int) : (cummaxFrom m xs).length = xs.length := by
  induction xs generalizing m with
  | nil => rfl
  | cons x xs ih => rw [cummaxFrom, List.length_cons, ih, List.length_cons]

theorem length_cummax (xs : List Int) : (cummax xs).length = xs.length := by
  cases xs with
  | nil => rfl
  | cons x xs => rw [cummax, List.length_cons, length_cummaxFrom, List.length_cons]

/-! ## Shifts -/

section

variable {eos : Word} {row : List Word} {j : Nat}

theorem length_shift (eos : Word) (row : List Word) (n : Nat) :
    (shiftRightIgnoreEos eos row n).length = row.length := by
  unfold shiftRightIgnoreEos
  split
  · rfl
  · rw [List.length_map, List.length_range]

/-- The last end of text before the last column. -/
theorem prevEos_lt {eosPos : List Int} {b : Int} {last : Nat} (hb : -1 < b)
    (hlen : eosPos.length = last + 1) :
    (-1 :: (cummax eosPos).dropLast).getD last (-1) < b ↔ ∀ k < last, eosPos.getD k (-1) < b := by
  cases last with
  | zero => exact ⟨fun _ k hk => absurd hk (Nat.not_lt_zero k), fun _ => hb⟩
  | succ last =>
    have hlast : last < eosPos.length := by omega
    have hdrop : (cummax eosPos).dropLast.getD last (-1) = (cummax eosPos).getD last (-1) := by
      have hl : last < (cummax eosPos).dropLast.length := by
        rw [List.length_dropLast, length_cummax]
        omega
      have hc : last < (cummax eosPos).length := by
        rw [length_cummax]
        exact hlast
      rw [List.getD_eq_getElem _ _ hl, List.getD_eq_getElem _ _ hc, List.getElem_dropLast]
    rw [List.getD_cons_succ, hdrop, cummax_lt hlast]
    exact ⟨fun h k hk => h k (Nat.le_of_lt_succ hk), fun h k hk => h k (Nat.lt_succ_of_le hk)⟩

/-- What lies between is read backwards. -/
theorem mem_take_reverse_tail {x : Word} (hj : j < row.length) :
    x ∈ row.reverse.tail.take j ↔
      ∃ k < row.length - 1, row.length - 1 - j ≤ k ∧ row[k]? = some x := by
  rw [List.mem_take_iff_getElem]
  constructor
  · rintro ⟨i, hi, hx⟩
    rw [List.length_tail, List.length_reverse] at hi
    refine ⟨row.length - 1 - 1 - i, by omega, by omega, ?_⟩
    rw [List.getElem_tail, List.getElem_reverse] at hx
    rw [← hx, List.getElem?_eq_getElem (by omega)]
    congr 2
    omega
  · rintro ⟨k, hk, hjk, hx⟩
    obtain ⟨hlt, rfl⟩ := List.getElem?_eq_some_iff.mp hx
    refine ⟨row.length - 1 - 1 - k, ?_, ?_⟩
    · rw [List.length_tail, List.length_reverse]
      omega
    · rw [List.getElem_tail, List.getElem_reverse]
      congr 1
      omega

theorem eosPos_lt {last : Nat} (hlast : row.length = last + 1) (hj : j < last + 1) :
    (∀ k < last, (row.mapIdx fun idx t => if t = eos then (idx : Int) else -1).getD k (-1) <
      (last : Int) - j) ↔ eos ∉ row.reverse.tail.take j := by
  rw [mem_take_reverse_tail (hlast ▸ hj), hlast]
  have hat : ∀ k < last, (row.mapIdx fun idx t => if t = eos then (idx : Int) else -1).getD k (-1) =
      if row[k]? = some eos then (k : Int) else -1 := by
    intro k hk
    have hk : k < row.length := by omega
    rw [List.getD_eq_getElem?_getD, List.getElem?_mapIdx, List.getElem?_eq_getElem hk]
    simp only [Option.map_some, Option.getD_some, Option.some.injEq]
  constructor
  · rintro h ⟨k, hk, hjk, hx⟩
    have hlt := h k (by omega)
    rw [hat k (by omega), if_pos hx] at hlt
    omega
  · intro h k hk
    rw [hat k hk]
    split
    · next hx =>
      by_contra hge
      exact h ⟨k, by omega, by omega, hx⟩
    · omega

/-- The last column of a shift. -/
theorem shift_last (hj : j < row.length) :
    (shiftRightIgnoreEos eos row j).getLastD 0 = previous eos row j := by
  cases j with
  | zero =>
    rw [shiftRightIgnoreEos, if_pos rfl, previous]
    cases row with
    | nil => exact absurd hj (Nat.not_lt_zero 0)
    | cons x row => rfl
  | succ j =>
    obtain ⟨last, hlast⟩ : ∃ last, row.length = last + 1 := ⟨row.length - 1, by omega⟩
    have hj : j + 1 < last + 1 := hlast ▸ hj
    have hgetD : row.getD (max ((last : Int) - ((j + 1 : Nat) : Int)) 0).toNat eos =
        row.reverse.tail.getD j eos := by
      have hin : last - (j + 1) < row.length := by omega
      have hback : j < row.reverse.tail.length := by
        rw [List.length_tail, List.length_reverse]
        omega
      have hto : (max ((last : Int) - ((j + 1 : Nat) : Int)) 0).toNat = last - (j + 1) := by omega
      rw [hto, List.getD_eq_getElem _ _ hin, List.getD_eq_getElem _ _ hback, List.getElem_tail,
        List.getElem_reverse]
      congr 1
      omega
    rw [shiftRightIgnoreEos, if_neg (Nat.succ_ne_zero j), hlast, List.range_succ, List.map_append,
      List.map_singleton, List.getLastD_concat, previous]
    have hbefore := @prevEos_lt (row.mapIdx fun idx t => if t = eos then (idx : Int) else -1)
      ((last : Int) - ((j + 1 : Nat) : Int)) last (by omega) (by rw [List.length_mapIdx, hlast])
    rw [eosPos_lt hlast hj] at hbefore
    by_cases hmem : eos ∈ row.reverse.tail.take (j + 1)
    · rw [Tensor.getD_takeWhile_of_mem hmem, if_neg]
      rintro ⟨hseg, -⟩
      exact hbefore.mp (by omega) hmem
    · rw [Tensor.getD_takeWhile_of_notMem hmem, if_pos, hgetD]
      have hlt := hbefore.mpr hmem
      exact ⟨by omega, by omega⟩

end

/-! ## The ids of a row -/

theorem getLastD_zipWith {f : Word → Word → Word} {as bs : List Word} (h : as.length = bs.length)
    (hne : as ≠ []) : (List.zipWith f as bs).getLastD 0 = f (as.getLastD 0) (bs.getLastD 0) := by
  have hpos := List.length_pos_iff.mpr hne
  have hlast : ∀ xs : List Word, 0 < xs.length → xs.getLastD 0 = xs.getD (xs.length - 1) 0 := by
    intro xs hxs
    rw [List.getLastD_eq_getLast?, List.getLast?_eq_getElem?, List.getD_eq_getElem?_getD]
  have hz : (List.zipWith f as bs).length = as.length := by
    rw [List.length_zipWith, h, Nat.min_self]
  rw [hlast _ (hz.symm ▸ hpos), hlast as hpos, hlast bs (h ▸ hpos), hz, ← h]
  have ha : as.length - 1 < as.length := by omega
  rw [List.getD_eq_getElem _ _ (hz.symm ▸ ha), List.getD_eq_getElem _ _ ha,
    List.getD_eq_getElem _ _ (h ▸ ha), List.getElem_zipWith]

theorem getLastD_map_mul {xs : List Word} (hne : xs ≠ []) (m : Word) :
    (xs.map (· * m)).getLastD 0 = xs.getLastD 0 * m := by
  obtain ⟨front, x, rfl⟩ := (List.eq_nil_or_concat' xs).resolve_left hne
  rw [List.map_append, List.map_singleton, List.getLastD_concat, List.getLastD_concat]

/-- The last column of a mix is the mix of the last columns. -/
theorem foldl_mix_last {L : Layer} {row : List Word} {shifted : List (List Word)}
    {positions : List Nat}
    (hshifted : ∀ pos ∈ positions, (shifted.getD pos []).length = row.length ∧
      (shifted.getD pos []).getLastD 0 = previous L.eosTokenId row pos) {mix : List Word} {m : Word}
    (hne : row ≠ []) (hlen : mix.length = row.length) (hlast : mix.getLastD 0 = m) :
    (positions.foldl (fun mix pos => List.zipWith (· ^^^ ·) mix
      ((shifted.getD pos []).map (· * L.multipliers.getD pos 0))) mix).getLastD 0 =
    positions.foldl
      (fun mix pos => mix ^^^ previous L.eosTokenId row pos * L.multipliers.getD pos 0) m := by
  induction positions generalizing mix m with
  | nil => exact hlast
  | cons pos positions ih =>
    obtain ⟨⟨hl, hp⟩, hrest⟩ := List.forall_mem_cons.mp hshifted
    have hne' : ∀ xs : List Word, xs.length = row.length → xs ≠ [] := by
      rintro xs hxs rfl
      exact hne (List.length_eq_zero_iff.mp hxs.symm)
    have hmul : ((shifted.getD pos []).map (· * L.multipliers.getD pos 0)).length = row.length := by
      rw [List.length_map, hl]
    rw [List.foldl_cons, List.foldl_cons]
    refine ih hrest ?_ ?_
    · rw [List.length_zipWith, hlen, hmul, Nat.min_self]
    · rw [getLastD_zipWith (hlen.trans hmul.symm) (hne' mix hlen), hlast,
        getLastD_map_mul (hne' _ hl), hp]

theorem mixOf_last {L : Layer} {row : List Word} {n ngram : Nat} (hn : 0 < n) (hle : ngram ≤ n)
    (hrow : row.length = n) :
    (mixOf L ((List.range n).map (shiftRightIgnoreEos L.eosTokenId row)) ngram).getLastD 0 =
      mixAt L row ngram := by
  have hne : row ≠ [] := by
    rintro rfl
    exact absurd hrow (Nat.ne_of_lt hn)
  have hshift : ∀ pos < n, ((List.range n).map (shiftRightIgnoreEos L.eosTokenId row)).getD pos [] =
      shiftRightIgnoreEos L.eosTokenId row pos := fun pos hpos => getD_map_range hpos
  have hat : ∀ pos < n,
      (((List.range n).map (shiftRightIgnoreEos L.eosTokenId row)).getD pos []).length =
        row.length ∧
      (((List.range n).map (shiftRightIgnoreEos L.eosTokenId row)).getD pos []).getLastD 0 =
        previous L.eosTokenId row pos := by
    intro pos hpos
    rw [hshift pos hpos]
    exact ⟨length_shift _ row pos, shift_last (hrow ▸ hpos)⟩
  have hfirst := hat 0 hn
  refine foldl_mix_last (fun pos hpos => hat pos ?_) hne ?_ ?_
  · have hmem := List.mem_range'_1.mp hpos
    omega
  · rw [List.length_map]
    exact hfirst.1
  · rw [getLastD_map_mul, hfirst.2]
    intro hnil
    rw [hnil] at hfirst
    exact hne (List.length_eq_zero_iff.mp hfirst.1.symm)

/-- The ids of a context are those of its last token. -/
theorem hashRow_eq {L : Layer} {row : List Word} {n heads : Nat} (hn : 0 < n)
    (hrow : row.length = n) : hashRow n heads L row = idsOf n heads L row := by
  rw [hashRow, hashShifts, idsOf]
  refine List.flatMap_congr fun ngram hngram => List.map_congr_left fun head _ => ?_
  have hmem := List.mem_range'_1.mp hngram
  rw [mixOf_last hn (by omega) hrow]

/-- Padding with the end of text is what there is in front of a text. -/
theorem previous_lastOf {eos : Word} {seq : List Word} {n j : Nat} (hj : j < n)
    (hseq : seq ≠ []) : previous eos (lastOf eos n seq) j = previous eos seq j := by
  obtain ⟨front, x, rfl⟩ := (List.eq_nil_or_concat' seq).resolve_left hseq
  obtain ⟨k, rfl⟩ : ∃ k, n = k + 1 := ⟨n - 1, by omega⟩
  rw [← Tensor.lastOf_concat]
  cases j with
  | zero => rw [previous, previous, List.getLastD_concat, List.getLastD_concat]
  | succ j =>
    have hrev : ∀ ys : List Word, (ys ++ [x]).reverse.tail = ys.reverse := by
      intro ys
      rw [List.reverse_append]
      rfl
    rw [previous, previous, hrev, hrev]
    have hend : (lastOf eos k front).reverse =
        (front.reverse ++ List.replicate k eos).take k := by
      have hlen : (List.replicate k eos ++ front).length - front.length = k := by
        rw [List.length_append, List.length_replicate]
        omega
      rw [lastOf, List.reverse_drop, hlen, List.reverse_append, List.reverse_replicate]
    rw [hend, Tensor.getD_takeWhile_take (Nat.lt_of_succ_lt_succ hj),
      Tensor.takeWhile_append_replicate]

/-- The ids of a context are those of every sequence that it is the end of. -/
theorem hashRow_lastOf {L : Layer} {seq : List Word} {n heads : Nat} (hn : 0 < n)
    (hseq : seq ≠ []) : hashRow n heads L (lastOf L.eosTokenId n seq) = idsOf n heads L seq := by
  have hmix : ∀ ngram ≤ n, mixAt L (lastOf L.eosTokenId n seq) ngram = mixAt L seq ngram := by
    intro ngram hle
    rw [mixAt, mixAt, previous_lastOf hn hseq]
    refine List.foldl_ext _ _ _ fun mix pos hpos => ?_
    have hmem := List.mem_range'_1.mp hpos
    rw [previous_lastOf (by omega) hseq]
  rw [hashRow_eq hn Tensor.length_lastOf, idsOf, idsOf]
  refine List.flatMap_congr fun ngram hngram => List.map_congr_left fun head _ => ?_
  have hmem := List.mem_range'_1.mp hngram
  rw [hmix ngram (by omega)]

end Ngram
end FlashNext
