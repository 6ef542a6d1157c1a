import FlashNext.Ngram.Layer
import FlashNext.Tensor.Launch

/-!
# The hash of a context, eager and fused

Both paths mix the last token of a context with the tokens before it, up to the last end of text.
The eager path reduces the mix with the remainder of the divisor's sign and the kernel with that of
the dividend's, so they agree where the mix is not negative or a multiple of the head's size
(`remainder_eq_iff`).
-/

namespace FlashNext
namespace Ngram

open Tensor (Leaves cdiv)

/-! ## The eager path -/

/-- The running maxima behind a value. -/
def cummaxFrom (m : Int) : List Int → List Int
  | [] => []
  | x :: xs => max m x :: cummaxFrom (max m x) xs

/-- `torch.cummax(…).values`, of a row. -/
def cummax : List Int → List Int
  | [] => []
  | x :: xs => x :: cummaxFrom x xs

/-- `_shift_right_ignore_eos`, of a row. -/
def shiftRightIgnoreEos (eos : Word) (row : List Word) (n : Nat) : List Word :=
  if n = 0 then row
  else
    let eosPos : List Int := row.mapIdx fun idx t => if t = eos then (idx : Int) else -1
    let prevEos : List Int := -1 :: (cummax eosPos).dropLast
    (List.range row.length).map fun idx =>
      let segmentStart := prevEos.getD idx (-1) + 1
      let posInSegment := (idx : Int) - segmentStart
      let srcIdx := (idx : Int) - n
      let shifted := row.getD (max srcIdx 0).toNat eos
      if n ≤ posInSegment ∧ 0 ≤ srcIdx then shifted else eos

/-- The mix of the first shifts of a row. -/
def mixOf (L : Layer) (shifted : List (List Word)) (ngram : Nat) : List Word :=
  (List.range' 1 (ngram - 1)).foldl
    (fun mix pos => List.zipWith (· ^^^ ·) mix
      ((shifted.getD pos []).map (· * L.multipliers.getD pos 0)))
    ((shifted.getD 0 []).map (· * L.multipliers.getD 0 0))

/-- `_hash_contexts` of one row, without the kernel. -/
def hashContexts (L : Layer) (row : List Word) : List Word :=
  let shifted := (List.range ngramSize).map (shiftRightIgnoreEos L.eosTokenId row)
  (List.range' 2 (ngramSize - 1)).flatMap fun ngram =>
    let startIdx := (ngram - 2) * headsPerNgram
    (List.range headsPerNgram).map fun head =>
      ((mixOf L shifted ngram).getLastD 0).smod (L.vocabSizes.getD (startIdx + head) 0) +
        L.offsets.getD (startIdx + head) 0

/-! ## The kernel -/

/-- `mixed`, as the kernel selects it for the head. -/
def mixed (L : Layer) (token0 token1 token2 : Word) (headIdx : Nat) : Word :=
  let eos := L.eosTokenId
  let previous1 := if token1 = eos then eos else token1
  let previous2 := if token0 = eos ∨ token1 = eos then eos else token0
  let mixed := token2 * L.multipliers.getD 0 0 ^^^ previous1 * L.multipliers.getD 1 0
  let mixed3 := mixed ^^^ previous2 * L.multipliers.getD 2 0
  if headIdx < headsPerNgram then mixed else mixed3

/-- What a lane of `_qwen4_ngram_hash_kernel` stores. -/
def hashLane (L : Layer) (contexts : Nat → Word) (outputIdx : Nat) : Word :=
  let tokenIdx := outputIdx / ngramHeads
  let headIdx := outputIdx % ngramHeads
  let contextBase := tokenIdx * ngramSize
  (mixed L (contexts contextBase) (contexts (contextBase + 1)) (contexts (contextBase + 2))
    headIdx).srem (L.vocabSizes.getD headIdx 0) + L.offsets.getD headIdx 0

def blockSize : Nat := 256

/-- The stores of `fused_qwen4_ngram_hash`. -/
def hashStores (L : Layer) (contexts : Nat → Word) (rows : Nat) : List (Nat × Word) :=
  let numOutputs := rows * ngramHeads
  (List.range (cdiv numOutputs blockSize)).flatMap fun program =>
    (List.range blockSize).flatMap fun lane =>
      let outputIdx := program * blockSize + lane
      if outputIdx < numOutputs then [(outputIdx, hashLane L contexts outputIdx)] else []

/-- A row of the contexts. -/
def contextRow (contexts : Nat → Word) (row : Nat) : List Word :=
  [contexts (row * ngramSize), contexts (row * ngramSize + 1), contexts (row * ngramSize + 2)]

variable {L : Layer} {contexts : Nat → Word} {rows : Nat}

/-! ## What each path computes -/

theorem mem_hashStores {w : Nat × Word} : w ∈ hashStores L contexts rows ↔
    w.1 < rows * ngramHeads ∧ w.2 = hashLane L contexts w.1 := by
  obtain ⟨idx, x⟩ := w
  unfold hashStores
  simp only [List.mem_flatMap, List.mem_range]
  constructor
  · rintro ⟨program, -, lane, -, hw⟩
    split at hw
    · next hlt =>
      obtain ⟨rfl, rfl⟩ := Prod.mk.inj (List.mem_singleton.mp hw)
      exact ⟨hlt, rfl⟩
    · exact absurd hw List.not_mem_nil
  · rintro ⟨hlt, rfl⟩
    have hblock : 0 < blockSize := by decide
    have haddress : idx / blockSize * blockSize + idx % blockSize = idx := Nat.div_add_mod' _ _
    refine ⟨idx / blockSize, Tensor.lt_cdiv_mul hblock hlt, idx % blockSize, Nat.mod_lt _ hblock, ?_⟩
    rw [haddress, if_pos hlt]
    exact List.mem_singleton_self _

/-- The kernel's id of a head of a row. -/
def fusedId (L : Layer) (contexts : Nat → Word) (row head : Nat) : Word :=
  hashLane L contexts (row * ngramHeads + head)

theorem fused_leaves {memory : Nat → Option Word} (h : Leaves (hashStores L contexts rows) memory)
    {row head : Nat} (hrow : row < rows) (hhead : head < ngramHeads) :
    memory (row * ngramHeads + head) = some (fusedId L contexts row head) := by
  have hlt : row * ngramHeads + head < rows * ngramHeads := by
    have hle : (row + 1) * ngramHeads ≤ rows * ngramHeads := Nat.mul_le_mul_right _ hrow
    rw [Nat.succ_mul] at hle
    omega
  apply h.eq_some (mem_hashStores.mpr ⟨hlt, rfl⟩)
  rintro ⟨idx, x⟩ hw rfl
  exact (mem_hashStores.mp hw).2

/-- The mix of a head over a row. -/
def rowMix (L : Layer) (contexts : Nat → Word) (row head : Nat) : Word :=
  mixed L (contexts (row * ngramSize)) (contexts (row * ngramSize + 1))
    (contexts (row * ngramSize + 2)) head

theorem fusedId_eq {row head : Nat} (hhead : head < ngramHeads) : fusedId L contexts row head =
    (rowMix L contexts row head).srem (L.vocabSizes.getD head 0) + L.offsets.getD head 0 := by
  have hrow : (row * ngramHeads + head) / ngramHeads = row := by
    rw [Nat.mul_comm, Nat.mul_add_div (by decide), Nat.div_eq_of_lt hhead, Nat.add_zero]
  have hcol : (row * ngramHeads + head) % ngramHeads = head := by
    rw [Nat.mul_comm, Nat.mul_add_mod, Nat.mod_eq_of_lt hhead]
  rw [fusedId, hashLane, hrow, hcol]
  rfl

theorem shift_one (eos t0 t1 t2 : Word) : shiftRightIgnoreEos eos [t0, t1, t2] 1 =
    [eos, if t0 = eos then eos else t0, if t1 = eos then eos else t1] := by
  have hrange : List.range 3 = [0, 1, 2] := rfl
  by_cases h0 : t0 = eos <;> by_cases h1 : t1 = eos <;>
    simp [shiftRightIgnoreEos, cummax, cummaxFrom, hrange, h0, h1]

theorem shift_two (eos t0 t1 t2 : Word) : shiftRightIgnoreEos eos [t0, t1, t2] 2 =
    [eos, eos, if t0 = eos ∨ t1 = eos then eos else t0] := by
  have hrange : List.range 3 = [0, 1, 2] := rfl
  by_cases h0 : t0 = eos <;> by_cases h1 : t1 = eos <;>
    simp [shiftRightIgnoreEos, cummax, cummaxFrom, hrange, h0, h1]

/-- The two mixes of a row, at its last token. -/
theorem mixOf_row (L : Layer) (contexts : Nat → Word) (row : Nat) :
    (mixOf L ((List.range ngramSize).map
        (shiftRightIgnoreEos L.eosTokenId (contextRow contexts row))) 2).getLastD 0 =
        rowMix L contexts row 0 ∧
      (mixOf L ((List.range ngramSize).map
        (shiftRightIgnoreEos L.eosTokenId (contextRow contexts row))) 3).getLastD 0 =
        rowMix L contexts row headsPerNgram := by
  have hshifts : (List.range ngramSize).map
      (shiftRightIgnoreEos L.eosTokenId (contextRow contexts row)) =
      [contextRow contexts row, shiftRightIgnoreEos L.eosTokenId (contextRow contexts row) 1,
        shiftRightIgnoreEos L.eosTokenId (contextRow contexts row) 2] := rfl
  rw [hshifts, contextRow, shift_one, shift_two]
  exact ⟨rfl, rfl⟩

theorem rowMix_eq {row head head' : Nat} (h : head < headsPerNgram ↔ head' < headsPerNgram) :
    rowMix L contexts row head = rowMix L contexts row head' := by
  unfold rowMix mixed
  by_cases hhead : head < headsPerNgram
  · rw [if_pos hhead, if_pos (h.mp hhead)]
  · rw [if_neg hhead, if_neg fun hhead' => hhead (h.mpr hhead')]

theorem hashContexts_getElem? {row head : Nat} (hhead : head < ngramHeads) :
    (hashContexts L (contextRow contexts row))[head]? =
      some ((rowMix L contexts row head).smod (L.vocabSizes.getD head 0) +
        L.offsets.getD head 0) := by
  obtain ⟨htwo, hthree⟩ := mixOf_row L contexts row
  have hblocks : hashContexts L (contextRow contexts row) =
      ((List.range headsPerNgram).map fun head =>
        (rowMix L contexts row 0).smod (L.vocabSizes.getD (0 * headsPerNgram + head) 0) +
          L.offsets.getD (0 * headsPerNgram + head) 0) ++
      ((List.range headsPerNgram).map fun head =>
        (rowMix L contexts row headsPerNgram).smod
            (L.vocabSizes.getD (1 * headsPerNgram + head) 0) +
          L.offsets.getD (1 * headsPerNgram + head) 0) := by
    rw [← htwo, ← hthree, ← List.append_nil (_ ++ _), List.append_assoc]
    rfl
  rw [hblocks]
  by_cases hsmall : head < headsPerNgram
  · have hmix : rowMix L contexts row 0 = rowMix L contexts row head :=
      rowMix_eq (iff_of_true (by decide) hsmall)
    rw [List.getElem?_append_left (by simpa using hsmall), List.getElem?_map,
      List.getElem?_range hsmall, Option.map_some, hmix, Nat.zero_mul, Nat.zero_add]
  · have hmix : rowMix L contexts row headsPerNgram = rowMix L contexts row head :=
      rowMix_eq (iff_of_false (Nat.lt_irrefl _) hsmall)
    have hle : headsPerNgram ≤ head := Nat.le_of_not_lt hsmall
    have hrest : head - headsPerNgram < headsPerNgram := by
      have hsum : ngramHeads = headsPerNgram + headsPerNgram := rfl
      omega
    rw [List.getElem?_append_right (by simpa using hle), List.length_map, List.length_range,
      List.getElem?_map, List.getElem?_range hrest, Option.map_some, hmix, Nat.one_mul,
      Nat.add_sub_cancel' hle]

/-! ## The two remainders -/

/-- By a positive divisor the remainders agree where the dividend is not negative or a multiple. -/
theorem remainder_eq_iff {x size offset : Word} (hsize : 0 < size.toInt) :
    x.srem size + offset = x.smod size + offset ↔ 0 ≤ x.toInt ∨ size.toInt ∣ x.toInt := by
  rw [BitVec.add_left_inj, ← BitVec.toInt_inj, BitVec.toInt_srem, BitVec.toInt_smod,
    Int.tmod_eq_emod, Int.fmod_eq_emod_of_nonneg _ (Int.le_of_lt hsize)]
  split
  · next hsame =>
    exact iff_of_true (by omega) hsame
  · next hdiffer =>
    refine iff_of_false (fun heq => ?_) hdiffer
    omega

/-- The eager id of a head is one of the head's rows. -/
theorem smod_inRows {L : Layer} {head : Nat} (R : HeadRows L head) (x : Word) :
    R.offset.toInt ≤ (x.smod R.size + R.offset).toInt ∧
      (x.smod R.size + R.offset).toInt < R.offset.toInt + R.size.toInt := by
  have hsize := R.size_pos
  have hoffset := R.offset_nonneg
  have hfits := R.fits
  have hmod : (x.smod R.size).toInt = x.toInt % R.size.toInt := by
    rw [BitVec.toInt_smod, Int.fmod_eq_emod_of_nonneg _ (Int.le_of_lt hsize)]
  have hnonneg := Int.emod_nonneg x.toInt (Int.ne_of_gt hsize)
  have hlt := Int.emod_lt_of_pos x.toInt hsize
  have hsum : (x.smod R.size + R.offset).toInt = x.toInt % R.size.toInt + R.offset.toInt := by
    rw [BitVec.toInt_add, hmod]
    exact Int.bmod_eq_of_le (by omega) (by omega)
  omega

/-! ## When the kernel computes the eager ids -/

/-- The token is in the vocabulary. -/
def InVocab (config : Config) (t : Word) : Prop := 0 ≤ t.toInt ∧ t.toInt < config.vocabSize

/-- Over the rows, the kernel leaves the eager ids, each of them one of the head's rows, and no
product of tokens of the vocabulary wraps. -/
structure HashesAlike (config : Config) (L : Layer) (contexts : Nat → Word) (rows : Nat) : Prop where
  same : ∀ memory, Leaves (hashStores L contexts rows) memory → ∀ row < rows, ∀ head < ngramHeads,
    memory (row * ngramHeads + head) = (hashContexts L (contextRow contexts row))[head]?
  inRows : ∀ memory, Leaves (hashStores L contexts rows) memory → ∀ row < rows,
    ∀ head < ngramHeads, ∃ id size offset, memory (row * ngramHeads + head) = some id ∧
      L.vocabSizes[head]? = some size ∧ L.offsets[head]? = some offset ∧
      offset.toInt ≤ id.toInt ∧ id.toInt < offset.toInt + size.toInt
  exact : InVocab config L.eosTokenId → ∀ row < rows,
    (∀ t ∈ contextRow contexts row, InVocab config t) →
      ∀ t ∈ L.eosTokenId :: contextRow contexts row, ∀ m ∈ L.multipliers,
        (t * m).toInt = t.toInt * m.toInt

/-- The mix of the head is not negative or a multiple of the head's size. -/
def Settled (L : Layer) (contexts : Nat → Word) (row head : Nat) : Prop :=
  0 ≤ (rowMix L contexts row head).toInt ∨
    (L.vocabSizes.getD head 0).toInt ∣ (rowMix L contexts row head).toInt

variable {config : Config} {nextprime : Nat → Nat} {layer : Nat}

theorem getD_rows {head : Nat} (R : HeadRows L head) :
    L.vocabSizes.getD head 0 = R.size ∧ L.offsets.getD head 0 = R.offset := by
  rw [List.getD_eq_getElem?_getD, List.getD_eq_getElem?_getD, R.sizeAt, R.offsetAt]
  exact ⟨rfl, rfl⟩

/-- One id of the kernel is the eager one exactly where the mix is settled. -/
theorem fusedId_same_iff {row head : Nat} (hhead : head < ngramHeads) (R : HeadRows L head) :
    some (fusedId L contexts row head) = (hashContexts L (contextRow contexts row))[head]? ↔
      Settled L contexts row head := by
  obtain ⟨hsize, hoffset⟩ := getD_rows R
  rw [hashContexts_getElem? hhead, fusedId_eq hhead, Option.some_inj, Settled, hsize]
  exact remainder_eq_iff R.size_pos

theorem hashesAlike_iff (hnext : ∀ n, n < nextprime n)
    (hbuild : build nextprime config layer = .ok L) :
    HashesAlike config L contexts rows ↔
      ∀ row < rows, ∀ head < ngramHeads, Settled L contexts row head := by
  constructor
  · intro h row hrow head hhead
    obtain ⟨R⟩ := build_rows hnext hbuild hhead
    have hleaves := Tensor.leaves_self (hashStores L contexts rows)
    have hsame := h.same _ hleaves row hrow head hhead
    rw [fused_leaves hleaves hrow hhead] at hsame
    exact (fusedId_same_iff hhead R).mp hsame
  · intro h
    refine ⟨?_, ?_, ?_⟩
    · intro memory hleaves row hrow head hhead
      obtain ⟨R⟩ := build_rows hnext hbuild hhead
      rw [fused_leaves hleaves hrow hhead]
      exact (fusedId_same_iff hhead R).mpr (h row hrow head hhead)
    · intro memory hleaves row hrow head hhead
      obtain ⟨R⟩ := build_rows hnext hbuild hhead
      have hsame := (fusedId_same_iff hhead R).mpr (h row hrow head hhead)
      obtain ⟨hsize, hoffset⟩ := getD_rows R
      rw [hashContexts_getElem? hhead, hsize, hoffset] at hsame
      rw [fused_leaves hleaves hrow hhead, hsame]
      obtain ⟨hlow, hhigh⟩ := smod_inRows R (rowMix L contexts row head)
      exact ⟨_, R.size, R.offset, rfl, R.sizeAt, R.offsetAt, hlow, hhigh⟩
    · intro heos row _ hrow t ht m hm
      have hvocab : InVocab config t := by
        rcases List.mem_cons.mp ht with rfl | ht
        · exact heos
        · exact hrow t ht
      exact (build_mul hbuild hm hvocab.1 hvocab.2).1

theorem xor_nonneg {x y : Word} (hx : 0 ≤ x.toInt) (hy : 0 ≤ y.toInt) :
    0 ≤ (x ^^^ y).toInt := by
  have hmsb : ∀ z : Word, z.msb = false ↔ 0 ≤ z.toInt := by
    intro z
    rw [BitVec.msb_eq_toInt, decide_eq_false_iff_not, not_lt]
  rw [← hmsb, BitVec.msb_xor, (hmsb x).mpr hx, (hmsb y).mpr hy]
  rfl

/-- Tokens of the vocabulary are hashed alike: none of their products is negative. -/
theorem settled_of_inVocab (hbuild : build nextprime config layer = .ok L) {row head : Nat}
    (heos : InVocab config L.eosTokenId) (hrow : ∀ t ∈ contextRow contexts row, InVocab config t) :
    Settled L contexts row head := by
  have hmultipliers : ∀ i < ngramSize, L.multipliers.getD i 0 ∈ L.multipliers := by
    intro i hi
    have hlength : L.multipliers.length = ngramSize := by
      rw [(build_total hbuild).2]
      rfl
    rw [List.getD_eq_getElem?_getD, List.getElem?_eq_getElem (by omega)]
    exact List.getElem_mem _
  have hproduct : ∀ t, InVocab config t → ∀ i < ngramSize,
      0 ≤ (t * L.multipliers.getD i 0).toInt :=
    fun t ht i hi => (build_mul hbuild (hmultipliers i hi) ht.1 ht.2).2
  simp only [contextRow, List.forall_mem_cons] at hrow
  obtain ⟨h0, h1, h2, -⟩ := hrow
  have hlast := hproduct _ h2 0 (by decide)
  have hprevious1 : InVocab config (if contexts (row * ngramSize + 1) = L.eosTokenId then
      L.eosTokenId else contexts (row * ngramSize + 1)) := by
    split
    · exact heos
    · exact h1
  have hprevious2 : InVocab config (if contexts (row * ngramSize) = L.eosTokenId ∨
      contexts (row * ngramSize + 1) = L.eosTokenId then L.eosTokenId
      else contexts (row * ngramSize)) := by
    split
    · exact heos
    · exact h0
  have htwo := xor_nonneg hlast (hproduct _ hprevious1 1 (by decide))
  apply Or.inl
  unfold rowMix mixed
  dsimp only
  split
  · exact htwo
  · exact xor_nonneg htwo (hproduct _ hprevious2 2 (by decide))

/-- A stand-in for `sympy.nextprime`, for small numbers. -/
def smallPrime (n : Nat) : Nat :=
  let prime (q : Nat) : Bool := 2 ≤ q && (List.range' 2 (q - 2)).all fun d => q % d != 0
  ((List.range' (n + 1) 64).find? prime).getD (n + 1)

theorem lt_smallPrime (n : Nat) : n < smallPrime n := by
  unfold smallPrime
  extract_lets prime
  cases hfound : (List.range' (n + 1) 64).find? prime with
  | none => exact Nat.lt_succ_self n
  | some q =>
    have hmem := List.mem_range'_1.mp (List.mem_of_find?_eq_some hfound)
    exact hmem.1

/-- A layer whose heads have the first sixteen primes as their sizes. -/
def smallConfig : Config where
  vocabSize := 248320
  seed := 1234
  ngramVocabSizeBase := 1
  embeddingDim := 2560
  makeNgramVocabSizeDivisibleBy := 64
  eosTokenId := 248046#64

theorem hashesAlike_iff_small : ∃ L, build smallPrime smallConfig 0 = .ok L ∧
    HashesAlike smallConfig L (fun address => BitVec.ofNat 64 (address + 1)) 2 := by
  have hbuild : build smallPrime smallConfig 0 = .ok _ := rfl
  refine ⟨_, hbuild, (hashesAlike_iff lt_smallPrime hbuild).mpr ?_⟩
  unfold Settled
  decide

/-- The kernel's id of a negative token lies in front of the head's rows. -/
theorem fused_negative : ∃ L, build smallPrime smallConfig 0 = .ok L ∧
    (fusedId L (fun address => if address = 2 then -1 else 0) 0 0).toInt = -1 ∧
    (hashContexts L (contextRow (fun address => if address = 2 then -1 else 0) 0))[0]? = some 1 ∧
    ¬ HashesAlike smallConfig L (fun address => if address = 2 then -1 else 0) 1 := by
  refine ⟨_, rfl, by decide, by decide, fun h => ?_⟩
  have hsame := h.same _ (Tensor.leaves_self _) 0 (by decide) 0 (by decide)
  rw [fused_leaves (Tensor.leaves_self _) (by decide) (by decide)] at hsame
  exact absurd hsame (by decide)

end Ngram
end FlashNext
