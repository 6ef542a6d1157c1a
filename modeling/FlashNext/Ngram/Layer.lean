import Mathlib.Algebra.GroupWithZero.Nat
import Mathlib.Algebra.Order.Ring.Int
import Mathlib.Data.List.Basic
import Mathlib.Data.List.GetD
import Mathlib.Data.List.Induction

/-!
# The tables of an n-gram layer

The constructor draws odd multipliers so small that a token of the vocabulary times a multiplier
stays below `2 ^ 63` (`build_mul`), and gives each head a prime number of rows, one head after the
other (`build_rows`).
-/

namespace FlashNext
namespace Ngram

abbrev Word := BitVec 64

def ngramSize : Nat := 3

def headsPerNgram : Nat := 8

def ngramHeads : Nat := 16

/-- What the constructor reads of the configuration. -/
structure Config where
  vocabSize : Int
  seed : Int
  ngramVocabSizeBase : Int
  embeddingDim : Int
  makeNgramVocabSizeDivisibleBy : Nat
  eosTokenId : Word

/-- The buffers of a layer. -/
structure Layer where
  multipliers : List Word
  vocabSizes : List Word
  offsets : List Word
  eosTokenId : Word

/-! ## Multipliers -/

/-- `_splitmix64`. -/
def splitmix64 (x : Word) : Word :=
  let x := x + 0x9E3779B97F4A7C15#64
  let x := (x ^^^ (x >>> 30)) * 0xBF58476D1CE4E5B9#64
  let x := (x ^^^ (x >>> 27)) * 0x94D049BB133111EB#64
  x ^^^ (x >>> 31)

/-- `half_bound`. -/
def halfBound (vocabSize : Int) : Nat := max 1 ((2 ^ 63 - 1) / (max vocabSize 1).toNat / 2)

def multiplier (config : Config) (layer idx : Nat) : Nat :=
  let baseSeed : Int := config.seed + 10007 * layer
  let x0 := BitVec.ofInt 64 (baseSeed + 0x9E3779B97F4A7C15 * (idx + 1))
  2 * ((splitmix64 x0).toNat % halfBound config.vocabSize) + 1

/-- `_build_layer_multipliers`. -/
def buildLayerMultipliers (config : Config) (layer : Nat) : List Nat :=
  (List.range ngramSize).map (multiplier config layer)

/-! ## Heads -/

/-- `_find_nth_prime_after`. -/
def findNthPrimeAfter (nextprime : Nat → Nat) (start : Nat) : Nat → Nat
  | 0 => start
  | n + 1 => nextprime (findNthPrimeAfter nextprime start n)

def headSize (nextprime : Nat → Nat) (config : Config) (layer head : Nat) : Nat :=
  findNthPrimeAfter nextprime (config.ngramVocabSizeBase - 1).toNat
    (layer * ngramHeads + head + 1)

/-- `sizes`, `offsets` and `total` of the loop. -/
structure HeadTables where
  sizes : List Nat
  offsets : List Nat
  total : Nat

def HeadTables.push (tables : HeadTables) (size : Nat) : HeadTables where
  sizes := tables.sizes ++ [size]
  offsets := tables.offsets ++ [tables.total]
  total := tables.total + size

/-- `_build_head_vocab_and_offsets`, after some of the heads. -/
def headTables (nextprime : Nat → Nat) (config : Config) (layer heads : Nat) : HeadTables :=
  (List.range heads).foldl (fun tables head => tables.push (headSize nextprime config layer head))
    ⟨[], [], 0⟩

inductive BuildError where
  | valueError (message : String)
  | zeroDivision
  | allocation
  deriving DecidableEq

/-- The constructor: the table has the rows of all heads, rounded up, and a tensor has less than
`2 ^ 63` of them. -/
def build (nextprime : Nat → Nat) (config : Config) (layer : Nat) : Except BuildError Layer :=
  let tables := headTables nextprime config layer ngramHeads
  let divisor := config.makeNgramVocabSizeDivisibleBy
  if config.embeddingDim % ngramHeads ≠ 0 then
    .error (.valueError ("ple_embed_dim must be divisible by total ngram heads: " ++
      toString config.embeddingDim ++ " % " ++ toString ngramHeads ++ " != 0"))
  else if config.ngramVocabSizeBase ≤ 0 then
    .error (.valueError "ngram_vocab_size_base must be > 0")
  else if divisor = 0 then .error .zeroDivision
  else if 2 ^ 63 ≤ (tables.total + divisor - 1) / divisor * divisor then .error .allocation
  else .ok {
    multipliers := (buildLayerMultipliers config layer).map (BitVec.ofNat 64)
    vocabSizes := tables.sizes.map (BitVec.ofNat 64)
    offsets := tables.offsets.map (BitVec.ofNat 64)
    eosTokenId := config.eosTokenId }

variable {config : Config} {nextprime : Nat → Nat} {layer : Nat} {L : Layer}

/-! ## The products of tokens -/

theorem multiplier_le (config : Config) (layer idx : Nat) :
    multiplier config layer idx ≤ 2 * halfBound config.vocabSize - 1 := by
  have hpos : 0 < halfBound config.vocabSize := Nat.lt_of_lt_of_le Nat.one_pos (Nat.le_max_left _ _)
  rw [multiplier]
  have hmod := Nat.mod_lt
    (splitmix64 (BitVec.ofInt 64 (config.seed + 10007 * layer + 0x9E3779B97F4A7C15 * (idx + 1)))).toNat
    hpos
  omega

/-- A token of the vocabulary times a multiplier, without wrapping. -/
theorem mul_multiplier_lt {t : Nat} (ht : (t : Int) < config.vocabSize) (ht63 : t < 2 ^ 63)
    (idx : Nat) : t * multiplier config layer idx < 2 ^ 63 := by
  have hle := multiplier_le config layer idx
  obtain ⟨vocab, hvocab⟩ : ∃ vocab : Nat, (max config.vocabSize 1).toNat = vocab := ⟨_, rfl⟩
  have htv : t < vocab := by omega
  rw [halfBound, hvocab] at hle
  by_cases hsmall : (2 ^ 63 - 1) / vocab / 2 ≤ 1
  · have hone : multiplier config layer idx ≤ 1 := by omega
    calc t * multiplier config layer idx ≤ t * 1 := Nat.mul_le_mul_left t hone
      _ = t := Nat.mul_one t
      _ < 2 ^ 63 := ht63
  · have hbound : multiplier config layer idx ≤ (2 ^ 63 - 1) / vocab := by omega
    have hproduct : t * multiplier config layer idx ≤ vocab * ((2 ^ 63 - 1) / vocab) :=
      Nat.mul_le_mul (Nat.le_of_lt htv) hbound
    have hdiv := Nat.mul_div_le (2 ^ 63 - 1) vocab
    omega

/-! ## The rows of the heads -/

theorem headTables_succ (heads : Nat) : headTables nextprime config layer (heads + 1) =
    (headTables nextprime config layer heads).push (headSize nextprime config layer heads) := by
  rw [headTables, List.range_succ, List.foldl_append]
  rfl

theorem headTables_length (nextprime : Nat → Nat) (config : Config) (layer heads : Nat) :
    (headTables nextprime config layer heads).sizes.length = heads ∧
      (headTables nextprime config layer heads).offsets.length = heads := by
  induction heads with
  | zero => exact ⟨rfl, rfl⟩
  | succ heads ih =>
    rw [headTables_succ, HeadTables.push, List.length_append, List.length_append, ih.1, ih.2]
    exact ⟨rfl, rfl⟩

/-- A head has its rows, and they end before the table does. -/
theorem headTables_rows (nextprime : Nat → Nat) (config : Config) (layer : Nat) {heads head : Nat}
    (h : head < heads) : ∃ offset,
    (headTables nextprime config layer heads).sizes[head]? =
        some (headSize nextprime config layer head) ∧
      (headTables nextprime config layer heads).offsets[head]? = some offset ∧
      offset + headSize nextprime config layer head ≤
        (headTables nextprime config layer heads).total := by
  induction heads with
  | zero => exact absurd h (Nat.not_lt_zero head)
  | succ heads ih =>
    obtain ⟨hsizes, hoffsets⟩ := headTables_length nextprime config layer heads
    rw [headTables_succ, HeadTables.push]
    dsimp only
    by_cases hlast : head = heads
    · subst hlast
      refine ⟨(headTables nextprime config layer head).total, ?_, ?_, Nat.le_refl _⟩
      · rw [List.getElem?_append_right (Nat.le_of_eq hsizes), hsizes, Nat.sub_self]
        rfl
      · rw [List.getElem?_append_right (Nat.le_of_eq hoffsets), hoffsets, Nat.sub_self]
        rfl
    · have hlt : head < heads := by omega
      obtain ⟨offset, hsize, hoffset, hle⟩ := ih hlt
      refine ⟨offset, ?_, ?_, ?_⟩
      · rw [List.getElem?_append_left (by omega), hsize]
      · rw [List.getElem?_append_left (by omega), hoffset]
      · omega

theorem headSize_pos (hnext : ∀ n, n < nextprime n) (config : Config) (layer head : Nat) :
    0 < headSize nextprime config layer head :=
  Nat.lt_of_le_of_lt (Nat.zero_le _) (hnext _)

/-! ## What the constructor builds -/

theorem toInt_ofNat {n : Nat} (h : n < 2 ^ 63) : (BitVec.ofNat 64 n).toInt = n := by
  rw [BitVec.toInt_eq_toNat_of_lt, BitVec.toNat_ofNat, Nat.mod_eq_of_lt (by omega)]
  rw [BitVec.toNat_ofNat, Nat.mod_eq_of_lt (by omega)]
  omega

/-- A head's size and offset, and that its rows are numbered by 64-bit integers. -/
structure HeadRows (L : Layer) (head : Nat) where
  size : Word
  offset : Word
  sizeAt : L.vocabSizes[head]? = some size
  offsetAt : L.offsets[head]? = some offset
  size_pos : 0 < size.toInt
  offset_nonneg : 0 ≤ offset.toInt
  fits : offset.toInt + size.toInt < 2 ^ 63

theorem build_total (h : build nextprime config layer = .ok L) :
    (headTables nextprime config layer ngramHeads).total < 2 ^ 63 ∧
      L = {
        multipliers := (buildLayerMultipliers config layer).map (BitVec.ofNat 64)
        vocabSizes := (headTables nextprime config layer ngramHeads).sizes.map (BitVec.ofNat 64)
        offsets := (headTables nextprime config layer ngramHeads).offsets.map (BitVec.ofNat 64)
        eosTokenId := config.eosTokenId } := by
  unfold build at h
  dsimp only at h
  split at h
  · cases h
  · split at h
    · cases h
    · split at h
      · cases h
      · next hdivisor =>
        split at h
        · cases h
        · next hrows =>
          have hround := Nat.div_add_mod ((headTables nextprime config layer ngramHeads).total +
            config.makeNgramVocabSizeDivisibleBy - 1) config.makeNgramVocabSizeDivisibleBy
          have hmod := Nat.mod_lt ((headTables nextprime config layer ngramHeads).total +
            config.makeNgramVocabSizeDivisibleBy - 1) (Nat.pos_of_ne_zero hdivisor)
          rw [Nat.mul_comm] at hround
          exact ⟨by omega, (Except.ok.inj h).symm⟩

theorem build_rows (hnext : ∀ n, n < nextprime n) (h : build nextprime config layer = .ok L)
    {head : Nat} (hhead : head < ngramHeads) : Nonempty (HeadRows L head) := by
  obtain ⟨htotal, rfl⟩ := build_total h
  obtain ⟨offset, hsize, hoffset, hle⟩ := headTables_rows nextprime config layer hhead
  have hpos := headSize_pos hnext config layer head
  have hsizeInt := toInt_ofNat (n := headSize nextprime config layer head) (by omega)
  have hoffsetInt := toInt_ofNat (n := offset) (by omega)
  refine ⟨⟨BitVec.ofNat 64 (headSize nextprime config layer head), BitVec.ofNat 64 offset,
    ?_, ?_, ?_, ?_, ?_⟩⟩
  · rw [List.getElem?_map, hsize]
    rfl
  · rw [List.getElem?_map, hoffset]
    rfl
  · omega
  · omega
  · omega

theorem multiplier_lt (config : Config) (layer idx : Nat) :
    multiplier config layer idx < 2 ^ 63 := by
  have hle := multiplier_le config layer idx
  have hvocab : 1 ≤ (max config.vocabSize 1).toNat := by omega
  have hdiv : (2 ^ 63 - 1) / (max config.vocabSize 1).toNat ≤ 2 ^ 63 - 1 := Nat.div_le_self _ _
  rw [halfBound] at hle
  omega

theorem toInt_eq_toNat {t : Word} (h : 0 ≤ t.toInt) : t.toInt = t.toNat ∧ t.toNat < 2 ^ 63 := by
  have hlt := t.isLt
  rw [BitVec.toInt_eq_toNat_cond] at h ⊢
  split at h
  · next hsmall =>
    rw [if_pos hsmall]
    omega
  · omega

/-- No product of a token of the vocabulary wraps. -/
theorem build_mul (h : build nextprime config layer = .ok L) {t m : Word} (hm : m ∈ L.multipliers)
    (hnonneg : 0 ≤ t.toInt) (hvocab : t.toInt < config.vocabSize) :
    (t * m).toInt = t.toInt * m.toInt ∧ 0 ≤ (t * m).toInt := by
  obtain ⟨-, rfl⟩ := build_total h
  obtain ⟨n, hn, rfl⟩ := List.mem_map.mp hm
  obtain ⟨idx, -, rfl⟩ := List.mem_map.mp hn
  obtain ⟨hint, hsmall⟩ := toInt_eq_toNat hnonneg
  have hm63 := multiplier_lt config layer idx
  have hproduct : t.toNat * multiplier config layer idx < 2 ^ 63 :=
    mul_multiplier_lt (by omega) hsmall idx
  have hmul : t * BitVec.ofNat 64 (multiplier config layer idx) =
      BitVec.ofNat 64 (t.toNat * multiplier config layer idx) := by
    apply BitVec.eq_of_toNat_eq
    rw [BitVec.toNat_mul, BitVec.toNat_ofNat, BitVec.toNat_ofNat,
      Nat.mod_eq_of_lt (a := multiplier config layer idx) (by omega)]
  rw [hmul, toInt_ofNat hproduct, toInt_ofNat hm63, hint]
  constructor
  · exact Int.natCast_mul _ _
  · exact Int.natCast_nonneg _

end Ngram
end FlashNext
