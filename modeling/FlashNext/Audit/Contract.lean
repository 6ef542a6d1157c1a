import FlashNext.Effect.Check
import FlashNext.Py.Value
import FlashNext.Text.Pattern

/-!
# The checkpoint contract

The names of the quantized tensors, the patterns that recognise them and what the contract of
the pinned revision asks of each.  A run of digits is one of decimal digits of any script, as
`\d` reads a text; a name is canonical when it is written back from the numbers it has.
-/

namespace FlashNext
namespace Audit

open Py (Str Value str)
open Text (Piece)

/-! ## Refusals -/

/-- What a message is put together from. -/
inductive Part where
  | text (s : String)
  | name (s : Str)
  | names (ns : List Str)
  | repr (v : Value)
  | number (n : Int)
  | shape (dims : List Nat)

/-- An `AuditError`, or any other exception. -/
inductive Fault where
  | audit (message : List Part)
  | raised (exception : String)

abbrev Check := Except Fault

def rejectIf (bad : Bool) (message : List Part) : Check Unit := Effect.reject bad (.audit message)

def orReject {α : Type} (x : Option α) (message : List Part) : Check α :=
  Effect.orRaise x (.audit message)

@[simp] theorem rejectIf_ok {bad : Bool} {message : List Part} {u : Unit} :
    rejectIf bad message = .ok u ↔ bad = false :=
  Effect.reject_ok

@[simp] theorem orReject_ok {α : Type} {x : Option α} {message : List Part} {a : α} :
    orReject x message = .ok a ↔ x = some a :=
  Effect.orRaise_ok

/-! ## Numbers in names -/

/-- The zeros of all scripts that have decimal digits. -/
def decimalZeros : List Nat :=
  [0x30, 0x660, 0x6f0, 0x7c0, 0x966, 0x9e6, 0xa66, 0xae6, 0xb66, 0xbe6, 0xc66, 0xce6, 0xd66, 0xde6,
    0xe50, 0xed0, 0xf20, 0x1040, 0x1090, 0x17e0, 0x1810, 0x1946, 0x19d0, 0x1a80, 0x1a90, 0x1b50,
    0x1bb0, 0x1c40, 0x1c50, 0xa620, 0xa8d0, 0xa900, 0xa9d0, 0xa9f0, 0xaa50, 0xabf0, 0xff10, 0x104a0,
    0x10d30, 0x11066, 0x110f0, 0x11136, 0x111d0, 0x112f0, 0x11450, 0x114d0, 0x11650, 0x116c0,
    0x11730, 0x118e0, 0x11950, 0x11c50, 0x11d50, 0x11da0, 0x16a60, 0x16ac0, 0x16b50, 0x1d7ce,
    0x1d7d8, 0x1d7e2, 0x1d7ec, 0x1d7f6, 0x1e140, 0x1e2f0, 0x1e950, 0x1fbf0]

def digitValue? (c : Nat) : Option Nat :=
  (decimalZeros.find? fun start => decide (start ≤ c ∧ c < start + 10)).map (c - ·)

/-- `\d`. -/
def isDecimal (c : Nat) : Bool := (digitValue? c).isSome

/-- `int` of a run of digits. -/
def intOf (digits : Str) : Nat := digits.foldl (fun n c => 10 * n + (digitValue? c).getD 0) 0

/-- `%d`. -/
def decimal (n : Nat) : Str := (Nat.toDigits 10 n).map Char.toNat

theorem digitValue?_digitChar {d : Nat} (h : d < 10) :
    digitValue? (Nat.digitChar d).toNat = some d := by
  revert d
  decide

theorem decimal_eq (n : Nat) : decimal n =
    if n < 10 then [(Nat.digitChar n).toNat]
    else decimal (n / 10) ++ [(Nat.digitChar (n % 10)).toNat] := by
  unfold decimal
  by_cases hn : n < 10
  · rw [if_pos hn, Nat.toDigits_of_lt_base hn]
    rfl
  · rw [if_neg hn, Nat.toDigits_of_base_le (by omega) (by omega), List.map_append]
    rfl

theorem isDecimal_of_mem_decimal {n c : Nat} (h : c ∈ decimal n) : isDecimal c = true := by
  induction n using Nat.strong_induction_on with
  | _ n ih =>
    rw [decimal_eq] at h
    by_cases hn : n < 10
    · rw [if_pos hn, List.mem_singleton] at h
      rw [h, isDecimal, digitValue?_digitChar hn]
      rfl
    · rw [if_neg hn, List.mem_append, List.mem_singleton] at h
      rcases h with h | h
      · exact ih (n / 10) (by omega) h
      · rw [h, isDecimal, digitValue?_digitChar (by omega)]
        rfl

theorem decimal_ne_nil (n : Nat) : decimal n ≠ [] := by
  rw [decimal_eq]
  split
  · exact List.cons_ne_nil _ _
  · exact List.append_ne_nil_of_right_ne_nil _ (List.cons_ne_nil _ _)

@[simp] theorem intOf_decimal (n : Nat) : intOf (decimal n) = n := by
  induction n using Nat.strong_induction_on with
  | _ n ih =>
    rw [decimal_eq]
    by_cases hn : n < 10
    · rw [if_pos hn, intOf, List.foldl_cons, List.foldl_nil, digitValue?_digitChar hn]
      simp
    · rw [if_neg hn, intOf, List.foldl_append, ← intOf, ih (n / 10) (by omega), List.foldl_cons,
        List.foldl_nil, digitValue?_digitChar (by omega), Option.getD_some]
      omega

/-! ## Dtypes -/

inductive Dtype where
  | f64 | f32 | f16 | bf16
  | i64 | i32 | i16 | i8
  | u64 | u32 | u16 | u8
  | f8e4m3 | f8e5m2
  | bool
  deriving DecidableEq

namespace Dtype

def name : Dtype → String
  | .f64 => "F64"
  | .f32 => "F32"
  | .f16 => "F16"
  | .bf16 => "BF16"
  | .i64 => "I64"
  | .i32 => "I32"
  | .i16 => "I16"
  | .i8 => "I8"
  | .u64 => "U64"
  | .u32 => "U32"
  | .u16 => "U16"
  | .u8 => "U8"
  | .f8e4m3 => "F8_E4M3"
  | .f8e5m2 => "F8_E5M2"
  | .bool => "BOOL"

/-- `DTYPE_BYTES`. -/
def bytes : Dtype → Nat
  | .f64 => 8
  | .f32 => 4
  | .f16 => 2
  | .bf16 => 2
  | .i64 => 8
  | .i32 => 4
  | .i16 => 2
  | .i8 => 1
  | .u64 => 8
  | .u32 => 4
  | .u16 => 2
  | .u8 => 1
  | .f8e4m3 => 1
  | .f8e5m2 => 1
  | .bool => 1

/-- `KNOWN_DTYPES`. -/
def known : List Dtype :=
  [.f64, .f32, .f16, .bf16, .i64, .i32, .i16, .i8, .u64, .u32, .u16, .u8, .f8e4m3, .f8e5m2, .bool]

def ofStr? (s : Str) : Option Dtype := known.find? fun dtype => str dtype.name == s

theorem ofStr?_name (dtype : Dtype) : ofStr? (str dtype.name) = some dtype := by
  cases dtype <;> decide

end Dtype

/-! ## The names of the quantized families -/

inductive Projection where
  | gateProj
  | upProj
  | downProj
  deriving DecidableEq

namespace Projection

def name : Projection → String
  | .gateProj => "gate_proj"
  | .upProj => "up_proj"
  | .downProj => "down_proj"

def all : List Projection := [.gateProj, .upProj, .downProj]

def ofStr? (s : Str) : Option Projection := all.find? fun projection => str projection.name == s

theorem mem_all (projection : Projection) : projection ∈ all := by
  cases projection <;> decide

theorem ofStr?_name (projection : Projection) :
    ofStr? (str projection.name) = some projection := by
  cases projection <;> decide

end Projection

/-- The tensors of a main expert's projection. -/
inductive MainKind where
  | weight
  | weightScale
  | weightScale2
  | inputScale
  deriving DecidableEq

namespace MainKind

def name : MainKind → String
  | .weight => "weight"
  | .weightScale => "weight_scale"
  | .weightScale2 => "weight_scale_2"
  | .inputScale => "input_scale"

def all : List MainKind := [.weight, .weightScale, .weightScale2, .inputScale]

def ofStr? (s : Str) : Option MainKind := all.find? fun kind => str kind.name == s

theorem mem_all (kind : MainKind) : kind ∈ all := by
  cases kind <;> decide

theorem ofStr?_name (kind : MainKind) : ofStr? (str kind.name) = some kind := by
  cases kind <;> decide

end MainKind

/-- The tensors of an MTP expert's projection. -/
inductive MtpKind where
  | weight
  | weightScaleInv
  deriving DecidableEq

namespace MtpKind

def name : MtpKind → String
  | .weight => "weight"
  | .weightScaleInv => "weight_scale_inv"

def all : List MtpKind := [.weight, .weightScaleInv]

def ofStr? (s : Str) : Option MtpKind := all.find? fun kind => str kind.name == s

theorem mem_all (kind : MtpKind) : kind ∈ all := by
  cases kind <;> decide

theorem ofStr?_name (kind : MtpKind) : ofStr? (str kind.name) = some kind := by
  cases kind <;> decide

end MtpKind

/-- `_PLE_PREFIX`. -/
def plePrefix : String := "model.language_model.layers.1.ple.ple_embedding.ngram_embedding"

/-- What the patterns of both expert families have in common. -/
def expertPattern (start : String) (kinds : List String) : List (Piece Nat) :=
  [.lit (str start), .many isDecimal, .lit (str ".mlp.experts."), .many isDecimal, .lit (str "."),
    .oneOf (Projection.all.map fun projection => str projection.name), .lit (str "."),
    .oneOf (kinds.map str)]

/-- `_MAIN_EXPERT_KEY_RE`. -/
def mainExpertKey : List (Piece Nat) :=
  expertPattern "model.language_model.layers." (MainKind.all.map MainKind.name)

/-- `_MTP_EXPERT_KEY_RE`. -/
def mtpExpertKey : List (Piece Nat) := expertPattern "mtp.layers." (MtpKind.all.map MtpKind.name)

/-- `_PLE_SHARD_KEY_RE`. -/
def pleShardKey : List (Piece Nat) :=
  [.lit (str plePrefix ++ str ".shard_"), .many isDecimal, .lit (str ".weight")]

def newline : Nat := 10

/-- `pattern.match(name)`: each of the patterns ends in `$`. -/
def matches? (pattern : List (Piece Nat)) (name : Str) : Option (List Str) :=
  Text.matchEnd? newline pattern name

/-- `pattern.fullmatch(name)`. -/
def fullMatches? (pattern : List (Piece Nat)) (name : Str) : Option (List Str) :=
  Text.fullmatch? pattern name

/-- The numbers and words of an expert tensor's name. -/
structure ExpertKey (Kind : Type) where
  layer : Nat
  expert : Nat
  projection : Projection
  kind : Kind
  deriving DecidableEq

abbrev MainKey := ExpertKey MainKind

abbrev MtpKey := ExpertKey MtpKind

/-- The key of the groups that a match took. -/
def ExpertKey.ofGroups {Kind : Type} (kindOf : Str → Option Kind) :
    List Str → Option (ExpertKey Kind)
  | [layer, expert, projection, kind] => do
    let projection ← Projection.ofStr? projection
    let kind ← kindOf kind
    return ⟨intOf layer, intOf expert, projection, kind⟩
  | _ => none

/-- `_MAIN_EXPERT_KEY_RE.fullmatch`, with the numbers and words of the match. -/
def mainKey? (name : Str) : Option MainKey :=
  (fullMatches? mainExpertKey name).bind (ExpertKey.ofGroups MainKind.ofStr?)

/-- `_MTP_EXPERT_KEY_RE.match`, with the numbers and words of the match. -/
def mtpKey? (name : Str) : Option MtpKey :=
  (matches? mtpExpertKey name).bind (ExpertKey.ofGroups MtpKind.ofStr?)

/-- The canonical name with these numbers and words. -/
def expertName {Kind : Type} (start : String) (kindName : Kind → String) (key : ExpertKey Kind) :
    Str :=
  str start ++ (decimal key.layer ++ (str ".mlp.experts." ++ (decimal key.expert ++ (str "." ++
    (str key.projection.name ++ (str "." ++ str (kindName key.kind)))))))

/-- The canonical name of a main expert's tensor. -/
def mainName (key : MainKey) : Str := expertName "model.language_model.layers." MainKind.name key

/-- The canonical name of an MTP expert's tensor. -/
def mtpName (key : MtpKey) : Str := expertName "mtp.layers." MtpKind.name key

/-- The canonical name of a PLE shard. -/
def pleShardName (index : Nat) : Str :=
  str plePrefix ++ str ".shard_" ++ (decimal index ++ str ".weight")

def pleScaleName : Str := str plePrefix ++ str ".weight_scale"

/-! ## The contract -/

structure MtpContract where
  experts : Nat
  groupSize : Nat
  weightDtype : Dtype
  scaleDtypes : List Dtype
  shape : Projection → List Nat
  scaleGrid : Projection → List Nat

structure PleContract where
  shardCount : Nat
  shardName : Nat → Str
  shardDtype : Dtype
  shardShape : List Nat
  scaleName : Str
  scaleDtype : Dtype
  scaleShape : List Nat

structure Nvfp4Contract where
  experts : Nat
  groupSize : Nat
  weightDtype : Dtype
  scaleDtype : Dtype
  scale2Dtype : Dtype
  inputScaleDtype : Dtype
  weightShape : Projection → List Nat
  scaleShape : Projection → List Nat

structure Contract where
  modelId : String
  modelSha : String
  architecture : String
  numHiddenLayers : Nat
  numExperts : Nat
  numExpertsPerTok : Nat
  nativeContext : Nat
  quantAlgo : String
  configAlias : String
  hfAlias : String
  mtpPrefix : Str
  mtp : MtpContract
  ple : PleContract
  nvfp4 : Nvfp4Contract
  nonexpertDtypes : List Dtype
  mtpShard : Str
  indexKeyCount : Nat
  mtpKeyCount : Nat
  shardCount : Nat
  plePayloadBytes : Nat

/-- `TRUSTED_MODEL_CONTRACT`. -/
def trustedModelContract : Contract where
  modelId := "nvidia/Qwen3.8-Flash-Next-NVFP4"
  modelSha := "fc694b54fb0174e0913e6adf86691ef85a4ead47"
  architecture := "Qwen4ExpForConditionalGeneration"
  numHiddenLayers := 48
  numExperts := 512
  numExpertsPerTok := 10
  nativeContext := 262144
  quantAlgo := "MIXED_PRECISION"
  configAlias := "FP8_PB_WO"
  hfAlias := "FP8_BLOCK_SCALES"
  mtpPrefix := str "mtp."
  mtp :=
    { experts := 512
      groupSize := 128
      weightDtype := .f8e4m3
      scaleDtypes := [.bf16, .f32]
      shape := fun
        | .gateProj => [640, 2560]
        | .upProj => [640, 2560]
        | .downProj => [2560, 640]
      scaleGrid := fun
        | .gateProj => [5, 20]
        | .upProj => [5, 20]
        | .downProj => [20, 5] }
  ple :=
    { shardCount := 128
      shardName := pleShardName
      shardDtype := .f8e4m3
      shardShape := [2500012, 160]
      scaleName := pleScaleName
      scaleDtype := .bf16
      scaleShape := [1] }
  nvfp4 :=
    { experts := 512
      groupSize := 16
      weightDtype := .u8
      scaleDtype := .f8e4m3
      scale2Dtype := .f32
      inputScaleDtype := .f32
      weightShape := fun
        | .gateProj => [640, 1280]
        | .upProj => [640, 1280]
        | .downProj => [2560, 320]
      scaleShape := fun
        | .gateProj => [640, 160]
        | .upProj => [640, 160]
        | .downProj => [2560, 40] }
  nonexpertDtypes := [.bf16, .i64]
  mtpShard := str "model-fp8-mtp-ple.safetensors"
  indexKeyCount := 299545
  mtpKeyCount := 3101
  shardCount := 11
  plePayloadBytes := 51200245760

end Audit
end FlashNext
