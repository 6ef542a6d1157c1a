import FlashNext.Audit.Contract
import Mathlib.Data.List.Dedup

/-!
# The metadata documents

`strictJsonLoads` runs the hooks of the strict reader over what the JSON scanner reads: numbers
that are not finite and repeated keys are refused.  The two metadata documents have to agree with
the contract and with each other, and the weight index has to have the contracted counts.
-/

namespace FlashNext
namespace Audit

open Py (Str Value NonFinite str)

abbrev Fields := List (Str × Value)

/-! ## Strict JSON -/

/-- What the scanner reads before any hook is called.  A float that is too large for `float` has
no value; a constant is `NaN` or an infinity. -/
inductive Raw where
  | null
  | bool (b : Bool)
  | int (n : Int)
  | real (q : Option ℚ)
  | constant (x : NonFinite)
  | str (s : Str)
  | arr (items : List Raw)
  | obj (fields : List (Str × Raw))

/-- `_no_duplicate_keys`. -/
def noDuplicateKeys : Fields → Fields → Check Fields
  | seen, [] => .ok seen
  | seen, (key, value) :: pairs =>
    if seen.any fun f => f.1 == key then
      .error (.audit [.text "duplicate JSON key ", .repr (.str key)])
    else noDuplicateKeys (seen ++ [(key, value)]) pairs

mutual
/-- A value, with the hooks called in the order of the text. -/
def hooked : Raw → Check Value
  | .null => .ok .none
  | .bool b => .ok (.bool b)
  | .int n => .ok (.int n)
  | .real q => (orReject q [.text "nonfinite JSON numeric value"]).map .float
  | .constant _ => .error (.audit [.text "non-finite JSON number (NaN/Infinity) rejected"])
  | .str s => .ok (.str s)
  | .arr items => (hookedItems items).map .list
  | .obj fields => do
    let pairs ← hookedFields fields
    let seen ← noDuplicateKeys [] pairs
    return .dict seen

def hookedItems : List Raw → Check (List Value)
  | [] => .ok []
  | item :: items => do
    let value ← hooked item
    let values ← hookedItems items
    return value :: values

def hookedFields : List (Str × Raw) → Check Fields
  | [] => .ok []
  | (key, item) :: fields => do
    let value ← hooked item
    let values ← hookedFields fields
    return (key, value) :: values
end

/-- `strict_json_loads`, of a text that the scanner reads as `scan`. -/
def strictJsonLoads (scan : Option Raw) (label : List Part) : Check Value := do
  let raw ← orReject scan (label ++ [.text ": invalid JSON"])
  hooked raw

/-! ## Files -/

/-- A metadata file: what stands at its path and what its text reads as. -/
structure Document where
  linked : Bool
  readable : Bool
  decodes : Bool
  chars : Nat
  scan : Option Raw

/-- `METADATA_JSON_LIMIT`. -/
def metadataJsonLimit : Nat := 64 * 1024 * 1024

/-- `_read_json`. -/
def readJson (doc : Document) (label : String) : Check Value := do
  rejectIf doc.linked [.text label, .text " is a symlink"]
  rejectIf (!doc.readable) [.text "cannot read ", .text label]
  Effect.reject (!doc.decodes) (.raised "UnicodeDecodeError")
  rejectIf (decide (metadataJsonLimit < doc.chars)) [.text "metadata JSON exceeds byte limit"]
  strictJsonLoads doc.scan [.text label]

/-- `_safe_relpath`. -/
def safeRelpath (name : Str) : Bool :=
  !name.isEmpty && decide (name.length ≤ 1024) && name.head? != some 0x2f && !name.contains 0x5c &&
    !name.contains 0 &&
    (name.splitOn 0x2f).all fun part => !part.isEmpty && part != [0x2e] && part != [0x2e, 0x2e]

/-! ## The configuration -/

def isText (v : Value) (s : String) : Bool := v.eqv (.str (str s))

def isNat (v : Value) (n : Nat) : Bool := v.eqv (.int n)

/-- The value has to be a dictionary for its `get` to be called. -/
def dictOf (v : Value) : Check Fields := Effect.orRaise v.asDict? (.raised "AttributeError")

def configNumbers (c : Contract) : List (String × Nat) :=
  [("num_hidden_layers", c.numHiddenLayers), ("num_experts", c.numExperts),
    ("num_experts_per_tok", c.numExpertsPerTok)]

def validateConfig (config : Fields) (c : Contract) : Check Unit := do
  let architecture := Value.field config "architectures"
  rejectIf (!(architecture.asList?.any fun items =>
      items.length == 1 && isText (items.headD .none) c.architecture))
    [.text "unexpected architecture ", .repr architecture, .text " (expected ",
      .text c.architecture, .text ")"]
  let text ← orReject (Value.field config "text_config").asDict?
    [.text "config.text_config must be an object"]
  ["num_hidden_layers", "num_experts", "num_experts_per_tok", "max_position_embeddings"].forM
    fun key => rejectIf (Value.field text key).asInt?.isNone
      [.text "text_config.", .text key, .text " must be an integer"]
  (configNumbers c).forM fun (key, expected) =>
    rejectIf (!isNat (Value.field text key) expected)
      [.text "text_config.", .text key, .text " ", .repr (Value.field text key), .text " != ",
        .number expected]
  rejectIf (!isNat (Value.field text "max_position_embeddings") c.nativeContext)
    [.text "native context ", .repr (Value.field text "max_position_embeddings"), .text " != ",
      .number c.nativeContext]
  rejectIf (!((Value.field config "vision_config").asDict?.any fun vision =>
      isText (Value.field vision "dtype") "bfloat16") || !isText (Value.field text "dtype") "bfloat16")
    [.text "config.vision_config with dtype is required"]

/-! ## The quantization metadata -/

/-- `fields[key] = value`. -/
def setField (fields : Fields) (key : String) (value : Value) : Fields :=
  if fields.any fun f => f.1 == str key then
    fields.map fun f => if f.1 = str key then (f.1, value) else f
  else fields ++ [(str key, value)]

def mtpKey : String := "mtp.layers.0.mlp.experts"

/-- The layers whose experts are quantized. -/
def targetKey (layer : Nat) : Str :=
  str "model.language_model.layers." ++ decimal layer ++ str ".mlp.experts"

def allowedKeys (c : Contract) : List Str :=
  (List.range c.numHiddenLayers).map targetKey ++ [str mtpKey, str plePrefix]

/-- `{"quant_algo": "NVFP4", "group_size": …}`. -/
def targetEntry (c : Contract) : Value :=
  .dict [(str "quant_algo", .str (str "NVFP4")), (str "group_size", .int c.nvfp4.groupSize)]

/-- `mapping[key]`, with a key that is not a literal. -/
def lookupStr (fields : Fields) (key : Str) : Option Value :=
  (fields.find? fun f => f.1 == key).map (·.2)

def checkMapping (c : Contract) (mapping : Fields) : Check Unit := do
  rejectIf (!(mapping.all (fun f => (allowedKeys c).contains f.1) &&
      (allowedKeys c).all fun key => mapping.any fun f => f.1 == key))
    [.text "quantized_layers does not match all target/MTP/PLE families"]
  ((List.range c.numHiddenLayers).map targetKey).forM fun key => do
    let entry ← Effect.orRaise (lookupStr mapping key) (.raised "KeyError")
    rejectIf (!entry.eqv (targetEntry c))
      [.text "target NVFP4 quant metadata mismatch: ", .name key]

def checkMtpEntries (config hf : Fields) (c : Contract) : Check Unit := do
  rejectIf (!isText (Value.field config "quant_algo") c.configAlias)
    [.text "config.json MTP alias ", .repr (Value.field config "quant_algo"), .text " != ",
      .text c.configAlias]
  rejectIf (!isText (Value.field hf "quant_algo") c.hfAlias)
    [.text "hf_quant_config.json MTP alias ", .repr (Value.field hf "quant_algo"), .text " != ",
      .text c.hfAlias]
  rejectIf (!isNat (Value.field config "group_size") c.mtp.groupSize)
    [.text "MTP group_size ", .repr (Value.field config "group_size"), .text " != ",
      .number c.mtp.groupSize]
  rejectIf (!isNat (Value.field hf "group_size") c.mtp.groupSize)
    [.text "hf MTP group_size ", .repr (Value.field hf "group_size"), .text " != ",
      .number c.mtp.groupSize]
  rejectIf (!(Value.dict hf).eqv (.dict config) &&
      !(Value.dict (setField config "quant_algo" (.str (str c.hfAlias)))).eqv (.dict hf))
    [.text "MTP quant entries disagree beyond the sanctioned alias"]

def validateQuantMetadata (configQuant : Value) (hfQuant : Fields) (c : Contract) : Check Unit := do
  let configQuant ← dictOf configQuant
  rejectIf (!isText (Value.field configQuant "quant_algo") c.quantAlgo)
    [.text "config quantization_config.quant_algo ", .repr (Value.field configQuant "quant_algo"),
      .text " != ", .text c.quantAlgo]
  rejectIf (!isText (Value.field hfQuant "quant_algo") c.quantAlgo)
    [.text "hf_quant_config quantization.quant_algo ", .repr (Value.field hfQuant "quant_algo"),
      .text " != ", .text c.quantAlgo]
  let layersMessage := [Part.text "quantized_layers must be objects in both entry points"]
  let configLayers ← orReject (Value.field configQuant "quantized_layers").asDict? layersMessage
  let hfLayers ← orReject (Value.field hfQuant "quantized_layers").asDict? layersMessage
  let mtpMessage := [Part.text "MTP quant entry ", .text mtpKey, .text " missing"]
  let configMtp ← orReject (Value.field configLayers mtpKey).asDict? mtpMessage
  let hfMtp ← orReject (Value.field hfLayers mtpKey).asDict? mtpMessage
  checkMtpEntries configMtp hfMtp c
  let pleMessage := [Part.text "PLE quant entry ", .text plePrefix, .text " missing"]
  let configPle ← orReject (Value.field configLayers plePrefix).asDict? pleMessage
  let hfPle ← orReject (Value.field hfLayers plePrefix).asDict? pleMessage
  rejectIf (!(Value.dict configPle).eqv (.dict hfPle) ||
      !isText (Value.field configPle "quant_algo") "FP8")
    [.text "PLE quant entries disagree or are not FP8"]
  checkMapping c configLayers
  checkMapping c hfLayers

/-! ## The weight index -/

/-- The shard that each tensor is said to stand in. -/
abbrev WeightMap := List (Str × Str)

structure IndexFacts where
  keyCount : Nat
  mtpKeyCount : Nat
  pleShardCount : Nat
  referencedFiles : List Str
  weightMap : WeightMap

def indexClaim (claim : Str × Value) : Check (Str × Str) := do
  rejectIf claim.1.isEmpty [.text "weight_map keys must be non-empty strings"]
  let shard ← orReject (claim.2.asStr?.filter safeRelpath)
    [.text "unsafe/non-string index shard"]
  return (claim.1, shard)

/-- A count of the index and what the contract has for it. -/
def checkCount (what : String) (derived contracted : Nat) : Check Unit :=
  rejectIf (derived != contracted)
    [.text "derived ", .text what, .text " count ", .number derived, .text " != contract ",
      .number contracted]

/-- The counts of a weight map. -/
def indexFacts (weightMap : WeightMap) (c : Contract) : IndexFacts where
  keyCount := weightMap.length
  mtpKeyCount := weightMap.countP fun claim => c.mtpPrefix.isPrefixOf claim.1
  pleShardCount := weightMap.countP fun claim => (matches? pleShardKey claim.1).isSome
  referencedFiles := (weightMap.map (·.2)).dedup
  weightMap := weightMap

def deriveIndexFacts (index : Value) (c : Contract) : Check IndexFacts := do
  let fields ← orReject index.asDict? [.text "index missing weight_map"]
  let claims ← orReject (Value.lookup fields "weight_map") [.text "index missing weight_map"]
  let claims ← orReject claims.asDict? [.text "weight_map must be an object"]
  let weightMap ← claims.mapM indexClaim
  let facts := indexFacts weightMap c
  checkCount "index key" facts.keyCount c.indexKeyCount
  checkCount "MTP key" facts.mtpKeyCount c.mtpKeyCount
  checkCount "PLE shard" facts.pleShardCount c.ple.shardCount
  checkCount "shard file" facts.referencedFiles.length c.shardCount
  return facts

end Audit
end FlashNext
