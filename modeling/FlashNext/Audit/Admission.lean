import FlashNext.Audit.Family

/-!
# The admission

`auditCheckpoint` runs the checks in their order: the two metadata documents, the weight index,
the headers of all shards in the directory, and then what ties them together.
-/

namespace FlashNext
namespace Audit

open Py (Str Value str)

/-- What an admitted checkpoint is reported to be. -/
structure Findings where
  modelId : String
  modelSha : String
  root : Str
  rootStat : Int × Int × Int × Int
  architecture : Value
  configAlias : String
  hfAlias : String
  indexKeyCount : Nat
  mtpKeyCount : Nat
  shards : List ShardReport
  totalBytes : Nat
  mtpExperts : Nat
  mtpProjections : Nat
  pleShards : Nat
  pleBytes : Nat
  nvfp4 : Nvfp4Facts

def documentOf (doc : Option Document) (name : String) : Check Document :=
  orReject doc [.text "missing required metadata file: ", .text name]

/-- A document that is an object. -/
def objectOf (doc : Document) (name : String) : Check Fields := do
  let value ← readJson doc name
  orReject value.asDict? [.text name, .text " must be an object"]

/-- The shards of the index and those of the directory are the same. -/
def checkPresent (facts : IndexFacts) (report : HeadersReport) (c : Contract) : Check Unit := do
  let present := report.shards.map ShardReport.name
  let missing := facts.referencedFiles.filter fun name => !present.contains name
  rejectIf (!missing.isEmpty)
    [.text "weight_map references missing shards: ",
      .names ((missing.mergeSort fun a b => decide (a ≤ b)).take 4)]
  let extra := present.filter fun name => !facts.referencedFiles.contains name
  rejectIf (!extra.isEmpty)
    [.text "unreferenced .safetensors files present: ",
      .names ((extra.mergeSort fun a b => decide (a ≤ b)).take 4)]
  rejectIf (report.shards.length != c.shardCount)
    [.text "shard file count ", .number report.shards.length, .text " != contract ",
      .number c.shardCount, .text " (count is derived, not assumed)"]

/-- The MTP experts and the PLE shards of one header. -/
def validateMtpShard (header : Header) (c : Contract) : Check (Nat × Nat) := do
  let mtpCount ← validateMtpExpertFamily header c
  let pleBytes ← validatePleFamily header c
  rejectIf (pleBytes != c.plePayloadBytes)
    [.text "PLE payload bytes ", .number pleBytes, .text " != contract ",
      .number c.plePayloadBytes]
  return (mtpCount, pleBytes)

/-- The loop over the headers: the counts of the MTP shard, 0 as long as it is not met. -/
def mtpShardCounts (c : Contract) : Nat × Nat → Headers → Check (Nat × Nat)
  | counts, [] => .ok counts
  | counts, (name, header) :: headers =>
    if name = c.mtpShard then do
      let counts ← validateMtpShard header c
      mtpShardCounts c counts headers
    else mtpShardCounts c counts headers

/-- What the audit asks of the index and the headers together. -/
def validateHeaders (facts : IndexFacts) (report : HeadersReport) (c : Contract) :
    Check (Nat × Nat × Nvfp4Facts) := do
  checkPresent facts report c
  let (mtpCount, pleBytes) ← mtpShardCounts c (0, 0) report.headers
  rejectIf (mtpCount == 0)
    [.text "MTP shard ", .name c.mtpShard, .text " missing from checkpoint"]
  validateIndexHeaderAgreement report.headers facts.weightMap
  validateDtypeFamilies report.headers c
  let nvfp4 ← validateNvfp4Families report.headers c
  return (mtpCount, pleBytes, nvfp4)

/-- `audit_checkpoint`. -/
def auditCheckpoint (dir : Directory) (c : Contract) : Check Findings := do
  let configDoc ← documentOf dir.config "config.json"
  let quantDoc ← documentOf dir.quant "hf_quant_config.json"
  let indexDoc ← documentOf dir.index "model.safetensors.index.json"
  let config ← objectOf configDoc "config.json"
  validateConfig config c
  let quant ← objectOf quantDoc "hf_quant_config.json"
  let hfQuant ← orReject (Value.field quant "quantization").asDict?
    [.text "hf_quant_config.json missing quantization object"]
  validateQuantMetadata ((Value.lookup config "quantization_config").getD (.dict [])) hfQuant c
  let index ← readJson indexDoc "model.safetensors.index.json"
  let facts ← deriveIndexFacts index c
  let report ← auditSafetensorsHeaders dir
  let (mtpCount, pleBytes, nvfp4) ← validateHeaders facts report c
  return {
    modelId := c.modelId
    modelSha := c.modelSha
    root := dir.root
    rootStat := (dir.inode, dir.dev, dir.mtimeNs, dir.ctimeNs)
    architecture := ((Value.field config "architectures").asList?.getD []).headD .none
    configAlias := c.configAlias
    hfAlias := c.hfAlias
    indexKeyCount := facts.keyCount
    mtpKeyCount := facts.mtpKeyCount
    shards := report.shards
    totalBytes := (report.shards.map ShardReport.size).sum
    mtpExperts := c.mtp.experts
    mtpProjections := mtpCount / 2
    pleShards := c.ple.shardCount
    pleBytes := pleBytes
    nvfp4 := nvfp4 }

end Audit
end FlashNext
