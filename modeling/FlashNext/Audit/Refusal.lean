import FlashNext.Audit.Admission
import FlashNext.Audit.Names

/-!
# Refusals

What is wrong with a checkpoint should be reported as an `AuditError`.  The rules take the audit
apart into the places where it is not: text that cannot be decoded, and a value that is used as a
dictionary before anything checks that it is one.
-/

namespace FlashNext
namespace Audit

open Py (Str Value str)
open Effect (Raises)

/-- `AuditError`. -/
def Fault.IsAudit : Fault → Prop
  | .audit _ => True
  | .raised _ => False

/-- The check ends with a value or with an `AuditError`. -/
abbrev Refuses {α : Type} (x : Check α) : Prop := Raises Fault.IsAudit x

section Rules

variable {α : Type}

theorem refuses_bind {β : Type} {x : Check α} {f : α → Check β} :
    Refuses (x >>= f) ↔ Refuses x ∧ ∀ a, x = .ok a → Refuses (f a) :=
  Effect.raises_bind

theorem refuses_pure (a : α) : Refuses (pure a : Check α) := Raises.ok

theorem refuses_rejectIf (bad : Bool) (message : List Part) : Refuses (rejectIf bad message) :=
  Raises.reject trivial

theorem refuses_orReject (x : Option α) (message : List Part) : Refuses (orReject x message) :=
  Raises.orRaise trivial

theorem refuses_audit (message : List Part) : Refuses (.error (.audit message) : Check α) :=
  Raises.error trivial

/-- An exception that is not an `AuditError` must not come up. -/
theorem refuses_reject_raised {bad : Bool} {exception : String} :
    Refuses (Effect.reject bad (.raised exception)) ↔ bad = false := by
  cases bad with
  | false => exact ⟨fun _ => rfl, fun _ => Raises.ok⟩
  | true =>
    constructor
    · intro h
      exact absurd (h _ rfl) id
    · intro h
      cases h

theorem refuses_orRaise_raised {x : Option α} {exception : String} :
    Refuses (Effect.orRaise x (.raised exception)) ↔ x.isSome = true := by
  cases x with
  | some a => exact ⟨fun _ => rfl, fun _ => Raises.ok⟩
  | none =>
    constructor
    · intro h
      exact absurd (h _ rfl) id
    · intro h
      cases h

/-- A test and what comes after it passes. -/
theorem refuses_rejectIf_bind {bad : Bool} {message : List Part} {x : Check α} :
    Refuses (rejectIf bad message >>= fun _ => x) ↔ (bad = false → Refuses x) := by
  rw [refuses_bind]
  constructor
  · rintro ⟨_, hx⟩ hbad
    exact hx () (rejectIf_ok.mpr hbad)
  · intro hx
    exact ⟨refuses_rejectIf bad message, fun _ hok => hx (rejectIf_ok.mp hok)⟩

end Rules

/-! ## Documents -/

theorem refuses_noDuplicateKeys (seen pairs : Fields) : Refuses (noDuplicateKeys seen pairs) := by
  induction pairs generalizing seen with
  | nil => exact Raises.ok
  | cons pair pairs ih =>
    rw [noDuplicateKeys]
    split
    · exact refuses_audit _
    · exact ih _

mutual
theorem refuses_hooked : (raw : Raw) → Refuses (hooked raw)
  | .null => Raises.ok
  | .bool _ => Raises.ok
  | .int _ => Raises.ok
  | .real q => by
    rw [hooked]
    cases q with
    | none => exact refuses_audit _
    | some q => exact Raises.ok
  | .constant _ => refuses_audit _
  | .str _ => Raises.ok
  | .arr items => by
    have hitems := refuses_hookedItems items
    rw [hooked]
    cases h : hookedItems items with
    | ok values => exact Raises.ok
    | error e => exact Raises.error (hitems e h)
  | .obj fields => by
    rw [hooked]
    exact (refuses_hookedFields fields).bind fun _ =>
      (refuses_noDuplicateKeys _ _).bind fun _ => Raises.ok

theorem refuses_hookedItems : (items : List Raw) → Refuses (hookedItems items)
  | [] => Raises.ok
  | item :: items =>
    (refuses_hooked item).bind fun _ => (refuses_hookedItems items).bind fun _ => Raises.ok

theorem refuses_hookedFields : (fields : List (Str × Raw)) → Refuses (hookedFields fields)
  | [] => Raises.ok
  | (_, item) :: fields =>
    (refuses_hooked item).bind fun _ => (refuses_hookedFields fields).bind fun _ => Raises.ok
end

theorem refuses_strictJsonLoads (scan : Option Raw) (label : List Part) :
    Refuses (strictJsonLoads scan label) :=
  (refuses_orReject _ _).bind fun raw => refuses_hooked raw

/-- The text of the file can be decoded when it is read. -/
def Document.Decodes (doc : Document) : Prop :=
  doc.linked = false → doc.readable = true → doc.decodes = true

theorem refuses_readJson {doc : Document} {label : String} :
    Refuses (readJson doc label) ↔ doc.Decodes := by
  rw [readJson, refuses_rejectIf_bind, Document.Decodes]
  refine imp_congr_right fun _ => ?_
  rw [refuses_rejectIf_bind, Bool.not_eq_false']
  refine imp_congr_right fun _ => ?_
  rw [refuses_bind, refuses_reject_raised, Bool.not_eq_false']
  refine and_iff_left fun _ _ => ?_
  exact (refuses_rejectIf _ _).bind fun _ => refuses_strictJsonLoads _ _

theorem refuses_objectOf {doc : Document} {name : String} :
    Refuses (objectOf doc name) ↔ doc.Decodes := by
  rw [objectOf, refuses_bind, refuses_readJson]
  exact and_iff_left fun _ _ => refuses_orReject _ _

theorem refuses_validateConfig (config : Fields) (c : Contract) :
    Refuses (validateConfig config c) := by
  refine (refuses_rejectIf _ _).bind fun _ => (refuses_orReject _ _).bind fun text => ?_
  refine (Raises.forM fun key _ => refuses_rejectIf _ _).bind fun _ => ?_
  refine (Raises.forM fun (key, expected) _ => refuses_rejectIf _ _).bind fun _ => ?_
  exact (refuses_rejectIf _ _).bind fun _ => refuses_rejectIf _ _

theorem refuses_checkMtpEntries (config hf : Fields) (c : Contract) :
    Refuses (checkMtpEntries config hf c) :=
  (refuses_rejectIf _ _).bind fun _ => (refuses_rejectIf _ _).bind fun _ =>
    (refuses_rejectIf _ _).bind fun _ => (refuses_rejectIf _ _).bind fun _ => refuses_rejectIf _ _

/-- The keys that are looked up are among those that have just been compared. -/
theorem refuses_checkMapping (c : Contract) (mapping : Fields) :
    Refuses (checkMapping c mapping) := by
  rw [checkMapping, refuses_rejectIf_bind]
  intro hkeys
  rw [Bool.not_eq_false', Bool.and_eq_true] at hkeys
  refine Raises.forM fun key hkey => ?_
  have hallowed : key ∈ allowedKeys c := List.mem_append_left _ hkey
  have hpresent := List.all_eq_true.mp hkeys.2 key hallowed
  have hsome : (lookupStr mapping key).isSome = true := by
    rw [lookupStr, Option.isSome_map, List.find?_isSome]
    exact List.any_eq_true.mp hpresent
  exact (refuses_orRaise_raised.mpr hsome).bind fun _ => refuses_rejectIf _ _

/-- `quantization_config` has to be a dictionary, and nothing checks that it is. -/
theorem refuses_validateQuantMetadata {configQuant : Value} {hfQuant : Fields} {c : Contract} :
    Refuses (validateQuantMetadata configQuant hfQuant c) ↔ configQuant.asDict?.isSome = true := by
  rw [validateQuantMetadata, refuses_bind, dictOf, refuses_orRaise_raised]
  refine and_iff_left fun _ _ => ?_
  refine (refuses_rejectIf _ _).bind fun _ => (refuses_rejectIf _ _).bind fun _ => ?_
  refine (refuses_orReject _ _).bind fun _ => (refuses_orReject _ _).bind fun _ => ?_
  refine (refuses_orReject _ _).bind fun _ => (refuses_orReject _ _).bind fun _ => ?_
  refine (refuses_checkMtpEntries _ _ _).bind fun _ => ?_
  refine (refuses_orReject _ _).bind fun _ => (refuses_orReject _ _).bind fun _ => ?_
  refine (refuses_rejectIf _ _).bind fun _ => ?_
  exact (refuses_checkMapping _ _).bind fun _ => refuses_checkMapping _ _

theorem refuses_deriveIndexFacts (index : Value) (c : Contract) :
    Refuses (deriveIndexFacts index c) := by
  refine (refuses_orReject _ _).bind fun _ => (refuses_orReject _ _).bind fun _ => ?_
  refine (refuses_orReject _ _).bind fun _ => ?_
  refine (Raises.mapM fun claim _ => ?_).bind fun _ => ?_
  · exact (refuses_rejectIf _ _).bind fun _ => (refuses_orReject _ _).bind fun _ => Raises.ok
  · exact (refuses_rejectIf _ _).bind fun _ => (refuses_rejectIf _ _).bind fun _ =>
      (refuses_rejectIf _ _).bind fun _ => (refuses_rejectIf _ _).bind fun _ => Raises.ok

/-! ## Headers -/

theorem refuses_checkTensorEntry (shard name : Str) (entry : Value) :
    Refuses (checkTensorEntry shard name entry) := by
  refine (refuses_orReject _ _).bind fun _ => (refuses_orReject _ _).bind fun _ => ?_
  refine (refuses_orReject _ _).bind fun _ => (refuses_orReject _ _).bind fun (start, stop) => ?_
  dsimp only
  split
  · exact Raises.ok
  · exact refuses_audit _

theorem refuses_validateTensorEntries (shard : Str) (header : Fields) :
    Refuses (validateTensorEntries shard header) :=
  Raises.mapM fun _ _ => (refuses_rejectIf _ _).bind fun _ => (refuses_rejectIf _ _).bind fun _ =>
    (refuses_checkTensorEntry _ _ _).bind fun _ => Raises.ok

theorem refuses_checkTiles (shard : Str) (cursor : Nat) (spans : List (Nat × Nat)) :
    Refuses (checkTiles shard cursor spans) := by
  induction spans generalizing cursor with
  | nil => exact Raises.ok
  | cons span spans ih => exact (refuses_rejectIf _ _).bind fun _ => ih _

theorem refuses_checkLayout (shard : Str) (dataSize : Nat) (header : Header) :
    Refuses (checkLayout shard dataSize header) :=
  (Raises.forM fun _ _ => refuses_rejectIf _ _).bind fun _ =>
    (refuses_checkTiles _ _ _).bind fun _ => refuses_rejectIf _ _

/-- The header of the shard is read. -/
structure Shard.Opens (shard : Shard) : Prop where
  path : safeRelpath shard.name = true
  linked : shard.linked = false
  inside : shard.inside = true
  regular : shard.regular = true
  size : 8 ≤ shard.size
  limit : shard.headerLen ≤ safetensorsHeaderLimit
  header : 8 + shard.headerLen ≤ shard.size

/-- The header of the shard can be decoded when it is read. -/
def Shard.Decodes (shard : Shard) : Prop := shard.Opens → shard.decodes = true

theorem refuses_auditShard {shard : Shard} : Refuses (auditShard shard) ↔ shard.Decodes := by
  simp only [auditShard, refuses_rejectIf_bind, Bool.not_eq_false', decide_eq_false_iff_not,
    Nat.not_lt]
  rw [refuses_bind, refuses_reject_raised, Bool.not_eq_false']
  constructor
  · intro h hopens
    exact (h hopens.path hopens.linked hopens.inside hopens.regular hopens.size hopens.limit
      hopens.header).1
  · intro h hpath hlinked hinside hregular hsize hlimit hheader
    refine ⟨h ⟨hpath, hlinked, hinside, hregular, hsize, hlimit, hheader⟩, fun _ _ => ?_⟩
    refine (refuses_strictJsonLoads _ _).bind fun _ => (refuses_orReject _ _).bind fun _ => ?_
    exact (refuses_validateTensorEntries _ _).bind fun _ =>
      (refuses_checkLayout _ _ _).bind fun _ => Raises.ok

/-- The headers that the audit gets to can be decoded.  It stops at the first shard it refuses. -/
def Directory.HeadersDecode (dir : Directory) : Prop :=
  ∀ front shard rest, dir.shards = front ++ shard :: rest →
    (∀ earlier ∈ front, ∃ out, auditShard earlier = .ok out) → shard.Decodes

theorem refuses_auditSafetensorsHeaders {dir : Directory} :
    Refuses (auditSafetensorsHeaders dir) ↔ dir.HeadersDecode := by
  rw [auditSafetensorsHeaders, refuses_bind]
  refine (and_iff_left fun _ _ => Raises.ok).trans ?_
  rw [Refuses, Effect.raises_mapM, Directory.HeadersDecode]
  simp only [← refuses_auditShard]

/-! ## Families -/

theorem refuses_mtpEntry (mtp : MtpContract) (entry : Str × Tensor) :
    Refuses (mtpEntry mtp entry) := by
  unfold mtpEntry
  cases mtpKey? entry.1 with
  | none => exact Raises.ok
  | some key =>
    refine (refuses_rejectIf _ _).bind fun _ => (refuses_rejectIf _ _).bind fun _ => ?_
    refine (refuses_rejectIf _ _).bind fun _ => Raises.bind ?_ fun _ => Raises.ok
    unfold mtpAdmits
    cases key.kind with
    | weight => exact (refuses_rejectIf _ _).bind fun _ => refuses_rejectIf _ _
    | weightScaleInv => exact (refuses_rejectIf _ _).bind fun _ => refuses_rejectIf _ _

theorem refuses_validateMtpExpertFamily (header : Header) (c : Contract) :
    Refuses (validateMtpExpertFamily header c) := by
  refine (Raises.collect (refuses_mtpEntry _)).bind fun _ => (refuses_rejectIf _ _).bind fun _ => ?_
  exact (Raises.forM fun _ _ => refuses_rejectIf _ _).bind fun _ => Raises.ok

theorem refuses_pleEntry (ple : PleContract) (entry : Str × Tensor) :
    Refuses (pleEntry ple entry) := by
  unfold pleEntry
  split
  · exact (refuses_rejectIf _ _).bind fun _ => Raises.ok
  · exact Raises.ok

theorem refuses_checkPleScale (ple : PleContract) (header : Header) :
    Refuses (checkPleScale ple header) :=
  (refuses_orReject _ _).bind fun _ => (refuses_rejectIf _ _).bind fun _ => refuses_rejectIf _ _

/-- The shards that are looked up are among those that have just been counted. -/
theorem refuses_validatePleFamily (header : Header) (c : Contract) :
    Refuses (validatePleFamily header c) := by
  refine (refuses_checkPleScale _ _).bind fun _ => ?_
  refine (Raises.collect (refuses_pleEntry _)).bind fun shards => ?_
  refine (refuses_rejectIf _ _).bind fun _ => (refuses_rejectIf _ _).bind fun _ => ?_
  refine refuses_rejectIf_bind.mpr fun hnumbers => ?_
  have hsorted := bne_eq_false_iff_eq.mp hnumbers
  refine (Raises.mapM fun index hindex => ?_).bind fun _ =>
    (refuses_rejectIf _ _).bind fun _ => Raises.ok
  have hmem : index ∈ shards.map (·.1) := by
    rw [← hsorted] at hindex
    exact (List.mergeSort_perm _ _).mem_iff.mp hindex
  obtain ⟨shard, hshard, hnumber⟩ := List.mem_map.mp hmem
  have hsome : (shards.find? fun shard => shard.1 == index).isSome = true :=
    List.find?_isSome.mpr ⟨shard, hshard, beq_iff_eq.mpr hnumber⟩
  exact (refuses_orRaise_raised.mpr hsome).bind fun _ => (refuses_rejectIf _ _).bind fun _ =>
    (refuses_rejectIf _ _).bind fun _ => Raises.ok

theorem refuses_nvfp4Entry (c : Contract) (seen : List MainKey) (entry : Str × Tensor) :
    Refuses (nvfp4Entry c seen entry) := by
  unfold nvfp4Entry
  cases mainKey? entry.1 with
  | none => exact Raises.ok
  | some key =>
    exact (refuses_rejectIf _ _).bind fun _ => (refuses_rejectIf _ _).bind fun _ => Raises.ok

theorem refuses_validateIndexHeaderAgreement (headers : Headers) (weightMap : WeightMap) :
    Refuses (validateIndexHeaderAgreement headers weightMap) := by
  refine (Raises.forM fun claim _ => ?_).bind fun _ => Raises.forM fun _ _ => refuses_rejectIf _ _
  exact (refuses_rejectIf _ _).bind fun _ => (refuses_orReject _ _).bind fun _ =>
    refuses_rejectIf _ _

theorem refuses_mtpShardCounts (c : Contract) (counts : Nat × Nat) (headers : Headers) :
    Refuses (mtpShardCounts c counts headers) := by
  induction headers generalizing counts with
  | nil => exact Raises.ok
  | cons header headers ih =>
    obtain ⟨name, header⟩ := header
    rw [mtpShardCounts]
    split
    · refine Raises.bind ?_ fun _ => ih _
      exact (refuses_validateMtpExpertFamily _ _).bind fun _ =>
        (refuses_validatePleFamily _ _).bind fun _ => (refuses_rejectIf _ _).bind fun _ => Raises.ok
    · exact ih _

/-- What is checked of the index and the headers together only refuses. -/
theorem refuses_validateHeaders (facts : IndexFacts) (report : HeadersReport) (c : Contract) :
    Refuses (validateHeaders facts report c) := by
  refine Raises.bind ?_ fun _ => (refuses_mtpShardCounts _ _ _).bind fun (mtpCount, pleBytes) => ?_
  · exact (refuses_rejectIf _ _).bind fun _ => (refuses_rejectIf _ _).bind fun _ =>
      refuses_rejectIf _ _
  · refine (refuses_rejectIf _ _).bind fun _ => ?_
    refine (refuses_validateIndexHeaderAgreement _ _).bind fun _ => ?_
    refine (Raises.forM fun _ _ => Raises.forM fun _ _ => refuses_rejectIf _ _).bind fun _ => ?_
    refine Raises.bind ?_ fun _ => Raises.ok
    exact (Raises.foldlM (refuses_nvfp4Entry c) []).bind fun _ =>
      (refuses_rejectIf _ _).bind fun _ => Raises.ok

/-! ## The audit -/

/-- `config.get("quantization_config", {})`. -/
def quantizationConfig (config : Fields) : Value :=
  (Value.lookup config "quantization_config").getD (.dict [])

/-- The audit comes through the first document. -/
def PassesConfig (doc : Document) (c : Contract) (config : Fields) : Prop :=
  objectOf doc "config.json" = .ok config ∧ validateConfig config c = .ok ()

/-- The second document has quantization metadata. -/
def PassesQuant (doc : Document) (hfQuant : Fields) : Prop :=
  ∃ quant, objectOf doc "hf_quant_config.json" = .ok quant ∧
    (Value.field quant "quantization").asDict? = some hfQuant

/-- The audit comes through the weight index. -/
def PassesIndex (doc : Document) (c : Contract) : Prop :=
  ∃ index facts, readJson doc "model.safetensors.index.json" = .ok index ∧
    deriveIndexFacts index c = .ok facts

/-- Every text that the audit gets to can be decoded, and `quantization_config` is a dictionary if
it gets there. -/
structure Directory.Readable (dir : Directory) (c : Contract)
    (configDoc quantDoc indexDoc : Document) : Prop where
  config : configDoc.Decodes
  quant : ∀ config, PassesConfig configDoc c config → quantDoc.Decodes
  quantization : ∀ config hfQuant, PassesConfig configDoc c config → PassesQuant quantDoc hfQuant →
    (quantizationConfig config).asDict?.isSome = true
  index : ∀ config hfQuant, PassesConfig configDoc c config → PassesQuant quantDoc hfQuant →
    validateQuantMetadata (quantizationConfig config) hfQuant c = .ok () → indexDoc.Decodes
  headers : ∀ config hfQuant, PassesConfig configDoc c config → PassesQuant quantDoc hfQuant →
    validateQuantMetadata (quantizationConfig config) hfQuant c = .ok () →
    PassesIndex indexDoc c → dir.HeadersDecode

/-- The audit of the headers and what comes after it. -/
theorem refuses_auditCheckpoint {dir : Directory} {c : Contract}
    {configDoc quantDoc indexDoc : Document} (hconfig : dir.config = some configDoc)
    (hquant : dir.quant = some quantDoc) (hindex : dir.index = some indexDoc) :
    Refuses (auditCheckpoint dir c) ↔ dir.Readable c configDoc quantDoc indexDoc := by
  simp only [auditCheckpoint, documentOf, hconfig, hquant, hindex, orReject_ok, Option.some.injEq,
    forall_eq', refuses_bind, refuses_orReject, refuses_objectOf, refuses_validateConfig,
    refuses_validateQuantMetadata, refuses_readJson, refuses_deriveIndexFacts,
    refuses_auditSafetensorsHeaders, refuses_validateHeaders, refuses_pure, true_and, and_true,
    implies_true]
  constructor
  · rintro ⟨hdecodes, h⟩
    refine ⟨hdecodes, ?_, ?_, ?_, ?_⟩
    · rintro config ⟨hobject, hvalid⟩
      exact (h config hobject () hvalid).1
    · rintro config hfQuant ⟨hobject, hvalid⟩ ⟨quant, hquantObject, hdict⟩
      exact ((h config hobject () hvalid).2 quant hquantObject hfQuant hdict).1
    · rintro config hfQuant ⟨hobject, hvalid⟩ ⟨quant, hquantObject, hdict⟩ hmetadata
      exact (((h config hobject () hvalid).2 quant hquantObject hfQuant hdict).2 () hmetadata).1
    · rintro config hfQuant ⟨hobject, hvalid⟩ ⟨quant, hquantObject, hdict⟩ hmetadata
        ⟨index, facts, hread, hfacts⟩
      exact (((h config hobject () hvalid).2 quant hquantObject hfQuant hdict).2 () hmetadata).2
        index hread facts hfacts
  · intro h
    refine ⟨h.config, fun config hobject _ hvalid => ?_⟩
    have hpasses : PassesConfig configDoc c config := ⟨hobject, hvalid⟩
    refine ⟨h.quant config hpasses, fun quant hquantObject hfQuant hdict => ?_⟩
    have hquants : PassesQuant quantDoc hfQuant := ⟨quant, hquantObject, hdict⟩
    refine ⟨h.quantization config hfQuant hpasses hquants, fun _ hmetadata => ?_⟩
    refine ⟨h.index config hfQuant hpasses hquants hmetadata, fun index hread facts hfacts => ?_⟩
    exact h.headers config hfQuant hpasses hquants hmetadata ⟨index, facts, hread, hfacts⟩

theorem refuses_iff {α : Type} {x : Check α} :
    Refuses x ↔ (∃ a, x = .ok a) ∨ ∃ message, x = .error (.audit message) := by
  cases x with
  | ok a => exact ⟨fun _ => .inl ⟨a, rfl⟩, fun _ => Raises.ok⟩
  | error e =>
    cases e with
    | audit message => exact ⟨fun _ => .inr ⟨message, rfl⟩, fun _ => refuses_audit message⟩
    | raised exception =>
      constructor
      · intro h
        exact absurd (h _ rfl) id
      · intro h
        rcases h with ⟨_, h⟩ | ⟨_, h⟩
        · cases h
        · cases h

/-- The audit ends with its findings or with an `AuditError` exactly when every text that it gets to
can be decoded and `quantization_config` is a dictionary if it gets there.  With a document missing
it gets to none. -/
theorem audit_handled_iff (dir : Directory) (c : Contract) :
    ((∃ findings, auditCheckpoint dir c = .ok findings) ∨
        ∃ message, auditCheckpoint dir c = .error (.audit message)) ↔
      ∀ configDoc quantDoc indexDoc, dir.config = some configDoc → dir.quant = some quantDoc →
        dir.index = some indexDoc → dir.Readable c configDoc quantDoc indexDoc := by
  rw [← refuses_iff]
  constructor
  · intro h configDoc quantDoc indexDoc hconfig hquant hindex
    exact (refuses_auditCheckpoint hconfig hquant hindex).mp h
  · intro h
    rcases hconfig : dir.config with _ | configDoc
    · rw [auditCheckpoint, hconfig]
      exact refuses_audit _
    rcases hquant : dir.quant with _ | quantDoc
    · rw [auditCheckpoint, hconfig, hquant]
      exact refuses_audit _
    rcases hindex : dir.index with _ | indexDoc
    · rw [auditCheckpoint, hconfig, hquant, hindex]
      exact refuses_audit _
    exact (refuses_auditCheckpoint hconfig hquant hindex).mpr (h _ _ _ hconfig hquant hindex)

/-- A document that is there but is not text. -/
def notText : Document := ⟨false, true, false, 0, none⟩

def notTextDirectory : Directory :=
  ⟨str "/models", 0, 0, 0, 0, some notText, some notText, some notText, [], List.nodup_nil⟩

/-- A configuration that is not text ends the audit in another exception. -/
theorem audit_raises :
    ¬ ∀ dir, (∃ findings, auditCheckpoint dir trustedModelContract = .ok findings) ∨
      ∃ message, auditCheckpoint dir trustedModelContract = .error (.audit message) := by
  intro h
  have hraised : auditCheckpoint notTextDirectory trustedModelContract =
      .error (.raised "UnicodeDecodeError") := rfl
  rcases h notTextDirectory with ⟨findings, hok⟩ | ⟨message, herror⟩
  · rw [hraised] at hok
    cases hok
  · rw [hraised] at herror
    cases herror

end Audit
end FlashNext
