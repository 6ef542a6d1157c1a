import FlashNext.Audit.Family
import FlashNext.Audit.Names
import Mathlib.Data.List.Perm.Subperm

/-!
# Complete families

A family that passes has every tensor that the contract asks for.  No check goes through what is
asked for: every tensor met is one of them, none is met twice, and there are as many.
-/

namespace FlashNext
namespace Audit

open Py (Str str)

/-- Distinct values from among as few places leave no place out. -/
theorem mem_of_length_le {α : Type} {values places : List α} (hvalues : values.Nodup)
    (hsubset : ∀ value ∈ values, value ∈ places) (hlength : places.length ≤ values.length)
    {place : α} (hplace : place ∈ places) : place ∈ values := by
  have hsub : values.Subperm places := List.subperm_of_subset hvalues hsubset
  exact (hsub.perm_of_length_le hlength).mem_iff.mpr hplace

/-! ## The tensors asked for -/

section Keys

variable {Kind : Type} {layers experts : Nat} {kinds : List Kind}

def familyKeys (layers experts : Nat) (kinds : List Kind) : List (ExpertKey Kind) :=
  (List.range layers).flatMap fun layer => (List.range experts).flatMap fun expert =>
    Projection.all.flatMap fun projection => kinds.map fun kind =>
      ⟨layer, expert, projection, kind⟩

theorem mem_familyKeys {key : ExpertKey Kind} :
    key ∈ familyKeys layers experts kinds ↔
      key.layer < layers ∧ key.expert < experts ∧ key.kind ∈ kinds := by
  simp only [familyKeys, List.mem_flatMap, List.mem_range, List.mem_map]
  constructor
  · rintro ⟨layer, hlayer, expert, hexpert, projection, _, kind, hkind, heq⟩
    rw [← heq]
    exact ⟨hlayer, hexpert, hkind⟩
  · rintro ⟨hlayer, hexpert, hkind⟩
    exact ⟨key.layer, hlayer, key.expert, hexpert, key.projection, Projection.mem_all _, key.kind,
      hkind, rfl⟩

theorem length_familyKeys : (familyKeys layers experts kinds).length =
    layers * experts * Projection.all.length * kinds.length := by
  simp only [familyKeys, List.length_flatMap, List.length_map, List.map_const', List.sum_replicate_nat,
    List.length_range, Nat.mul_assoc]

end Keys

/-! ## The main experts -/

/-- The names of main experts' tensors in the headers. -/
def mainNames (headers : Headers) : List Str :=
  ((headers.flatMap fun header => header.2).map (·.1)).filter fun name =>
    (fullMatches? mainExpertKey name).isSome

/-- The tensor is one that the contract asks for. -/
structure MainAdmitted (c : Contract) (key : MainKey) (entry : Str × Tensor) : Prop where
  canonical : entry.1 = mainName key
  layer : key.layer < c.numHiddenLayers
  expert : key.expert < c.nvfp4.experts
  contracted : (entry.2.dtype, entry.2.shape) = mainContracted c.nvfp4 key

/-- What one round does with the tensors seen. -/
theorem nvfp4Entry_ok {c : Contract} {seen seen' : List MainKey} {entry : Str × Tensor}
    (h : nvfp4Entry c seen entry = .ok seen') :
    seen' = seen ++ (mainKey? entry.1).toList ∧
      ∀ key, mainKey? entry.1 = some key → key ∉ seen ∧ MainAdmitted c key entry := by
  unfold nvfp4Entry at h
  cases hkey : mainKey? entry.1 with
  | none =>
    rw [hkey] at h
    obtain rfl := Except.ok.inj h
    refine ⟨(List.append_nil _).symm, ?_⟩
    intro key hsome
    cases hsome
  | some key =>
    rw [hkey] at h
    simp only [Effect.bind_ok, rejectIf_ok, Effect.pure_ok, Bool.or_eq_false_iff,
      bne_eq_false_iff_eq, decide_eq_false_iff_not, Nat.not_le] at h
    obtain ⟨_, ⟨⟨⟨hname, hnew⟩, hlayer⟩, hexpert⟩, _, ⟨hdtype, hshape⟩, rfl⟩ := h
    refine ⟨rfl, ?_⟩
    intro key' hsome
    obtain rfl := Option.some.inj hsome
    refine ⟨?_, hname, hlayer, hexpert, by rw [hdtype, hshape]⟩
    intro hmem
    rw [List.contains_iff_mem.mpr hmem] at hnew
    cases hnew

/-- The tensors seen in a run over the entries are all of them, each once. -/
theorem nvfp4Entries_ok {c : Contract} {entries : List (Str × Tensor)} {seen seen' : List MainKey}
    (hseen : seen.Nodup) (h : entries.foldlM (nvfp4Entry c) seen = .ok seen') :
    seen' = seen ++ entries.filterMap (fun entry => mainKey? entry.1) ∧ seen'.Nodup ∧
      ∀ entry ∈ entries, ∀ key, mainKey? entry.1 = some key → MainAdmitted c key entry := by
  induction entries generalizing seen with
  | nil =>
    obtain rfl := Except.ok.inj h
    exact ⟨(List.append_nil _).symm, hseen, fun entry hentry => absurd hentry List.not_mem_nil⟩
  | cons entry entries ih =>
    rw [List.foldlM_cons, Effect.bind_ok] at h
    obtain ⟨next, hentry, h⟩ := h
    obtain ⟨hnext, hadmitted⟩ := nvfp4Entry_ok hentry
    have hnodup : next.Nodup := by
      rw [hnext]
      cases hkey : mainKey? entry.1 with
      | none => rwa [Option.toList_none, List.append_nil]
      | some key =>
        rw [Option.toList_some, ← List.concat_eq_append]
        exact hseen.concat (hadmitted key hkey).1
    obtain ⟨heq, hall, hrest⟩ := ih hnodup h
    refine ⟨?_, hall, ?_⟩
    · rw [heq, hnext, List.append_assoc, List.filterMap_cons]
      cases mainKey? entry.1 with
      | none => rfl
      | some key => rfl
    · rw [List.forall_mem_cons]
      exact ⟨fun key hkey => (hadmitted key hkey).2, hrest⟩

theorem mainName_inj {key key' : MainKey} (h : mainName key = mainName key') : key = key' := by
  have hsome := congrArg mainKey? h
  rw [mainKey?_mainName, mainKey?_mainName] at hsome
  exact Option.some.inj hsome

/-- The names that match are the canonical ones of the tensors seen. -/
theorem filter_mainKey {c : Contract} {entries : List (Str × Tensor)}
    (h : ∀ entry ∈ entries, ∀ key, mainKey? entry.1 = some key → MainAdmitted c key entry) :
    ((entries.map (·.1)).filter fun name => (fullMatches? mainExpertKey name).isSome) =
      (entries.filterMap fun entry => mainKey? entry.1).map mainName := by
  induction entries with
  | nil => rfl
  | cons entry entries ih =>
    obtain ⟨hentry, hentries⟩ := List.forall_mem_cons.mp h
    rw [List.map_cons, List.filter_cons, ← mainKey?_isSome, List.filterMap_cons, ih hentries]
    cases hkey : mainKey? entry.1 with
    | none => rfl
    | some key =>
      rw [Option.isSome_some, if_pos rfl, (hentry key hkey).canonical]
      rfl

/-- The main experts of headers that pass. -/
theorem validateNvfp4Families_ok {headers : Headers} {c : Contract} {facts : Nvfp4Facts}
    (h : validateNvfp4Families headers c = .ok facts) :
    (mainNames headers).Nodup ∧
      (∀ name, name ∈ mainNames headers ↔ ∃ key : MainKey, key.layer < c.numHiddenLayers ∧
        key.expert < c.nvfp4.experts ∧ name = mainName key) ∧
      ∀ header ∈ headers, ∀ entry ∈ header.2, ∀ key, entry.1 = mainName key →
        (entry.2.dtype, entry.2.shape) = mainContracted c.nvfp4 key := by
  simp only [validateNvfp4Families, Effect.bind_ok, rejectIf_ok, bne_eq_false_iff_eq] at h
  obtain ⟨seen, hseen, _, hcount, _⟩ := h
  obtain ⟨heq, hnodup, hadmitted⟩ := nvfp4Entries_ok List.nodup_nil hseen
  rw [List.nil_append] at heq
  have hnames : mainNames headers = seen.map mainName := by
    rw [mainNames, filter_mainKey hadmitted, heq]
  have hrange : ∀ key ∈ seen, key ∈ familyKeys c.numHiddenLayers c.nvfp4.experts MainKind.all := by
    intro key hkey
    rw [heq] at hkey
    obtain ⟨entry, hentry, hsome⟩ := List.mem_filterMap.mp hkey
    have hkeys := hadmitted entry hentry key hsome
    exact mem_familyKeys.mpr ⟨hkeys.layer, hkeys.expert, MainKind.mem_all _⟩
  have hlength : (familyKeys c.numHiddenLayers c.nvfp4.experts MainKind.all).length ≤
      seen.length := by
    rw [length_familyKeys, hcount]
    rfl
  refine ⟨?_, ?_, ?_⟩
  · rw [hnames]
    exact hnodup.map fun _ _ => mainName_inj
  · intro name
    rw [hnames, List.mem_map]
    constructor
    · rintro ⟨key, hkey, hname⟩
      obtain ⟨hlayer, hexpert, _⟩ := mem_familyKeys.mp (hrange key hkey)
      exact ⟨key, hlayer, hexpert, hname.symm⟩
    · rintro ⟨key, hlayer, hexpert, hname⟩
      have hmem := mem_familyKeys.mpr ⟨hlayer, hexpert, MainKind.mem_all key.kind⟩
      exact ⟨key, mem_of_length_le hnodup hrange hlength hmem, hname.symm⟩
  · intro header hheader entry hentry key hname
    have hsome : mainKey? entry.1 = some key := by rw [hname, mainKey?_mainName]
    exact (hadmitted entry (List.mem_flatMap.mpr ⟨header, hheader, hentry⟩) key hsome).contracted

/-! ## The MTP experts -/

/-- The dtype and the shape that the contract has for an MTP tensor. -/
def MtpContracted (mtp : MtpContract) (key : MtpKey) (tensor : Tensor) : Prop :=
  match key.kind with
  | .weight => tensor.dtype = mtp.weightDtype ∧ tensor.shape = mtp.shape key.projection
  | .weightScaleInv =>
    tensor.dtype ∈ mtp.scaleDtypes ∧ tensor.shape = mtp.scaleGrid key.projection

/-- The names of MTP experts' tensors in the header. -/
def mtpNames (header : Header) : List Str :=
  (header.map (·.1)).filter fun name => (matches? mtpExpertKey name).isSome

theorem mtpAdmits_ok {mtp : MtpContract} {key : MtpKey} {tensor : Tensor} {u : Unit}
    (h : mtpAdmits mtp key tensor = .ok u) : MtpContracted mtp key tensor := by
  unfold mtpAdmits at h
  unfold MtpContracted
  cases hkind : key.kind with
  | weight =>
    rw [hkind] at h
    simp only [Effect.bind_ok, rejectIf_ok, bne_eq_false_iff_eq] at h
    obtain ⟨_, hdtype, hshape⟩ := h
    exact ⟨hdtype, hshape⟩
  | weightScaleInv =>
    rw [hkind] at h
    simp only [Effect.bind_ok, rejectIf_ok, Bool.not_eq_false', bne_eq_false_iff_eq,
      List.contains_iff_mem] at h
    obtain ⟨_, hdtype, hshape⟩ := h
    exact ⟨hdtype, hshape⟩

/-- A round gives an entry for a name that matches, and it is one that the contract asks for. -/
theorem mtpEntry_ok {mtp : MtpContract} {entry : Str × Tensor} {found : Option MtpEntry}
    (h : mtpEntry mtp entry = .ok found) {key : MtpKey} (hkey : mtpKey? entry.1 = some key) :
    (∃ b, found = some b ∧ b.name = entry.1) ∧ entry.1 = mtpName key ∧ key.layer = 0 ∧
      key.expert < mtp.experts ∧ MtpContracted mtp key entry.2 := by
  rw [mtpEntry, hkey] at h
  simp only [Effect.bind_ok, rejectIf_ok, Effect.pure_ok, bne_eq_false_iff_eq,
    decide_eq_false_iff_not, Nat.not_le] at h
  obtain ⟨_, hname, _, hlayer, _, hexpert, _, hadmits, rfl⟩ := h
  exact ⟨⟨_, rfl, rfl⟩, hname, hlayer, hexpert, mtpAdmits_ok hadmits⟩

theorem mtpEntry_some {mtp : MtpContract} {entry : Str × Tensor} {b : MtpEntry}
    (h : mtpEntry mtp entry = .ok (some b)) :
    ∃ key, mtpKey? entry.1 = some key ∧ b.name = entry.1 := by
  cases hkey : mtpKey? entry.1 with
  | none =>
    rw [mtpEntry, hkey] at h
    cases h
  | some key =>
    obtain ⟨b', hb, hname⟩ := (mtpEntry_ok h hkey).1
    obtain rfl := Option.some.inj hb
    exact ⟨key, rfl, hname⟩

/-- The MTP experts of a header that passes. -/
theorem validateMtpExpertFamily_ok {header : Header} {c : Contract} {count : Nat}
    (h : validateMtpExpertFamily header c = .ok count) :
    (∀ name, name ∈ mtpNames header ↔
        ∃ key : MtpKey, key.layer = 0 ∧ key.expert < c.mtp.experts ∧ name = mtpName key) ∧
      ∀ entry ∈ header, ∀ key, entry.1 = mtpName key → MtpContracted c.mtp key entry.2 := by
  simp only [validateMtpExpertFamily, Effect.bind_ok, rejectIf_ok, bne_eq_false_iff_eq] at h
  obtain ⟨entries, hentries, _, hcount, _⟩ := h
  obtain ⟨hall, hback⟩ := Effect.collect_ok hentries
  have hkeys : ∀ entry ∈ header, ∀ key, mtpKey? entry.1 = some key →
      entry.1 ∈ (entries.map MtpEntry.name).dedup ∧ entry.1 = mtpName key ∧ key.layer = 0 ∧
        key.expert < c.mtp.experts ∧ MtpContracted c.mtp key entry.2 := by
    intro entry hentry key hkey
    obtain ⟨found, hfound, hmem⟩ := hall entry hentry
    obtain ⟨⟨b, hb, hname⟩, hrest⟩ := mtpEntry_ok hfound hkey
    refine ⟨?_, hrest⟩
    rw [List.mem_dedup, ← hname]
    exact List.mem_map_of_mem (hmem b hb)
  have hmatched : ∀ name ∈ (entries.map MtpEntry.name).dedup, ∃ key : MtpKey,
      name ∈ header.map (·.1) ∧ name = mtpName key ∧ key.layer = 0 ∧
        key.expert < c.mtp.experts := by
    intro name hname
    obtain ⟨b, hb, rfl⟩ := List.mem_map.mp (List.mem_dedup.mp hname)
    obtain ⟨entry, hentry, hsome⟩ := hback b hb
    obtain ⟨key, hkey, heq⟩ := mtpEntry_some hsome
    obtain ⟨_, hcanonical, hlayer, hexpert, _⟩ := hkeys entry hentry key hkey
    rw [heq]
    exact ⟨key, List.mem_map_of_mem hentry, hcanonical, hlayer, hexpert⟩
  have hplaces : ∀ name ∈ (entries.map MtpEntry.name).dedup,
      name ∈ (familyKeys 1 c.mtp.experts MtpKind.all).map mtpName := by
    intro name hname
    obtain ⟨key, _, hcanonical, hlayer, hexpert⟩ := hmatched name hname
    have hkey : key ∈ familyKeys 1 c.mtp.experts MtpKind.all :=
      mem_familyKeys.mpr ⟨by omega, hexpert, MtpKind.mem_all _⟩
    rw [hcanonical]
    exact List.mem_map_of_mem hkey
  have hlength : ((familyKeys 1 c.mtp.experts MtpKind.all).map mtpName).length ≤
      (entries.map MtpEntry.name).dedup.length := by
    rw [List.length_map, length_familyKeys, hcount, Nat.one_mul]
    rfl
  constructor
  · intro name
    rw [mtpNames, List.mem_filter]
    constructor
    · rintro ⟨hname, hmatch⟩
      obtain ⟨entry, hentry, rfl⟩ := List.mem_map.mp hname
      rw [← mtpKey?_isSome] at hmatch
      obtain ⟨key, hkey⟩ := Option.isSome_iff_exists.mp hmatch
      obtain ⟨_, hcanonical, hlayer, hexpert, _⟩ := hkeys entry hentry key hkey
      exact ⟨key, hlayer, hexpert, hcanonical⟩
    · rintro ⟨key, hlayer, hexpert, hcanonical⟩
      have hkey : key ∈ familyKeys 1 c.mtp.experts MtpKind.all :=
        mem_familyKeys.mpr ⟨by omega, hexpert, MtpKind.mem_all _⟩
      have hmem : name ∈ (entries.map MtpEntry.name).dedup := by
        rw [hcanonical]
        exact mem_of_length_le (List.nodup_dedup _) hplaces hlength (List.mem_map_of_mem hkey)
      obtain ⟨_, hheader, _⟩ := hmatched name hmem
      refine ⟨hheader, ?_⟩
      rw [hcanonical, ← mtpKey?_isSome, mtpKey?_mtpName]
      rfl
  · intro entry hentry key hname
    have hkey : mtpKey? entry.1 = some key := by rw [hname, mtpKey?_mtpName]
    exact (hkeys entry hentry key hkey).2.2.2.2

/-! ## The PLE shards -/

/-- The names of PLE shards in the header. -/
def pleNames (header : Header) : List Str :=
  (header.map (·.1)).filter fun name => (matches? pleShardKey name).isSome

/-- A round gives the number of a shard for a name that matches. -/
theorem pleEntry_ok {ple : PleContract} {entry : Str × Tensor} {found : Option (Nat × Tensor)}
    (h : pleEntry ple entry = .ok found) (hmatch : (matches? pleShardKey entry.1).isSome = true) :
    ∃ index, found = some (index, entry.2) ∧ entry.1 = ple.shardName index := by
  obtain ⟨gs, hgs⟩ := Option.isSome_iff_exists.mp hmatch
  obtain ⟨digits, rfl, _⟩ := fits_pleShardKey (Text.matchEnd?_eq_some hgs).1
  rw [pleEntry, hgs] at h
  simp only [Effect.bind_ok, rejectIf_ok, Effect.pure_ok, bne_eq_false_iff_eq] at h
  obtain ⟨_, hname, rfl⟩ := h
  exact ⟨intOf digits, rfl, hname⟩

theorem pleEntry_some {ple : PleContract} {entry : Str × Tensor} {shard : Nat × Tensor}
    (h : pleEntry ple entry = .ok (some shard)) : entry.1 = ple.shardName shard.1 := by
  cases hgs : matches? pleShardKey entry.1 with
  | none =>
    rw [pleEntry, hgs] at h
    cases h
  | some gs =>
    obtain ⟨index, hfound, hname⟩ := pleEntry_ok h (by rw [hgs]; rfl)
    obtain rfl := Option.some.inj hfound
    exact hname

/-- The PLE shards of a header that passes, and the bytes that are reported. -/
theorem validatePleFamily_ok {header : Header} {c : Contract} {bytes : Nat}
    (hshardName : c.ple.shardName = pleShardName)
    (h : validatePleFamily header c = .ok bytes) :
    (∀ name, name ∈ pleNames header ↔ ∃ index < c.ple.shardCount, name = pleShardName index) ∧
      bytes = c.ple.shardCount * c.ple.shardShape.prod := by
  simp only [validatePleFamily, Effect.bind_ok, rejectIf_ok, bne_eq_false_iff_eq,
    Effect.pure_ok] at h
  obtain ⟨_, _, shards, hshards, _, _, _, _, _, hsorted, _, _, _, hbytes, rfl⟩ := h
  obtain ⟨hall, hback⟩ := Effect.collect_ok hshards
  have hindices : (shards.map (·.1)).Perm (List.range c.ple.shardCount) := by
    rw [← hsorted]
    exact (List.mergeSort_perm _ _).symm
  refine ⟨?_, by rw [hbytes, Nat.mul_comm]⟩
  intro name
  rw [pleNames, List.mem_filter]
  constructor
  · rintro ⟨hname, hmatch⟩
    obtain ⟨entry, hentry, rfl⟩ := List.mem_map.mp hname
    obtain ⟨found, hfound, hmem⟩ := hall entry hentry
    obtain ⟨index, hsome, hcanonical⟩ := pleEntry_ok hfound hmatch
    have hindex : index ∈ shards.map (·.1) := List.mem_map_of_mem (hmem _ hsome)
    rw [hindices.mem_iff, List.mem_range] at hindex
    exact ⟨index, hindex, by rw [hcanonical, hshardName]⟩
  · rintro ⟨index, hindex, hname⟩
    rw [← List.mem_range, ← hindices.mem_iff] at hindex
    obtain ⟨shard, hshard, rfl⟩ := List.mem_map.mp hindex
    obtain ⟨entry, hentry, hsome⟩ := hback shard hshard
    rw [hname, matches?_pleShardName]
    refine ⟨?_, rfl⟩
    rw [← hshardName, ← pleEntry_some hsome]
    exact List.mem_map_of_mem hentry

/-! ## All families -/

/-- Headers that pass carry each family whole: one canonical name for each tensor that the contract
asks for, with the dtype and the shape it asks for, and no other name that matches. -/
theorem families_complete (c : Contract) (hshardName : c.ple.shardName = pleShardName)
    (headers : Headers) (header : Header) :
    (∀ facts, validateNvfp4Families headers c = .ok facts →
      (mainNames headers).Nodup ∧
        (∀ name, name ∈ mainNames headers ↔ ∃ key : MainKey, key.layer < c.numHiddenLayers ∧
          key.expert < c.nvfp4.experts ∧ name = mainName key) ∧
        ∀ header ∈ headers, ∀ entry ∈ header.2, ∀ key, entry.1 = mainName key →
          (entry.2.dtype, entry.2.shape) = mainContracted c.nvfp4 key) ∧
    (∀ count, validateMtpExpertFamily header c = .ok count →
      (∀ name, name ∈ mtpNames header ↔
          ∃ key : MtpKey, key.layer = 0 ∧ key.expert < c.mtp.experts ∧ name = mtpName key) ∧
        ∀ entry ∈ header, ∀ key, entry.1 = mtpName key → MtpContracted c.mtp key entry.2) ∧
    ∀ bytes, validatePleFamily header c = .ok bytes →
      (∀ name, name ∈ pleNames header ↔ ∃ index < c.ple.shardCount, name = pleShardName index) ∧
        bytes = c.ple.shardCount * c.ple.shardShape.prod := by
  refine ⟨?_, ?_, ?_⟩
  · intro facts h
    exact validateNvfp4Families_ok h
  · intro count h
    exact validateMtpExpertFamily_ok h
  · intro bytes h
    exact validatePleFamily_ok hshardName h

/-- A tensor with its bytes at the front of the data. -/
def frontTensor (dtype : Dtype) (shape : List Nat) : Tensor :=
  ⟨dtype, shape, 0, shape.prod * dtype.bytes, Nat.zero_le _, Nat.sub_zero _⟩

/-- The contract with one layer, one expert and one PLE shard. -/
def oneExpert : Contract :=
  { trustedModelContract with
    numHiddenLayers := 1
    mtp := { trustedModelContract.mtp with experts := 1 }
    ple := { trustedModelContract.ple with shardCount := 1 }
    nvfp4 := { trustedModelContract.nvfp4 with experts := 1 } }

def oneExpertMain : Header :=
  (familyKeys 1 1 MainKind.all).map fun key =>
    (mainName key, frontTensor (mainContracted oneExpert.nvfp4 key).1
      (mainContracted oneExpert.nvfp4 key).2)

def oneExpertMtp : Header :=
  (familyKeys 1 1 MtpKind.all).map fun key =>
    (mtpName key, match key.kind with
      | .weight => frontTensor .f8e4m3 (oneExpert.mtp.shape key.projection)
      | .weightScaleInv => frontTensor .bf16 (oneExpert.mtp.scaleGrid key.projection))

def onePleShard : Header :=
  [(pleScaleName, frontTensor .bf16 [1]), (pleShardName 0, frontTensor .f8e4m3 [2500012, 160])]

theorem validateNvfp4Families_oneExpert :
    (validateNvfp4Families [(str "m", oneExpertMain)] oneExpert).isOk = true := by decide +kernel

theorem validateMtpExpertFamily_oneExpert :
    (validateMtpExpertFamily oneExpertMtp oneExpert).isOk = true := by decide +kernel

theorem validatePleFamily_onePleShard :
    validatePleFamily onePleShard oneExpert = .ok 400001920 := by
  have hsorted : (([(0, frontTensor .f8e4m3 [2500012, 160])].map (·.1)).mergeSort
      fun a b => decide (a ≤ b)) = List.range 1 := List.mergeSort_singleton 0
  simp only [validatePleFamily, Effect.bind_ok, rejectIf_ok, Effect.pure_ok, bne_eq_false_iff_eq]
  exact ⟨(), rfl, [(0, frontTensor .f8e4m3 [2500012, 160])], rfl, (), rfl, (), rfl, (), hsorted,
    [400001920], rfl, (), rfl, rfl⟩

theorem exists_ok_of_isOk {α : Type} {x : Check α} (h : x.isOk = true) : ∃ a, x = .ok a := by
  cases x with
  | error e => cases h
  | ok a => exact ⟨a, rfl⟩

theorem families_complete_one :
    (mainNames [(str "m", oneExpertMain)]).Nodup ∧
      mtpName ⟨0, 0, .upProj, .weightScaleInv⟩ ∈ mtpNames oneExpertMtp ∧
      pleShardName 0 ∈ pleNames onePleShard := by
  have hall := families_complete oneExpert rfl [(str "m", oneExpertMain)]
  obtain ⟨facts, hmain⟩ := exists_ok_of_isOk validateNvfp4Families_oneExpert
  obtain ⟨count, hmtp⟩ := exists_ok_of_isOk validateMtpExpertFamily_oneExpert
  refine ⟨((hall []).1 facts hmain).1, ?_, ?_⟩
  · exact (((hall oneExpertMtp).2.1 count hmtp).1 _).mpr
      ⟨⟨0, 0, .upProj, .weightScaleInv⟩, rfl, Nat.one_pos, rfl⟩
  · exact (((hall onePleShard).2.2 _ validatePleFamily_onePleShard).1 _).mpr
      ⟨0, Nat.one_pos, rfl⟩

end Audit
end FlashNext
