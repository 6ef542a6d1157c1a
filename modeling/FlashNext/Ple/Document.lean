import FlashNext.Ple.Build

/-!
# The document of a plan

`Plan.Checked` is all that the validator asks of a plan.  What the validator lets through has it
(`validatePlan_checked`), and the document of a plan that has it is let through and read back as
that plan (`validatePlan_document`).
-/

namespace FlashNext
namespace Ple

open Effect
open Py (Str Value str)

/-! ## Scalars -/

/-- What `_check_name` asks of a string. -/
def safeName (name : Str) : Bool :=
  !(name = [] || nameMax < name.length || 47 ∈ name || name ∈ [str ".", str ".."]) &&
    name.all isNameChar

section

variable {interp : Interp} {what : Str}

theorem checkName_ok {v : Value} {name : Str} :
    checkName interp v what = .ok name ↔ v = .str name ∧ safeName name = true := by
  simp only [checkName, bind_ok, orRaise_ok, reject_ok, pure_ok]
  constructor
  · rintro ⟨s, hs, _, hshape, _, hchars, h⟩
    subst h
    rw [Bool.not_eq_false'] at hchars
    refine ⟨Value.asStr?_eq_some.mp hs, ?_⟩
    rw [safeName, hshape, hchars]
    rfl
  · rintro ⟨hv, hsafe⟩
    rw [safeName, Bool.and_eq_true, Bool.not_eq_true'] at hsafe
    refine ⟨name, Value.asStr?_eq_some.mpr hv, (), hsafe.1, (), ?_, rfl⟩
    rw [hsafe.2]
    rfl

theorem checkIndex_ok {v : Value} {n : Nat} : checkIndex v what = .ok n ↔ v = .int n := by
  simp only [checkIndex, bind_ok, orRaise_ok, reject_ok, pure_ok, Value.asInt?_eq_some]
  constructor
  · rintro ⟨k, hk, _, hneg, h⟩
    rw [decide_eq_false_iff_not] at hneg
    rw [hk, ← h, Int.toNat_of_nonneg (by omega)]
  · intro hv
    refine ⟨n, hv, (), ?_, Int.toNat_natCast n⟩
    rw [decide_eq_false_iff_not]
    omega

/-- The text of a hash of this length. -/
def HexOf (n : Nat) (s : Str) : Prop := isHexText n (.str s) = true

theorem isHexText_iff {n : Nat} {v : Value} :
    isHexText n v = true ↔ v = .str (v.asStr?.getD []) ∧ HexOf n (v.asStr?.getD []) := by
  unfold HexOf
  cases v with
  | str s => exact ⟨fun h => ⟨rfl, h⟩, fun h => h.2⟩
  | _ => exact ⟨fun h => Bool.noConfusion h, fun h => Value.noConfusion h.1⟩

theorem checkHash_ok {v : Value} {s : Str} :
    checkHash v what = .ok s ↔ v = .str s ∧ HexOf 64 s := by
  simp only [checkHash, bind_ok, reject_ok, pure_ok, Bool.not_eq_false']
  constructor
  · rintro ⟨_, hhex, h⟩
    subst h
    exact isHexText_iff.mp hhex
  · rintro ⟨hv, hhex⟩
    subst hv
    exact ⟨(), hhex, rfl⟩

theorem requireKeys_ok {v : Value} {keys : List String} {fs : Fields}
    (h : requireKeys interp v keys what = .ok fs) : v = .dict fs := by
  simp only [requireKeys, bind_ok, orRaise_ok, pure_ok] at h
  obtain ⟨gs, hgs, _, -, rfl⟩ := h
  exact Value.asDict?_eq_some.mp hgs

end

/-! ## Parts -/

structure Source.Checked (source : Source) : Prop where
  name : safeName source.name = true
  sha256 : HexOf 64 source.sha256
  headerSha256 : HexOf 64 source.headerSha256
  dataStart_ge : 8 ≤ source.dataStart
  dataStart_le : source.dataStart ≤ 8 + maxHeaderBytes
  dataStart_lt : source.dataStart < source.size
  size_le : source.size ≤ maxTableBytes

structure PrefixChecked (tensorPrefix : Str) : Prop where
  ne_nil : tensorPrefix ≠ []
  parts : ∀ part ∈ tensorPrefix.splitOn 46, safeName part = true

/-- A segment under its name, inside the source. -/
structure Segment.Checked (source : Source) (name : Str) (size : Nat) (segment : Segment) :
    Prop where
  name_eq : segment.name = name
  size_eq : segment.size = size
  start : source.dataStart ≤ segment.offset
  stop : segment.offset + size ≤ source.size
  sha256 : HexOf 64 segment.sha256

structure Shard.Checked (source : Source) (tensorPrefix : Str) (shardBytes i : Nat)
    (shard : Shard) : Prop where
  id_eq : shard.id = i
  segment : shard.toSegment.Checked source (shardTensorName tensorPrefix i) shardBytes

structure Table.Checked (totalRows rowWidth : Nat) (table : Table) : Prop where
  name_eq : table.name = tableFilename totalRows rowWidth (totalRows * rowWidth)
  rows_eq : table.rows = totalRows
  width_eq : table.width = rowWidth
  size_eq : table.size = totalRows * rowWidth
  sha256 : HexOf 64 table.sha256

/-- All that the validator asks of a plan. -/
structure Plan.Checked (plan : Plan) : Prop where
  revision : HexOf revisionLen plan.revision
  source : plan.source.Checked
  tensorPrefix : PrefixChecked plan.tensorPrefix
  shardCount : 1 ≤ plan.shardCount ∧ plan.shardCount ≤ maxShards
  rowsPerShard : 1 ≤ plan.rowsPerShard ∧ plan.rowsPerShard ≤ maxRowsPerShard
  rowWidth : 1 ≤ plan.rowWidth ∧ plan.rowWidth ≤ maxWidth
  geometry : plan.shardCount * plan.rowsPerShard ≤ maxTableBytes / plan.rowWidth
  table : plan.table.Checked (plan.shardCount * plan.rowsPerShard) plan.rowWidth
  scale : plan.scale.Checked plan.source (plan.tensorPrefix ++ str ".weight_scale") 2
  length_shards : plan.shards.length = plan.shardCount
  shards : ∀ i (h : i < plan.shards.length), (plan.shards[i]).Checked plan.source
    plan.tensorPrefix (plan.rowsPerShard * plan.rowWidth) i
  apart : spansApart (sortedSpans (plan.shards.map (·.toSegment) ++ [plan.scale])) = true

/-! ## What the validator lets through -/

section

variable {interp : Interp}

theorem validateSource_checked {v : Value} {source : Source}
    (h : validateSource interp v = .ok source) : source.Checked := by
  simp only [validateSource, bind_ok, reject_ok, pure_ok, checkName_ok, checkIndex_ok,
    checkHash_ok] at h
  obtain ⟨src, -, name, ⟨-, hname⟩, size, -, sha256, ⟨-, hsha⟩, headerSha256, ⟨-, hheader⟩,
    dataStart, -, _, hrange, rfl⟩ := h
  simp only [Bool.or_eq_false_iff, Bool.not_eq_false', Bool.and_eq_true, decide_eq_true_eq,
    decide_eq_false_iff_not, Nat.not_lt] at hrange
  exact ⟨hname, hsha, hheader, hrange.1.1, hrange.1.2, hrange.2.1, hrange.2.2⟩

theorem prefixChecked_of {what : Str} {v : Value} {tensorPrefix : Str}
    (hv : v.asStr?.filter (· ≠ []) = some tensorPrefix)
    (hparts : ((tensorPrefix.splitOn 46).forM fun part => do
      let _ ← checkName interp (.str part) what) = .ok ()) :
    PrefixChecked tensorPrefix := by
  rw [Option.filter_eq_some_iff, decide_eq_true_eq] at hv
  refine ⟨hv.2, fun part hpart => ?_⟩
  have hcheck := forM_ok.mp hparts part hpart
  rw [bind_ok] at hcheck
  obtain ⟨name, hname, -⟩ := hcheck
  obtain ⟨hname, hsafe⟩ := checkName_ok.mp hname
  rw [Value.str.injEq] at hname
  exact hname ▸ hsafe

theorem PrefixChecked.parts_ok {tensorPrefix : Str} (h : PrefixChecked tensorPrefix) (what : Str) :
    ((tensorPrefix.splitOn 46).forM fun part => do
      let _ ← checkName interp (.str part) what) = .ok () := by
  refine forM_ok.mpr fun part hpart => bind_ok.mpr ⟨part, ?_, rfl⟩
  exact checkName_ok.mpr ⟨rfl, h.parts part hpart⟩

theorem validatePrefix_checked {v : Value} {tensorPrefix : Str}
    (h : validatePrefix interp v = .ok tensorPrefix) : PrefixChecked tensorPrefix := by
  simp only [validatePrefix, bind_ok, orRaise_ok, pure_ok] at h
  obtain ⟨s, hs, _, hparts, rfl⟩ := h
  exact prefixChecked_of hs hparts

theorem validateTable_checked {totalRows rowWidth : Nat} {v : Value} {table : Table}
    (h : validateTable interp totalRows rowWidth v = .ok table) :
    table.Checked totalRows rowWidth := by
  simp only [validateTable, bind_ok, reject_ok, pure_ok, checkHash_ok] at h
  obtain ⟨tbl, -, _, -, _, -, _, -, sha256, ⟨-, hsha⟩, rfl⟩ := h
  exact ⟨rfl, rfl, rfl, rfl, hsha⟩

theorem validateScale_checked {source : Source} {tensorPrefix : Str} {v : Value}
    {scale : Segment} (h : validateScale interp source tensorPrefix v = .ok scale) :
    scale.Checked source (tensorPrefix ++ str ".weight_scale") 2 := by
  simp only [validateScale, bind_ok, reject_ok, pure_ok, checkHash_ok] at h
  obtain ⟨fs, -, _, -, _, -, offset, -, sha256, ⟨-, hsha⟩, _, hrange, rfl⟩ := h
  simp only [Bool.or_eq_false_iff, decide_eq_false_iff_not, Nat.not_lt] at hrange
  exact ⟨rfl, rfl, hrange.1, hrange.2, hsha⟩

theorem validateShard_checked {source : Source} {tensorPrefix : Str} {shardBytes : Nat}
    {entry : Value × Nat} {shard : Shard}
    (h : validateShard interp source tensorPrefix shardBytes entry = .ok shard) :
    shard.Checked source tensorPrefix shardBytes entry.2 := by
  simp only [validateShard, bind_ok, reject_ok, pure_ok, checkHash_ok] at h
  obtain ⟨sh, -, _, -, _, -, _, -, offset, -, _, hrange, sha256, ⟨-, hsha⟩, rfl⟩ := h
  simp only [Bool.or_eq_false_iff, decide_eq_false_iff_not, Nat.not_lt] at hrange
  exact ⟨rfl, rfl, rfl, hrange.1, hrange.2, hsha⟩

theorem validateShards_checked {source : Source} {tensorPrefix : Str} {shardBytes : Nat}
    {entries : List Value} {shards : List Shard}
    (h : entries.zipIdx.mapM (validateShard interp source tensorPrefix shardBytes) = .ok shards) :
    shards.length = entries.length ∧
      ∀ i (hi : i < shards.length), (shards[i]).Checked source tensorPrefix shardBytes i := by
  obtain ⟨hlength, hget⟩ := List.forall₂_iff_get.mp (mapM_ok.mp h)
  rw [List.length_zipIdx] at hlength
  refine ⟨hlength.symm, fun i hi => ?_⟩
  have hentry := validateShard_checked (hget i (by rw [List.length_zipIdx]; omega) hi)
  rw [List.get_eq_getElem, List.getElem_zipIdx, Nat.zero_add] at hentry
  exact hentry

theorem validatePlan_checked {v : Value} {plan : Plan} (h : validatePlan interp v = .ok plan) :
    plan.Checked := by
  simp only [validatePlan, bind_ok, reject_ok, orRaise_ok, pure_ok] at h
  obtain ⟨_, -, fs, -, _, -, model, -, _, -, _, hrevision, source, hsource, tensorPrefix, hprefix,
    _, -, sc, -, rps, -, rw, -, _, hsc, _, hrps, _, hrw, _, hgeometry, table, htable, scale,
    hscale, entries, hentries, shards, hshards, _, hapart, rfl⟩ := h
  simp only [Bool.not_eq_false', Bool.and_eq_true, decide_eq_true_eq] at hsc hrps hrw hrevision
  rw [decide_eq_false_iff_not, Nat.not_lt] at hgeometry
  rw [Option.filter_eq_some_iff, decide_eq_true_eq] at hentries
  obtain ⟨hlength, hshards⟩ := validateShards_checked hshards
  exact {
    revision := (isHexText_iff.mp hrevision).2
    source := validateSource_checked hsource
    tensorPrefix := validatePrefix_checked hprefix
    shardCount := hsc
    rowsPerShard := hrps
    rowWidth := hrw
    geometry := hgeometry
    table := validateTable_checked htable
    scale := validateScale_checked hscale
    length_shards := hlength.trans hentries.2
    shards := hshards
    apart := by
      rw [Bool.not_eq_false'] at hapart
      exact hapart }

/-! ## The document is let through -/

theorem validateSource_document {source : Source} (h : source.Checked) :
    validateSource interp source.document = .ok source := by
  simp only [validateSource, bind_ok, reject_ok, pure_ok, checkName_ok, checkIndex_ok,
    checkHash_ok]
  refine ⟨_, rfl, source.name, ⟨rfl, h.name⟩, source.size, rfl, source.sha256, ⟨rfl, h.sha256⟩,
    source.headerSha256, ⟨rfl, h.headerSha256⟩, source.dataStart, rfl, (), ?_, rfl⟩
  simp only [Bool.or_eq_false_iff, Bool.not_eq_false', Bool.and_eq_true, decide_eq_true_eq,
    decide_eq_false_iff_not, Nat.not_lt]
  exact ⟨⟨h.dataStart_ge, h.dataStart_le⟩, h.dataStart_lt, h.size_le⟩

theorem validatePrefix_str {tensorPrefix : Str} (h : PrefixChecked tensorPrefix) :
    validatePrefix interp (.str tensorPrefix) = .ok tensorPrefix := by
  simp only [validatePrefix, bind_ok, orRaise_ok, pure_ok]
  refine ⟨tensorPrefix, ?_, (), h.parts_ok _, rfl⟩
  rw [Option.filter_eq_some_iff, decide_eq_true_eq]
  exact ⟨rfl, h.ne_nil⟩

theorem validateTable_document {totalRows rowWidth : Nat} {table : Table}
    (h : table.Checked totalRows rowWidth) :
    validateTable interp totalRows rowWidth table.document = .ok table := by
  obtain ⟨name, rows, width, size, sha256⟩ := table
  obtain ⟨hname, hrows, hwidth, hsize, hsha⟩ := h
  dsimp only at hname hrows hwidth hsize hsha
  subst hname hrows hwidth hsize
  simp only [validateTable, bind_ok, reject_ok, pure_ok, checkHash_ok]
  refine ⟨_, rfl, (), ?_, (), ?_, (), ?_, sha256, ⟨rfl, hsha⟩, rfl⟩
  · exact decide_eq_false (not_not_intro rfl)
  · exact decide_eq_false (not_not_intro rfl)
  · exact decide_eq_false (not_not_intro rfl)

theorem validateScale_document {source : Source} {tensorPrefix : Str} {scale : Segment}
    (h : scale.Checked source (tensorPrefix ++ str ".weight_scale") 2) :
    validateScale interp source tensorPrefix scale.document = .ok scale := by
  obtain ⟨name, offset, size, sha256⟩ := scale
  obtain ⟨rfl, rfl, hstart, hstop, hsha⟩ := h
  simp only [validateScale, bind_ok, reject_ok, pure_ok, checkHash_ok, checkIndex_ok]
  refine ⟨_, rfl, (), ?_, (), ?_, offset, rfl, sha256, ⟨rfl, hsha⟩, (), ?_, rfl⟩
  · exact decide_eq_false (not_not_intro rfl)
  · exact decide_eq_false (not_not_intro rfl)
  · simp only [Bool.or_eq_false_iff, decide_eq_false_iff_not, Nat.not_lt]
    exact ⟨hstart, hstop⟩

theorem validateShard_document {source : Source} {tensorPrefix : Str} {shardBytes i : Nat}
    {shard : Shard} (h : shard.Checked source tensorPrefix shardBytes i) :
    validateShard interp source tensorPrefix shardBytes (shard.document, i) = .ok shard := by
  obtain ⟨⟨name, offset, size, sha256⟩, id⟩ := shard
  obtain ⟨hid, hname, hsize, hstart, hstop, hsha⟩ := h
  dsimp only at hid hname hsize hstart hstop hsha
  subst hid hname hsize
  simp only [validateShard, bind_ok, reject_ok, pure_ok, checkHash_ok, checkIndex_ok]
  refine ⟨_, rfl, (), ?_, (), ?_, (), ?_, offset, rfl, (), ?_, sha256, ⟨rfl, hsha⟩, rfl⟩
  · exact decide_eq_false (not_not_intro rfl)
  · exact decide_eq_false (not_not_intro rfl)
  · exact decide_eq_false (not_not_intro rfl)
  · simp only [Bool.or_eq_false_iff, decide_eq_false_iff_not, Nat.not_lt]
    exact ⟨hstart, hstop⟩

theorem validateShards_document {source : Source} {tensorPrefix : Str} {shardBytes : Nat}
    {shards : List Shard}
    (h : ∀ i (hi : i < shards.length), (shards[i]).Checked source tensorPrefix shardBytes i) :
    (shards.map Shard.document).zipIdx.mapM (validateShard interp source tensorPrefix shardBytes) =
      .ok shards := by
  rw [mapM_ok, List.forall₂_iff_get]
  refine ⟨by rw [List.length_zipIdx, List.length_map], fun i hi hi' => ?_⟩
  rw [List.get_eq_getElem, List.get_eq_getElem, List.getElem_zipIdx, List.getElem_map,
    Nat.zero_add]
  exact validateShard_document (h i hi')

/-- The validator reads the document of a plan back. -/
theorem validatePlan_document {plan : Plan} (h : plan.Checked) :
    validatePlan interp plan.document = .ok plan := by
  simp only [validatePlan, bind_ok, reject_ok, orRaise_ok, pure_ok, checkIndex_ok]
  refine ⟨_, rfl, _, rfl, (), ?_, _, rfl, (), ?_, (), ?_, plan.source,
    validateSource_document h.source, plan.tensorPrefix, validatePrefix_str h.tensorPrefix, (), ?_,
    plan.shardCount, rfl, plan.rowsPerShard, rfl, plan.rowWidth, rfl, (), ?_, (), ?_, (), ?_,
    (), ?_, plan.table, validateTable_document h.table, plan.scale,
    validateScale_document h.scale, plan.shards.map Shard.document, ?_, plan.shards,
    validateShards_document h.shards, (), ?_, rfl⟩
  · exact decide_eq_false (not_not_intro rfl)
  · exact decide_eq_false (not_not_intro rfl)
  · rw [Bool.not_eq_false']
    exact h.revision
  · exact decide_eq_false (not_not_intro rfl)
  · simpa using h.shardCount
  · simpa using h.rowsPerShard
  · simpa using h.rowWidth
  · exact decide_eq_false (Nat.not_lt.mpr h.geometry)
  · rw [Option.filter_eq_some_iff, decide_eq_true_eq, List.length_map]
    exact ⟨rfl, h.length_shards⟩
  · rw [Bool.not_eq_false']
    exact h.apart

/-! ## Reading a document back -/

theorem requireKeys_dict {fs gs : Fields} {keys : List String} {what : Str}
    (h : requireKeys interp (.dict fs) keys what = .ok gs) : gs = fs := by
  have hdict := requireKeys_ok h
  rw [Value.dict.injEq] at hdict
  exact hdict.symm

theorem int_inj {m n : Nat} (h : Value.int m = .int n) : n = m := by
  rw [Value.int.injEq, Int.natCast_inj] at h
  exact h.symm

theorem str_inj {s t : Str} (h : Value.str s = .str t) : t = s := by
  rw [Value.str.injEq] at h
  exact h.symm

theorem validateSource_read {source source' : Source}
    (h : validateSource interp source.document = .ok source') : source' = source := by
  simp only [validateSource, bind_ok, reject_ok, pure_ok, checkName_ok, checkIndex_ok,
    checkHash_ok] at h
  obtain ⟨src, hsrc, name, ⟨hname, -⟩, size, hsize, sha256, ⟨hsha, -⟩, headerSha256,
    ⟨hheader, -⟩, dataStart, hstart, _, -, rfl⟩ := h
  obtain rfl := requireKeys_dict hsrc
  rw [str_inj hname, int_inj hsize, str_inj hsha, str_inj hheader, int_inj hstart]

theorem validatePrefix_read {tensorPrefix tensorPrefix' : Str}
    (h : validatePrefix interp (.str tensorPrefix) = .ok tensorPrefix') :
    tensorPrefix' = tensorPrefix := by
  simp only [validatePrefix, bind_ok, orRaise_ok, pure_ok] at h
  obtain ⟨s, hs, _, -, rfl⟩ := h
  rw [Option.filter_eq_some_iff] at hs
  exact (Option.some.inj hs.1).symm

theorem validateTable_read {totalRows rowWidth : Nat} {table table' : Table}
    (h : validateTable interp totalRows rowWidth table.document = .ok table') :
    table' = table := by
  simp only [validateTable, bind_ok, reject_ok, pure_ok, checkHash_ok, decide_eq_false_iff_not,
    not_not] at h
  obtain ⟨tbl, htbl, _, hsize, _, hname, _, hshape, sha256, ⟨hsha, -⟩, rfl⟩ := h
  obtain rfl := requireKeys_dict htbl
  obtain ⟨hrows, hwidth⟩ := List.cons.inj (Value.list.inj hshape)
  rw [str_inj hname, int_inj hsize, int_inj hrows, int_inj (List.cons.inj hwidth).1, str_inj hsha]

theorem validateScale_read {source : Source} {tensorPrefix : Str} {scale scale' : Segment}
    (h : validateScale interp source tensorPrefix scale.document = .ok scale') :
    scale' = scale := by
  simp only [validateScale, bind_ok, reject_ok, pure_ok, checkHash_ok, checkIndex_ok,
    decide_eq_false_iff_not, not_not] at h
  obtain ⟨fs, hfs, _, hname, _, hsize, offset, hoffset, sha256, ⟨hsha, -⟩, _, -, rfl⟩ := h
  obtain rfl := requireKeys_dict hfs
  rw [str_inj hname, int_inj hoffset, str_inj hsha]
  exact congrArg (Segment.mk _ _ · _) (int_inj hsize)

theorem validateShard_read {source : Source} {tensorPrefix : Str} {shardBytes i : Nat}
    {shard shard' : Shard}
    (h : validateShard interp source tensorPrefix shardBytes (shard.document, i) = .ok shard') :
    shard' = shard := by
  simp only [validateShard, bind_ok, reject_ok, pure_ok, checkHash_ok, checkIndex_ok,
    decide_eq_false_iff_not, not_not] at h
  obtain ⟨sh, hsh, _, hid, _, hname, _, hsize, offset, hoffset, _, -, sha256, ⟨hsha, -⟩, rfl⟩ := h
  obtain rfl := requireKeys_dict hsh
  rw [str_inj hname, int_inj hid, int_inj hsize, int_inj hoffset, str_inj hsha]

theorem validateShards_read {source : Source} {tensorPrefix : Str} {shardBytes : Nat}
    {shards shards' : List Shard}
    (h : (shards.map Shard.document).zipIdx.mapM
      (validateShard interp source tensorPrefix shardBytes) = .ok shards') : shards' = shards := by
  obtain ⟨hlength, hget⟩ := List.forall₂_iff_get.mp (mapM_ok.mp h)
  rw [List.length_zipIdx, List.length_map] at hlength
  refine List.ext_getElem hlength.symm fun i hi hi' => ?_
  have hshard := hget i (by rw [List.length_zipIdx, List.length_map]; omega) hi
  rw [List.get_eq_getElem, List.get_eq_getElem, List.getElem_zipIdx, List.getElem_map] at hshard
  exact validateShard_read hshard

/-- What the validator reads of the document of a plan is the plan. -/
theorem validatePlan_read {plan plan' : Plan}
    (h : validatePlan interp plan.document = .ok plan') : plan' = plan := by
  simp only [validatePlan, bind_ok, reject_ok, orRaise_ok, pure_ok, checkIndex_ok] at h
  obtain ⟨_, -, fs, hfs, _, -, model, hmodel, _, -, _, -, source, hsource, tensorPrefix, hprefix,
    _, -, sc, hsc, rps, hrps, rw, hrw, _, -, _, -, _, -, _, -, table, htable, scale,
    hscale, entries, hentries, shards, hshards, _, -, rfl⟩ := h
  obtain rfl := requireKeys_dict hfs
  obtain rfl := requireKeys_dict hmodel
  obtain rfl := validateSource_read hsource
  obtain rfl := validatePrefix_read hprefix
  obtain rfl := int_inj hsc
  obtain rfl := int_inj hrps
  obtain rfl := int_inj hrw
  obtain rfl := validateTable_read htable
  obtain rfl := validateScale_read hscale
  rw [Option.filter_eq_some_iff] at hentries
  obtain rfl := Option.some.inj hentries.1
  obtain rfl := validateShards_read hshards
  rfl

end

end Ple
end FlashNext
