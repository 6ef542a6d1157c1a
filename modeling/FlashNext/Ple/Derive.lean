import FlashNext.Ple.Unmodified

/-!
# What a plan is derived from

On a file that stays as it is, `buildPlan` delivers the document of `derivePlan` and
`verifySource` asks what `sourceAgrees` asks: both are functions of the bytes.
-/

namespace FlashNext
namespace Ple

open Effect
open Py (Str Value str)
open Text (Bytes)

/-! ## Tensors of the file -/

/-- The entry of a tensor has this type and shape, and its range is this one. -/
def At (entries : List (Str × Entry)) (dataStart : Nat) (dtype : Str) (shape : List Nat)
    (name : Str) (size offset : Nat) : Prop :=
  ∃ spec, entryOf entries name = some spec ∧ spec.dtype = dtype ∧ spec.shape = shape ∧
    dataStart + spec.start = offset ∧ spec.stop - spec.start = size

section

variable {interp : Interp} {entries : List (Str × Entry)} {dataStart fileSize : Nat}

theorem checkSegment_ok {dtype : Str} {shape : List Nat} {segment : Segment} {u : Unit} :
    checkSegment entries dataStart dtype shape segment = .ok u ↔
      At entries dataStart dtype shape segment.name segment.size segment.offset := by
  rw [checkSegment, reject_ok, Bool.not_eq_false', Option.any_eq_true]
  refine exists_congr fun spec => and_congr_right fun _ => ?_
  simp only [Bool.and_eq_true, beq_iff_eq, and_assoc]

theorem shardSegment_ok {g : Geometry} {i offset : Nat} :
    shardSegment interp g entries dataStart i = .ok offset ↔
      At entries dataStart tableDtype [g.rowsPerShard, g.rowWidth]
        (shardTensorName g.tensorPrefix i) g.shardBytes offset := by
  simp only [shardSegment, bind_ok, orRaise_ok, reject_ok, pure_ok, decide_eq_false_iff_not,
    not_not, Nat.add_sub_add_left]
  constructor
  · rintro ⟨spec, hspec, _, hdtype, _, hshape, _, hsize, hoffset⟩
    exact ⟨spec, hspec, hdtype, hshape, hoffset, hsize⟩
  · rintro ⟨spec, hspec, hdtype, hshape, hoffset, hsize⟩
    exact ⟨spec, hspec, (), hdtype, (), hshape, (), hsize, hoffset⟩

/-- The range of a tensor of the file lies in the file. -/
theorem At.bounds {header : Fields} {dtype name : Str} {shape : List Nat} {size offset : Nat}
    (hentries : checkHeaderGlobal interp header dataStart fileSize = .ok entries)
    (h : At entries dataStart dtype shape name size offset) : offset + size ≤ fileSize := by
  obtain ⟨spec, hspec, -, -, hoffset, hsize⟩ := h
  obtain ⟨hle, hin⟩ := entryOf_bounds hentries hspec
  omega

/-- The tensors that a layout was taken from. -/
structure Layout.Holds (interp : Interp) (g : Geometry) (front : Front) (fileSize : Nat)
    (entries : List (Str × Entry)) (layout : Layout) : Prop where
  entries_ok : checkHeaderGlobal interp front.header front.dataStart fileSize = .ok entries
  scale : At entries front.dataStart scaleDtype [1] g.scaleName 2 layout.scaleOffset
  names : sameNames (shardNames front.header g.tensorPrefix)
    ((List.range g.shardCount).map (shardTensorName g.tensorPrefix)) = true
  shards : List.Forall₂ (fun i offset => At entries front.dataStart tableDtype
    [g.rowsPerShard, g.rowWidth] (shardTensorName g.tensorPrefix i) g.shardBytes offset)
    (List.range g.shardCount) layout.offsets

theorem sourceLayout_ok {g : Geometry} {front : Front} {layout : Layout} :
    sourceLayout interp g front fileSize = .ok layout ↔
      ∃ entries, layout.Holds interp g front fileSize entries := by
  simp only [sourceLayout, bind_ok, orRaise_ok, reject_ok, pure_ok, mapM_ok, shardSegment_ok,
    Bool.or_eq_false_iff, decide_eq_false_iff_not, not_not, Bool.not_eq_false']
  constructor
  · rintro ⟨entries, hentries, scale, hscale, _, ⟨hdtype, hshape⟩, _, hsize, _, hnames, offsets,
      hoffsets, h⟩
    subst h
    exact ⟨entries, hentries, ⟨scale, hscale, hdtype, hshape, rfl, hsize⟩, hnames, hoffsets⟩
  · rintro ⟨entries, hentries, ⟨scale, hscale, hdtype, hshape, hoffset, hsize⟩, hnames, hoffsets⟩
    refine ⟨entries, hentries, scale, hscale, (), ⟨hdtype, hshape⟩, (), hsize, (), hnames,
      layout.offsets, hoffsets, ?_⟩
    rw [hoffset]

theorem verifyLayout_ok {plan : Plan} {front : Front} {u : Unit} :
    verifyLayout interp plan front fileSize = .ok u ↔
      ∃ entries, checkHeaderGlobal interp front.header front.dataStart fileSize = .ok entries ∧
        sameNames (shardNames front.header plan.tensorPrefix) (plan.shards.map (·.name)) = true ∧
        (∀ shard ∈ plan.shards, At entries front.dataStart tableDtype
          [plan.rowsPerShard, plan.rowWidth] shard.name shard.size shard.offset) ∧
        At entries front.dataStart scaleDtype [1] plan.scale.name plan.scale.size
          plan.scale.offset := by
  simp only [verifyLayout, bind_ok, reject_ok, forM_ok, checkSegment_ok, Bool.not_eq_false']
  constructor
  · rintro ⟨entries, hentries, _, hnames, _, hshards, hscale⟩
    exact ⟨entries, hentries, hnames, hshards, hscale⟩
  · rintro ⟨entries, hentries, hnames, hshards, hscale⟩
    exact ⟨entries, hentries, (), hnames, (), hshards, hscale⟩

end

/-! ## Functions of the file -/

section

variable (reader : Reader) (sha256 : Bytes → Str)

/-- What `_read_safetensors_header` reads of these bytes. -/
def frontOf (content : Bytes) (what : Str) : Except Str Front := do
  reject (content.length < 8) (what ++ str ": too small for safetensors")
  let hlen := fromLittle (slice content 0 8)
  checkHeaderLength hlen content.length what
  let header ← parseHeader reader (slice content 8 hlen) what
  return ⟨header, slice content 8 hlen, 8 + hlen⟩

/-- The plan that the file gives. -/
def planOf (g : Geometry) (sourceName : Str) (content : Bytes) (front : Front)
    (layout : Layout) : Plan :=
  assemble sha256 g sourceName content.length content front layout
    (layout.offsets.map fun offset => slice content offset g.shardBytes)
    (slice content layout.scaleOffset 2)

/-- `_build_plan_from_fd`, as a function of the file. -/
def derivePlan (file : SourceFile) (sourceName : Str) (g : Geometry) : Except Str Plan := do
  requireRegularSingleLink file.stat (str "source")
  reject (sha256 file.content ≠ g.sourceSha256)
    (str "source sha256 mismatch: pinned hash does not match file content")
  let front ← frontOf reader file.content (str "source")
  let layout ← sourceLayout reader.toInterp g front file.content.length
  let name ← checkName reader.toInterp (.str sourceName) (str "source name")
  return planOf sha256 g name file.content front layout

/-- `_verify_source`, as a function of the file. -/
def sourceAgrees (file : SourceFile) (plan : Plan) : Except Str Snapshot := do
  requireRegularSingleLink file.stat (str "source")
  reject (file.content.length ≠ plan.source.size)
    (str "source size changed: plan " ++ number plan.source.size ++ str ", file " ++
      number file.content.length)
  let front ← frontOf reader file.content (str "source")
  reject (sha256 front.headerBytes ≠ plan.source.headerSha256)
    (str "source header sha256 mismatch")
  reject (front.dataStart ≠ plan.source.dataStart) (str "source data_start mismatch")
  verifyLayout reader.toInterp plan front file.content.length
  reject (sha256 file.content ≠ plan.source.sha256) (str "source sha256 mismatch")
  return file.stat.snapshot

end

section

variable {reader : Reader} {sha256 : Bytes → Str} {file : SourceFile} {mayFail : Prop} {fd : Fd}

theorem readSafetensorsHeader_computes {what : Str} :
    Computes file mayFail (readSafetensorsHeader reader fd file.content.length what)
      (frontOf reader file.content what) := by
  refine Computes.bind (Computes.orFail _) fun _ hlen => ?_
  rw [reject_ok, decide_eq_false_iff_not] at hlen
  refine Computes.step (readExact_computes (show 0 + 8 ≤ file.content.length by omega)) ?_
  refine Computes.bind (Computes.orFail _) fun _ hbounds => ?_
  simp only [checkHeaderLength, bind_ok, reject_ok, decide_eq_false_iff_not] at hbounds
  obtain ⟨_, -, hin⟩ := hbounds
  refine Computes.step (readExact_computes (Nat.not_lt.mp hin)) ?_
  exact Computes.bind (Computes.orFail _) fun _ _ => Computes.ret _

/-- Each shard is hashed over its own range. -/
theorem hashShards_computes {size i : Nat} {offsets : List Nat}
    (h : ∀ offset ∈ offsets, offset + size ≤ file.content.length) :
    Computes file mayFail
      ((offsets.zipIdx i).mapM fun s => hashFdRange fd size s.1 (str "shard " ++ number s.2))
      (.ok (offsets.map fun offset => slice file.content offset size)) := by
  induction offsets generalizing i with
  | nil => exact Computes.ret []
  | cons offset offsets ih =>
    obtain ⟨hin, hrest⟩ := List.forall_mem_cons.mp h
    rw [List.zipIdx_cons, List.mapM_cons]
    refine Computes.step (hashFdRange_computes hin) ?_
    exact Computes.step (ih hrest) (Computes.ret _)

/-- What the builder reads lies in the file. -/
theorem Layout.Holds.bounds {interp : Interp} {g : Geometry} {front : Front} {fileSize : Nat}
    {entries : List (Str × Entry)} {layout : Layout}
    (h : layout.Holds interp g front fileSize entries) :
    layout.scaleOffset + 2 ≤ fileSize ∧
      ∀ offset ∈ layout.offsets, offset + g.shardBytes ≤ fileSize := by
  refine ⟨h.scale.bounds h.entries_ok, fun offset hoffset => ?_⟩
  obtain ⟨i, -, hat⟩ := forall₂_exists_left h.shards offset hoffset
  exact hat.bounds h.entries_ok

theorem buildPlanFromFd_computes {sourceName : Str} {g : Geometry} :
    Computes file mayFail (buildPlanFromFd reader sha256 fd sourceName g) (do
      let plan ← derivePlan reader sha256 file sourceName g
      return plan.document) := by
  rw [derivePlan]
  simp only [bind_assoc]
  refine Computes.step (fstat_computes fd) ?_
  refine Computes.bind (Computes.orFail _) fun _ _ => ?_
  rw [file.size_eq]
  refine Computes.step hashWhole_computes ?_
  refine Computes.step (fstat_computes fd) ?_
  refine Computes.step (Computes.unchanged _ _) ?_
  refine Computes.bind (Computes.orFail _) fun _ _ => ?_
  refine Computes.bind readSafetensorsHeader_computes fun front _ => ?_
  refine Computes.bind (Computes.orFail _) fun layout hlayout => ?_
  obtain ⟨entries, hholds⟩ := sourceLayout_ok.mp hlayout
  obtain ⟨hscale, hoffsets⟩ := hholds.bounds
  refine Computes.step (hashShards_computes hoffsets) ?_
  refine Computes.step (hashFdRange_computes hscale) ?_
  refine Computes.step (fstat_computes fd) ?_
  refine Computes.step (Computes.unchanged _ _) ?_
  exact Computes.bind (Computes.orFail _) fun _ _ => Computes.ret _

theorem verifySource_computes {plan : Plan} :
    Computes file mayFail (verifySource reader sha256 fd plan)
      (sourceAgrees reader sha256 file plan) := by
  refine Computes.step (fstat_computes fd) ?_
  refine Computes.bind (Computes.orFail _) fun _ _ => ?_
  rw [file.size_eq]
  refine Computes.bind (Computes.orFail _) fun _ _ => ?_
  refine Computes.bind readSafetensorsHeader_computes fun front _ => ?_
  refine Computes.bind (Computes.orFail _) fun _ _ => ?_
  refine Computes.bind (Computes.orFail _) fun _ _ => ?_
  refine Computes.bind (Computes.orFail _) fun _ _ => ?_
  refine Computes.step hashWhole_computes ?_
  refine Computes.step (fstat_computes fd) ?_
  refine Computes.step (Computes.unchanged _ _) ?_
  exact Computes.bind (Computes.orFail _) fun _ _ => Computes.ret _

end

end Ple
end FlashNext
