import FlashNext.Ple.Opening

/-!
# Builder, validator and verifier agree

The builder derives a plan from a file, the validator checks a document without one, and the
verifier checks a file against a plan.  What the builder delivers passes the other two on the
file it came from, and a plan that passes both for a file takes from it what the builder would.
-/

namespace FlashNext
namespace Ple

open Effect
open Py (Str Value str)
open Text (Bytes)

/-! ## The builder as a function -/

section

variable (reader : Reader) (sha256 : Bytes → Str)

/-- `build_plan`, as a function of the file. -/
def planFor (file : SourceFile) (path : Str) (args : BuildArgs) : Except Str Plan := do
  let g ← checkArgs reader.toInterp args
  let path ← anchored file path (str "source")
  let _ ← pathComponents (if dirname path = [] then [47] else dirname path)
    (str "source directory")
  let plan ← derivePlan reader sha256 file (basename path) g
  let _ ← validatePlan reader.toInterp plan.document
  return plan

variable {reader sha256} {file : SourceFile} {mayFail : Prop} {path : Str} {args : BuildArgs}

theorem buildPlan_computes :
    Computes file mayFail (buildPlan reader sha256 path args) (do
      let plan ← planFor reader sha256 file path args
      return plan.document) := by
  rw [planFor]
  simp only [bind_assoc]
  refine Computes.bind (Computes.orFail _) fun g _ => ?_
  refine Computes.bind resolveAnchored_computes fun path _ => ?_
  refine openDir_bind_computes fun dirFd => ?_
  have hplan : Computes file mayFail (do
      let fd ← orCache (str "cannot open source: ") (ask (.openLeaf dirFd (basename path) false))
      (buildPlanFromFd reader sha256 fd (basename path) g).finally_ (orOs (ask (.close fd))))
      (do
        let plan ← derivePlan reader sha256 file (basename path) g
        return plan.document) :=
    Yields.then (openLeaf_passes dirFd _ _) fun fd _ =>
      Yields.finally_ buildPlanFromFd_computes (close_passes fd)
  have hall := Computes.bind (Yields.finally_ hplan (close_passes dirFd)) fun p _ =>
    Computes.bind (Computes.orFail (validatePlan reader.toInterp p)) fun _ _ => Computes.ret p
  simp only [bind_assoc, pure_bind] at hall ⊢
  exact hall

end

/-! ## What the functions say -/

section

variable {reader : Reader} {sha256 : Bytes → Str} {file : SourceFile}

theorem checkArgs_ok {interp : Interp} {args : BuildArgs} {g : Geometry}
    (h : checkArgs interp args = .ok g) :
    args.tensorPrefix = .str g.tensorPrefix ∧ args.shardCount = .int g.shardCount ∧
      args.rowsPerShard = .int g.rowsPerShard ∧ args.rowWidth = .int g.rowWidth := by
  simp only [checkArgs, bind_ok, orRaise_ok, pure_ok, checkIndex_ok] at h
  obtain ⟨_, -, _, -, tensorPrefix, hfront, _, -, hash, -, sc, hsc, rps, hrps, rw, hrw, _, -, _, -,
    _, -, _, -, rfl⟩ := h
  rw [Option.filter_eq_some_iff] at hfront
  exact ⟨Value.asStr?_eq_some.mp hfront.1, hsc, hrps, hrw⟩

theorem derivePlan_ok {name : Str} {g : Geometry} {plan : Plan} :
    derivePlan reader sha256 file name g = .ok plan ↔
      requireRegularSingleLink file.stat (str "source") = .ok () ∧
      sha256 file.content = g.sourceSha256 ∧ safeName name = true ∧
      ∃ front layout entries, frontOf reader file.content (str "source") = .ok front ∧
        Layout.Holds reader.toInterp g front file.content.length entries layout ∧
        plan = planOf sha256 g name file.content front layout := by
  simp only [derivePlan, bind_ok, reject_ok, pure_ok, checkName_ok, sourceLayout_ok,
    decide_eq_false_iff_not, not_not]
  constructor
  · rintro ⟨_, hregular, _, hsha, front, hfront, layout, ⟨entries, hlayout⟩, name', ⟨hname, hsafe⟩,
      hplan⟩
    rw [Value.str.injEq] at hname
    subst hname hplan
    exact ⟨hregular, hsha, hsafe, front, layout, entries, hfront, hlayout, rfl⟩
  · rintro ⟨hregular, hsha, hsafe, front, layout, entries, hfront, hlayout, hplan⟩
    exact ⟨(), hregular, (), hsha, front, hfront, layout, ⟨entries, hlayout⟩, name, ⟨rfl, hsafe⟩,
      hplan.symm⟩

/-- What the verifier finds in the file. -/
structure Plan.Found (interp : Interp) (sha256 : Bytes → Str) (file : SourceFile) (front : Front)
    (entries : List (Str × Entry)) (plan : Plan) : Prop where
  size : file.content.length = plan.source.size
  headerSha256 : sha256 front.headerBytes = plan.source.headerSha256
  dataStart : front.dataStart = plan.source.dataStart
  entries_ok : checkHeaderGlobal interp front.header front.dataStart file.content.length =
    .ok entries
  names : sameNames (shardNames front.header plan.tensorPrefix) (plan.shards.map (·.name)) = true
  shards : ∀ shard ∈ plan.shards, At entries front.dataStart tableDtype
    [plan.rowsPerShard, plan.rowWidth] shard.name shard.size shard.offset
  scale : At entries front.dataStart scaleDtype [1] plan.scale.name plan.scale.size
    plan.scale.offset
  sha256 : sha256 file.content = plan.source.sha256

theorem sourceAgrees_ok {plan : Plan} {snapshot : Snapshot} :
    sourceAgrees reader sha256 file plan = .ok snapshot ↔
      requireRegularSingleLink file.stat (str "source") = .ok () ∧
      (∃ front entries, frontOf reader file.content (str "source") = .ok front ∧
        plan.Found reader.toInterp sha256 file front entries) ∧
      file.stat.snapshot = snapshot := by
  simp only [sourceAgrees, bind_ok, reject_ok, pure_ok, verifyLayout_ok, decide_eq_false_iff_not,
    not_not]
  constructor
  · rintro ⟨_, hregular, _, hsize, front, hfront, _, hheader, _, hstart, _,
      ⟨entries, hentries, hnames, hshards, hscale⟩, _, hsha, hsnapshot⟩
    exact ⟨hregular, ⟨front, entries, hfront, hsize, hheader, hstart, hentries, hnames, hshards,
      hscale, hsha⟩, hsnapshot⟩
  · rintro ⟨hregular, ⟨front, entries, hfront, h⟩, hsnapshot⟩
    exact ⟨(), hregular, (), h.size, front, hfront, (), h.headerSha256, (), h.dataStart, (),
      ⟨entries, h.entries_ok, h.names, h.shards, h.scale⟩, (), h.sha256, hsnapshot⟩

/-! ## The shards of a derived plan -/

theorem length_shardsOf {g : Geometry} {offsets : List Nat} {hashed : List Bytes}
    (h : hashed.length = offsets.length) :
    (shardsOf sha256 g offsets hashed).length = offsets.length := by
  rw [shardsOf, List.length_map, List.length_zipIdx, List.length_zip]
  omega

theorem getElem_shardsOf {g : Geometry} {offsets : List Nat} {hashed : List Bytes} {i : Nat}
    (h : i < (shardsOf sha256 g offsets hashed).length) (hi : i < offsets.length)
    (hi' : i < hashed.length) :
    (shardsOf sha256 g offsets hashed)[i] =
      ⟨⟨shardTensorName g.tensorPrefix i, offsets[i], g.shardBytes, sha256 hashed[i]⟩, i⟩ := by
  simp only [shardsOf, List.getElem_map, List.getElem_zipIdx, List.getElem_zip, Nat.zero_add]

/-- The shards of the plan that a file gives, by their ids. -/
theorem planOf_shards (sha256 : Bytes → Str) (g : Geometry) (name : Str) (content : Bytes)
    (front : Front) (layout : Layout) :
    (planOf sha256 g name content front layout).shards.length = layout.offsets.length ∧
      ∀ i (h : i < (planOf sha256 g name content front layout).shards.length)
        (hi : i < layout.offsets.length),
        (planOf sha256 g name content front layout).shards[i] =
          ⟨⟨shardTensorName g.tensorPrefix i, layout.offsets[i], g.shardBytes,
            sha256 (slice content layout.offsets[i] g.shardBytes)⟩, i⟩ := by
  refine ⟨length_shardsOf (List.length_map _), fun i h hi => ?_⟩
  refine (getElem_shardsOf h hi (by rw [List.length_map]; exact hi)).trans ?_
  rw [List.getElem_map]

theorem planOf_names {g : Geometry} {name : Str} {content : Bytes} {front : Front}
    {layout : Layout} (h : layout.offsets.length = g.shardCount) :
    (planOf sha256 g name content front layout).shards.map (·.name) =
      (List.range g.shardCount).map (shardTensorName g.tensorPrefix) := by
  obtain ⟨hlength, hget⟩ := planOf_shards sha256 g name content front layout
  refine List.ext_getElem (by rw [List.length_map, List.length_map, List.length_range]; omega) ?_
  intro i hi hi'
  rw [List.length_map] at hi
  rw [List.getElem_map, List.getElem_map, List.getElem_range, hget i hi (by omega)]

/-- The tensors of the layout, by the ids of the shards. -/
theorem Layout.Holds.get {interp : Interp} {g : Geometry} {front : Front} {fileSize : Nat}
    {entries : List (Str × Entry)} {layout : Layout}
    (h : layout.Holds interp g front fileSize entries) :
    layout.offsets.length = g.shardCount ∧ ∀ i (hi : i < layout.offsets.length),
      At entries front.dataStart tableDtype [g.rowsPerShard, g.rowWidth]
        (shardTensorName g.tensorPrefix i) g.shardBytes layout.offsets[i] := by
  obtain ⟨hlength, hget⟩ := List.forall₂_iff_get.mp h.shards
  rw [List.length_range] at hlength
  refine ⟨hlength.symm, fun i hi => ?_⟩
  have hat := hget i (by rw [List.length_range]; omega) hi
  rw [List.get_eq_getElem, List.get_eq_getElem, List.getElem_range] at hat
  exact hat

/-! ## The builder's plan passes -/

theorem derived_agrees {name : Str} {g : Geometry} {plan : Plan}
    (h : derivePlan reader sha256 file name g = .ok plan) :
    sourceAgrees reader sha256 file plan = .ok file.stat.snapshot := by
  obtain ⟨hregular, hsha, -, front, layout, entries, hfront, hlayout, rfl⟩ := derivePlan_ok.mp h
  obtain ⟨hlength, hat⟩ := hlayout.get
  obtain ⟨hshards, hget⟩ := planOf_shards sha256 g name file.content front layout
  refine sourceAgrees_ok.mpr ⟨hregular, ⟨front, entries, hfront, ?_⟩, rfl⟩
  exact {
    size := rfl
    headerSha256 := rfl
    dataStart := rfl
    entries_ok := hlayout.entries_ok
    names := by
      rw [planOf_names hlength]
      exact hlayout.names
    shards := by
      intro shard hshard
      obtain ⟨i, hi, rfl⟩ := List.mem_iff_getElem.mp hshard
      rw [hget i hi (by omega)]
      exact hat i (by omega)
    scale := hlayout.scale
    sha256 := rfl }

/-! ## What both accept is what the builder derives -/

/-- What the two plans take from their source is the same. -/
structure Plan.SameSource (plan plan' : Plan) : Prop where
  size : plan'.source.size = plan.source.size
  sha256 : plan'.source.sha256 = plan.source.sha256
  headerSha256 : plan'.source.headerSha256 = plan.source.headerSha256
  dataStart : plan'.source.dataStart = plan.source.dataStart
  scale : (plan'.scale.offset, plan'.scale.size) = (plan.scale.offset, plan.scale.size)
  shards : plan'.shards.map (fun s => (s.offset, s.size)) =
    plan.shards.map (fun s => (s.offset, s.size))

/-- The request is for this prefix and geometry. -/
structure BuildArgs.AsksFor (args : BuildArgs) (plan : Plan) : Prop where
  tensorPrefix : args.tensorPrefix = .str plan.tensorPrefix
  shardCount : args.shardCount = .int plan.shardCount
  rowsPerShard : args.rowsPerShard = .int plan.rowsPerShard
  rowWidth : args.rowWidth = .int plan.rowWidth

/-- An entry has one range. -/
theorem At.unique {entries : List (Str × Entry)} {dataStart size size' offset offset' : Nat}
    {dtype dtype' name : Str} {shape shape' : List Nat}
    (h : At entries dataStart dtype shape name size offset)
    (h' : At entries dataStart dtype' shape' name size' offset') :
    (offset', size') = (offset, size) := by
  obtain ⟨spec, hspec, -, -, hoffset, hsize⟩ := h
  obtain ⟨spec', hspec', -, -, hoffset', hsize'⟩ := h'
  rw [hspec, Option.some.injEq] at hspec'
  subst hspec'
  rw [← hoffset, ← hsize, ← hoffset', ← hsize']

/-- A plan that the validator lets through and its file agrees with takes from the file what a
plan for its prefix and geometry takes from it. -/
theorem derived_same {name : Str} {g : Geometry} {plan plan' : Plan} {snapshot : Snapshot}
    (hplan : plan.Checked) (hagrees : sourceAgrees reader sha256 file plan = .ok snapshot)
    (hstem : g.tensorPrefix = plan.tensorPrefix) (hcount : g.shardCount = plan.shardCount)
    (hbuilt : derivePlan reader sha256 file name g = .ok plan') : plan.SameSource plan' := by
  obtain ⟨-, ⟨front, entries, hfront, hfound⟩, -⟩ := sourceAgrees_ok.mp hagrees
  obtain ⟨-, -, -, front', layout, entries', hfront', hlayout, rfl⟩ := derivePlan_ok.mp hbuilt
  rw [hfront, Except.ok.injEq] at hfront'
  subst hfront'
  have hentries := hlayout.entries_ok
  rw [hfound.entries_ok, Except.ok.injEq] at hentries
  subst hentries
  obtain ⟨hlength, hat⟩ := hlayout.get
  obtain ⟨hshards, hget⟩ := planOf_shards sha256 g name file.content front layout
  have hlength' := hplan.length_shards
  have hscale : g.scaleName = plan.scale.name := by
    rw [Geometry.scaleName, hstem, hplan.scale.name_eq]
  exact {
    size := hfound.size
    sha256 := hfound.sha256
    headerSha256 := hfound.headerSha256
    dataStart := hfound.dataStart
    scale := by
      have hat := hlayout.scale
      rw [hscale] at hat
      exact hfound.scale.unique hat
    shards := by
      refine List.ext_getElem (by rw [List.length_map, List.length_map]; omega) ?_
      intro i hi hi'
      rw [List.length_map] at hi hi'
      rw [List.getElem_map, List.getElem_map, hget i hi (by omega)]
      have hname := (hplan.shards i hi').segment.name_eq
      have hshard := hat i (by omega)
      rw [hstem, ← hname] at hshard
      exact (hfound.shards _ (List.getElem_mem hi')).unique hshard }

/-! ## The builder derives it -/

/-- The request for a plan. -/
def Plan.request (plan : Plan) : BuildArgs where
  modelId := .str modelId
  modelRevision := .str plan.revision
  tensorPrefix := .str plan.tensorPrefix
  shardCount := .int plan.shardCount
  rowsPerShard := .int plan.rowsPerShard
  rowWidth := .int plan.rowWidth
  sourceSha256 := .str plan.source.sha256

def Plan.geometry (plan : Plan) : Geometry where
  revision := plan.revision
  tensorPrefix := plan.tensorPrefix
  shardCount := plan.shardCount
  rowsPerShard := plan.rowsPerShard
  rowWidth := plan.rowWidth
  sourceSha256 := plan.source.sha256

theorem checkArgs_request {interp : Interp} {plan : Plan} (h : plan.Checked) :
    checkArgs interp plan.request = .ok plan.geometry := by
  simp only [checkArgs, bind_ok, reject_ok, orRaise_ok, pure_ok, checkIndex_ok, checkHash_ok]
  refine ⟨(), ?_, (), ?_, plan.tensorPrefix, ?_, (), h.tensorPrefix.parts_ok _,
    plan.source.sha256, ⟨rfl, h.source.sha256⟩, plan.shardCount, rfl, plan.rowsPerShard, rfl,
    plan.rowWidth, rfl, (), ?_, (), ?_, (), ?_, (), ?_, rfl⟩
  · exact decide_eq_false (not_not_intro rfl)
  · rw [Bool.not_eq_false']
    exact h.revision
  · rw [Option.filter_eq_some_iff, decide_eq_true_eq]
    exact ⟨rfl, h.tensorPrefix.ne_nil⟩
  · simpa using h.shardCount
  · simpa using h.rowsPerShard
  · simpa using h.rowWidth
  · exact decide_eq_false (Nat.not_lt.mpr h.geometry)

/-- The layout that a plan has. -/
def Plan.layout (plan : Plan) : Layout := ⟨plan.scale.offset, plan.shards.map (·.offset)⟩

theorem Plan.Found.holds {interp : Interp} {front : Front} {entries : List (Str × Entry)}
    {plan : Plan} (hplan : plan.Checked) (h : plan.Found interp sha256 file front entries) :
    plan.layout.Holds interp plan.geometry front file.content.length entries := by
  have hlength := hplan.length_shards
  exact {
    entries_ok := h.entries_ok
    scale := by
      have hat := h.scale
      rw [hplan.scale.name_eq, hplan.scale.size_eq] at hat
      exact hat
    names := by
      have hnames : (List.range plan.shardCount).map (shardTensorName plan.tensorPrefix) =
          plan.shards.map (·.name) := by
        refine List.ext_getElem
          (by rw [List.length_map, List.length_map, List.length_range]; omega) ?_
        intro i hi hi'
        rw [List.length_map] at hi'
        rw [List.getElem_map, List.getElem_map, List.getElem_range,
          (hplan.shards i hi').segment.name_eq]
      have hsame := h.names
      rw [← hnames] at hsame
      exact hsame
    shards := by
      refine List.forall₂_iff_get.mpr ⟨?_, fun i hi hi' => ?_⟩
      · show (List.range plan.shardCount).length = (plan.shards.map (·.offset)).length
        rw [List.length_range, List.length_map, hlength]
      · have hin : i < plan.shards.length := by
          rw [List.length_range] at hi
          exact hlength ▸ hi
        have hat := h.shards _ (List.getElem_mem hin)
        have hshard := hplan.shards i hin
        rw [hshard.segment.name_eq, hshard.segment.size_eq] at hat
        rw [List.get_eq_getElem, List.get_eq_getElem, List.getElem_range]
        have hoffset : plan.layout.offsets[i] = (plan.shards[i]).offset := List.getElem_map _
        rw [hoffset]
        exact hat }

/-- The file fits the builder's bounds because the plan does. -/
theorem Plan.Found.checked {interp : Interp} {front : Front} {entries : List (Str × Entry)}
    {plan : Plan} {name : Str} (hhex : ∀ data, HexOf 64 (sha256 data)) (hname : safeName name = true)
    (hplan : plan.Checked) (h : plan.Found interp sha256 file front entries) :
    (planOf sha256 plan.geometry name file.content front plan.layout).Checked := by
  have hsize : file.content.length = plan.source.size := h.size
  have hstart : front.dataStart = plan.source.dataStart := h.dataStart
  have hlength := hplan.length_shards
  obtain ⟨hshards, hget⟩ :=
    planOf_shards sha256 plan.geometry name file.content front plan.layout
  have hoffsets : plan.layout.offsets.length = plan.shards.length := List.length_map _
  have hoffset : ∀ i (hi : i < plan.layout.offsets.length) (hi' : i < plan.shards.length),
      plan.layout.offsets[i] = (plan.shards[i]).offset := fun i hi hi' => List.getElem_map _
  exact {
    revision := hplan.revision
    source := {
      name := hname
      sha256 := hhex _
      headerSha256 := hhex _
      dataStart_ge := by
        show 8 ≤ front.dataStart
        rw [hstart]
        exact hplan.source.dataStart_ge
      dataStart_le := by
        show front.dataStart ≤ 8 + maxHeaderBytes
        rw [hstart]
        exact hplan.source.dataStart_le
      dataStart_lt := by
        show front.dataStart < file.content.length
        rw [hstart, hsize]
        exact hplan.source.dataStart_lt
      size_le := by
        show file.content.length ≤ maxTableBytes
        rw [hsize]
        exact hplan.source.size_le }
    tensorPrefix := hplan.tensorPrefix
    shardCount := hplan.shardCount
    rowsPerShard := hplan.rowsPerShard
    rowWidth := hplan.rowWidth
    geometry := hplan.geometry
    table := ⟨rfl, rfl, rfl, rfl, hhex _⟩
    scale := {
      name_eq := rfl
      size_eq := rfl
      start := by
        show front.dataStart ≤ plan.scale.offset
        rw [hstart]
        exact hplan.scale.start
      stop := by
        show plan.scale.offset + 2 ≤ file.content.length
        rw [hsize]
        exact hplan.scale.stop
      sha256 := hhex _ }
    length_shards := by
      rw [hshards, hoffsets]
      exact hlength
    shards := by
      intro i hi
      have hi' : i < plan.layout.offsets.length := by omega
      have hin : i < plan.shards.length := by omega
      obtain ⟨-, hsegment⟩ := hplan.shards i hin
      rw [hget i hi hi', hoffset i hi' hin]
      refine ⟨rfl, rfl, rfl, ?_, ?_, hhex _⟩
      · show front.dataStart ≤ (plan.shards[i]).offset
        rw [hstart]
        exact hsegment.start
      · show (plan.shards[i]).offset + plan.rowsPerShard * plan.rowWidth ≤ file.content.length
        rw [hsize]
        exact hsegment.stop
    apart := by
      have hspans : ((planOf sha256 plan.geometry name file.content front plan.layout).shards.map
            (·.toSegment)).map (fun s => (s.offset, s.offset + s.size)) =
          (plan.shards.map (·.toSegment)).map fun s => (s.offset, s.offset + s.size) := by
        refine List.ext_getElem (by simp only [List.length_map]; omega) fun i hi hi' => ?_
        simp only [List.length_map] at hi hi'
        rw [List.getElem_map, List.getElem_map, List.getElem_map, List.getElem_map,
          hget i hi (by omega), hoffset i (by omega) hi', (hplan.shards i hi').segment.size_eq]
        rfl
      have hapart := hplan.apart
      unfold sortedSpans at hapart ⊢
      rw [List.map_append] at hapart ⊢
      rw [hspans]
      have hscale : plan.scale.size = 2 := hplan.scale.size_eq
      simp only [List.map_cons, List.map_nil, hscale] at hapart
      exact hapart }

/-- For a plan that passes both, the builder delivers a plan. -/
theorem planFor_request {plan : Plan} {snapshot : Snapshot} {path : Str} {parts : List Str}
    (hhex : ∀ data, HexOf 64 (sha256 data)) (hplan : plan.Checked)
    (hagrees : sourceAgrees reader sha256 file plan = .ok snapshot)
    (hpath : pathComponents path (str "source") = .ok parts)
    (hname : safeName (basename path) = true) :
    ∃ plan', planFor reader sha256 file path plan.request = .ok plan' := by
  obtain ⟨hregular, ⟨front, entries, hfront, hfound⟩, -⟩ := sourceAgrees_ok.mp hagrees
  obtain ⟨hdir, parts', hparts'⟩ := pathComponents_dirname hpath (str "source" ++ str " parent")
  obtain ⟨-, parts'', hparts''⟩ := pathComponents_dirname hpath (str "source directory")
  have hanchored : anchored file path (str "source") = .ok path := by
    have hkind : file.stat.kind ≠ FileKind.symlink := by
      simp only [requireRegularSingleLink, bind_ok, reject_ok, decide_eq_false_iff_not] at hregular
      obtain ⟨_, hlink, -⟩ := hregular
      exact hlink
    rw [anchored, bind_ok]
    refine ⟨parts, hpath, ?_⟩
    cases parts.getLast? with
    | none => rfl
    | some last =>
      simp only [bind_ok, reject_ok, pure_ok]
      exact ⟨parts', hparts', (), decide_eq_false hkind, trivial⟩
  refine ⟨planOf sha256 plan.geometry (basename path) file.content front plan.layout, ?_⟩
  simp only [planFor, bind_ok, pure_ok]
  refine ⟨plan.geometry, checkArgs_request hplan, path, hanchored, parts'', ?_, _, ?_, _,
    validatePlan_document (hfound.checked hhex hname hplan), rfl⟩
  · rw [if_neg hdir]
    exact hparts''
  · exact derivePlan_ok.mpr ⟨hregular, hfound.sha256, hname, front, plan.layout, entries, hfront,
      hfound.holds hplan, rfl⟩

/-! ## Agreement -/

/-- Every run on the file whose calls do not fail ends with such a value. -/
abbrev Returns {α : Type} (file : SourceFile) (V : α → Prop) (p : CacheM α) : Prop :=
  Yields file False V (fun _ => False) p

theorem Computes.value {α : Type} {mayFail : Prop} {p : CacheM α} {r : Except Str α} {a : α}
    {w w' : Unit} (h : Computes file mayFail p r) (hrun : Run (file.world mayFail) p w (.value a) w') :
    r = .ok a := Meets.ends h hrun

theorem Computes.returns {α : Type} {p : CacheM α} {a : α} (h : Computes file False p (.ok a)) :
    Returns file (fun b => b = a) p := by
  refine Meets.mono h (fun b _ hb => (Except.ok.inj hb).symm) fun e _ he => ?_
  rcases he with hfail | ⟨text, -, he⟩
  · exact hfail.elim
  · cases he

/-- The plan behind a document that was built. -/
theorem planFor_of_run {mayFail : Prop} {path : Str} {args : BuildArgs} {p : Value}
    (hrun : Run (file.world mayFail) (buildPlan reader sha256 path args) () (.value p) ()) :
    ∃ plan, plan.document = p ∧ validatePlan reader.toInterp p = .ok plan ∧
      ∃ g, checkArgs reader.toInterp args = .ok g ∧
        ∃ name, derivePlan reader sha256 file name g = .ok plan := by
  have hdocument := buildPlan_computes.value hrun
  obtain ⟨plan, hplan, hp⟩ := bind_ok.mp hdocument
  obtain rfl := pure_ok.mp hp
  simp only [planFor, bind_ok, pure_ok] at hplan
  obtain ⟨g, hg, path', -, _, -, plan', hderived, plan'', hvalid, rfl⟩ := hplan
  obtain rfl := validatePlan_read hvalid
  exact ⟨_, rfl, hvalid, g, hg, _, hderived⟩

/-- What the builder delivers passes the validator, which reads it back, and the verifier.  What
passes both for a file takes from it what the builder would, and the builder would deliver it
wherever the file has a path and a name that it accepts. -/
theorem plan_agreement (reader : Reader) (sha256 : Bytes → Str)
    (hhex : ∀ data, HexOf 64 (sha256 data)) (file : SourceFile) (mayFail : Prop) :
    (∀ path args p,
      Run (file.world mayFail) (buildPlan reader sha256 path args) () (.value p) () →
      ∃ plan, plan.document = p ∧ validatePlan reader.toInterp p = .ok plan ∧
        ∀ fd, Returns file (fun s => s = file.stat.snapshot) (verifySource reader sha256 fd plan)) ∧
    ∀ q plan fd snapshot, validatePlan reader.toInterp q = .ok plan →
      Run (file.world mayFail) (verifySource reader sha256 fd plan) () (.value snapshot) () →
      (∀ path (args : BuildArgs) p, args.AsksFor plan →
        Run (file.world mayFail) (buildPlan reader sha256 path args) () (.value p) () →
        ∃ plan', validatePlan reader.toInterp p = .ok plan' ∧ plan.SameSource plan') ∧
      ∀ path parts, pathComponents path (str "source") = .ok parts →
        safeName (basename path) = true →
        Returns file
          (fun p => ∃ plan', validatePlan reader.toInterp p = .ok plan' ∧ plan.SameSource plan')
          (buildPlan reader sha256 path plan.request) := by
  have hsame : ∀ {q plan snapshot}, validatePlan reader.toInterp q = .ok plan →
      sourceAgrees reader sha256 file plan = .ok snapshot → ∀ {args : BuildArgs} {g name plan'},
      args.AsksFor plan → checkArgs reader.toInterp args = .ok g →
      derivePlan reader sha256 file name g = .ok plan' → plan.SameSource plan' := by
    intro q plan snapshot hvalid hagrees args g name plan' hasks hargs hderived
    obtain ⟨hstem, hcount, -, -⟩ := checkArgs_ok hargs
    refine derived_same (validatePlan_checked hvalid) hagrees ?_ ?_ hderived
    · exact str_inj (hasks.tensorPrefix.symm.trans hstem)
    · exact int_inj (hasks.shardCount.symm.trans hcount)
  constructor
  · intro path args p hrun
    obtain ⟨plan, hp, hvalid, g, -, name, hderived⟩ := planFor_of_run hrun
    refine ⟨plan, hp, hvalid, fun fd => Computes.returns ?_⟩
    rw [← derived_agrees hderived]
    exact verifySource_computes
  · intro q plan fd snapshot hvalid hverified
    have hagrees := verifySource_computes.value hverified
    constructor
    · intro path args p hasks hrun
      obtain ⟨plan', -, hvalid', g, hargs, name, hderived⟩ := planFor_of_run hrun
      exact ⟨plan', hvalid', hsame hvalid hagrees hasks hargs hderived⟩
    · intro path parts hpath hname
      have hchecked := validatePlan_checked hvalid
      obtain ⟨plan', hplan'⟩ := planFor_request hhex hchecked hagrees hpath hname
      have hbuild : Computes file False (buildPlan reader sha256 path plan.request)
          (.ok plan'.document) := by
        have h : Computes file False (buildPlan reader sha256 path plan.request) (do
            let built ← planFor reader sha256 file path plan.request
            return built.document) := buildPlan_computes
        rw [hplan'] at h
        exact h
      refine Yields.mono hbuild.returns fun p hp => ?_
      subst hp
      simp only [planFor, bind_ok, pure_ok] at hplan'
      obtain ⟨g, hargs, _, -, _, -, built, hderived, read, hread, rfl⟩ := hplan'
      obtain rfl := validatePlan_read hread
      exact ⟨_, hread, hsame hvalid hagrees ⟨rfl, rfl, rfl, rfl⟩ hargs hderived⟩

end

/-! ## A file -/

def bytesOf (s : String) : Bytes := (str s).map UInt8.ofNat

@[irreducible] def sampleHeader : Bytes :=
  bytesOf ("\x7b\"p.weight_scale\":\x7b\"dtype\":\"BF16\",\"shape\":[1],\"data_offsets\":[0,2]\x7d," ++
    "\"p.shard_0.weight\":\x7b\"dtype\":\"F8_E4M3\",\"shape\":[1,1],\"data_offsets\":[2,3]\x7d\x7d")

/-- A scale of one and a table of one row and one column. -/
def sampleContent : Bytes := [142, 0, 0, 0, 0, 0, 0, 0] ++ sampleHeader ++ [0x80, 0x3f, 0x38]

def sampleSource : SourceFile where
  stat := ⟨1, 2, 153, 3, 4, .regular, 1, 1000, 0o600⟩
  content := sampleContent
  size_eq := by decide +kernel

/-- What the scanner reads of the entry of a tensor. -/
def sampleRaw (name dtype : String) (shape : List Raw) (start stop : Int) : Str × Raw :=
  (str name, .obj [(str "dtype", .str (str dtype)), (str "shape", .arr shape),
    (str "data_offsets", .arr [.int start, .int stop])])

/-- `json.loads` on the header, and a refusal of everything else. -/
def sampleReader : Reader where
  repr _ := []
  typeName _ := []
  scan raw :=
    if raw = sampleHeader then
      (.obj [sampleRaw "p.weight_scale" "BF16" [.int 1] 0 2,
        sampleRaw "p.shard_0.weight" "F8_E4M3" [.int 1, .int 1] 2 3], none)
    else (.broken (str "Expecting value"), none)

/-- SHA-256 of the file, of its header and of the two tensors. -/
@[irreducible] def sampleSha256 (data : Bytes) : Str :=
  if data = sampleContent then
    str "0e154476b5593bfdc0bdd58da30cfdfd34a0c7f97e022ca257b3a14c2ac94ca1"
  else if data = sampleHeader then
    str "f2783dbf15e65f7672bb098db847ee23b25e1111353e8cf48b5e88590d0b3ecc"
  else if data = [0x38] then
    str "2c624232cdd221771294dfbb310aca000a0df6ac8b66b696d90ef06fdefb64a3"
  else
    str "b9c205bdac187f20bf876cea369cb6032ad1bf69043b31d716b36b8defbffdf2"

theorem hexOf_sampleSha256 (data : Bytes) : HexOf 64 (sampleSha256 data) := by
  unfold sampleSha256 HexOf
  split
  · decide
  split
  · decide
  split
  · decide
  · decide

def samplePlanOf : Plan where
  revision := List.replicate 40 48
  source := ⟨str "elsewhere.safetensors", 153, sampleSha256 sampleContent,
    sampleSha256 sampleHeader, 150⟩
  tensorPrefix := str "p"
  shardCount := 1
  rowsPerShard := 1
  rowWidth := 1
  table := ⟨tableFilename 1 1 1, 1, 1, 1, sampleSha256 [0x38]⟩
  scale := ⟨str "p.weight_scale", 150, 2, sampleSha256 [0x80, 0x3f]⟩
  shards := [⟨⟨shardTensorName (str "p") 0, 152, 1, sampleSha256 [0x38]⟩, 0⟩]

theorem samplePlanOf_checked : samplePlanOf.Checked where
  revision := by unfold HexOf; decide
  source := {
    name := by decide
    sha256 := hexOf_sampleSha256 sampleContent
    headerSha256 := hexOf_sampleSha256 sampleHeader
    dataStart_ge := by decide
    dataStart_le := by decide
    dataStart_lt := by decide
    size_le := by decide }
  tensorPrefix := ⟨by decide, by decide⟩
  shardCount := by decide
  rowsPerShard := by decide
  rowWidth := by decide
  geometry := by decide
  table := ⟨rfl, rfl, rfl, rfl, hexOf_sampleSha256 [0x38]⟩
  scale := ⟨by decide, rfl, by decide, by decide,
    hexOf_sampleSha256 [0x80, 0x3f]⟩
  length_shards := rfl
  shards := by
    intro i hi
    obtain rfl : i = 0 := Nat.lt_one_iff.mp hi
    have hrange : 150 ≤ 152 ∧ 152 + 1 * 1 ≤ 153 := by decide
    exact ⟨rfl, rfl, rfl, hrange.1, hrange.2, hexOf_sampleSha256 [0x38]⟩
  apart := by
    have hsort : sortedSpans (samplePlanOf.shards.map (·.toSegment) ++ [samplePlanOf.scale]) =
        [(150, 152), (152, 153)] := by
      simp [sortedSpans, samplePlanOf, List.mergeSort]
    rw [hsort]
    decide

def sampleFields : Fields :=
  [(str "p.weight_scale", .dict [(str "dtype", .str (str "BF16")),
      (str "shape", .list [.int 1]), (str "data_offsets", .list [.int 0, .int 2])]),
    (str "p.shard_0.weight", .dict [(str "dtype", .str (str "F8_E4M3")),
      (str "shape", .list [.int 1, .int 1]), (str "data_offsets", .list [.int 2, .int 3])])]

def sampleEntries : List (Str × Entry) :=
  [(str "p.weight_scale", ⟨str "BF16", [1], 0, 2⟩),
    (str "p.shard_0.weight", ⟨str "F8_E4M3", [1, 1], 2, 3⟩)]

theorem sampleHeader_sha256 : sampleSha256 sampleHeader = samplePlanOf.source.headerSha256 := by
  rw [samplePlanOf]

theorem sampleContent_sha256 : sampleSha256 sampleSource.content = samplePlanOf.source.sha256 := by
  rw [samplePlanOf, sampleSource]

theorem sampleSource_agrees :
    sourceAgrees sampleReader sampleSha256 sampleSource samplePlanOf =
      .ok sampleSource.stat.snapshot := by
  refine sourceAgrees_ok.mpr ⟨rfl, ⟨⟨sampleFields, sampleHeader, 150⟩, sampleEntries, ?_, ?_⟩, rfl⟩
  · decide +kernel
  · exact {
      size := by decide +kernel
      headerSha256 := sampleHeader_sha256
      dataStart := rfl
      entries_ok := by
        simp only [checkHeaderGlobal, bind_ok, pure_ok]
        refine ⟨sampleEntries, by decide +kernel, (), ?_, rfl⟩
        rw [List.mergeSort_of_pairwise (by decide)]
        rfl
      names := by decide
      shards := by
        intro shard hshard
        obtain rfl := List.mem_singleton.mp hshard
        exact ⟨⟨str "F8_E4M3", [1, 1], 2, 3⟩, by decide, rfl, rfl, rfl, rfl⟩
      scale := ⟨⟨str "BF16", [1], 0, 2⟩, by decide, rfl, rfl, rfl, rfl⟩
      sha256 := sampleContent_sha256 }

/-- The verifier accepts the file. -/
theorem verifySource_sample :
    Run (sampleSource.world False) (verifySource sampleReader sampleSha256 0 samplePlanOf) ()
      (.value sampleSource.stat.snapshot) () := by
  have hverify : Computes sampleSource False (verifySource sampleReader sampleSha256 0 samplePlanOf)
      (.ok sampleSource.stat.snapshot) := by
    rw [← sampleSource_agrees]
    exact verifySource_computes
  obtain ⟨o, w, hrun⟩ := (Meets.guarded hverify.returns).exists_run
  have hends := Meets.ends hverify.returns hrun
  cases o with
  | value snapshot =>
    obtain rfl : snapshot = sampleSource.stat.snapshot := hends
    exact hrun
  | raised e =>
    rcases hends with hfail | ⟨_, -, h⟩
    · exact hfail.elim
    · exact h.elim
  | cut => exact hends.elim

/-- The builder delivers a plan for the file, with the ranges of the one that was verified. -/
theorem plan_agreement_sample :
    Returns sampleSource
      (fun p => ∃ plan, validatePlan sampleReader.toInterp p = .ok plan ∧
        samplePlanOf.SameSource plan)
      (buildPlan sampleReader sampleSha256 (str "/data/ple.safetensors") samplePlanOf.request) := by
  have hvalid : validatePlan sampleReader.toInterp samplePlanOf.document = .ok samplePlanOf :=
    validatePlan_document samplePlanOf_checked
  obtain ⟨-, hconverse⟩ := plan_agreement sampleReader sampleSha256 hexOf_sampleSha256 sampleSource
    False
  obtain ⟨-, hbuilds⟩ := hconverse samplePlanOf.document samplePlanOf 0 sampleSource.stat.snapshot
    hvalid verifySource_sample
  exact hbuilds (str "/data/ple.safetensors") [str "data", str "ple.safetensors"]
    (by decide) (by decide)

end Ple
end FlashNext
