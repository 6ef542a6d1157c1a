import FlashNext.Ple.Agree
import FlashNext.Spans.Neighbours

/-!
# Ranges that do not meet

The validator of a plan and the reader of a header each sort their ranges and compare the
neighbours.  No two ranges of what they let through meet.
-/

namespace FlashNext
namespace Ple

open Effect
open Py (Str Value str)
open Spans

/-! ## Plans -/

/-- The range of a segment in the source. -/
def Segment.range (s : Segment) : Nat × Nat := (s.offset, s.offset + s.size)

/-- The ranges of the shards and of the scale. -/
def Plan.ranges (plan : Plan) : List (Nat × Nat) :=
  plan.shards.map (·.range) ++ [plan.scale.range]

theorem spansApart_iff {spans : List (Nat × Nat)} : spansApart spans = true ↔ Neighbourly spans := by
  induction spans with
  | nil => simp [spansApart, Neighbourly]
  | cons a spans ih =>
    cases spans with
    | nil => simp [spansApart, Neighbourly]
    | cons b spans => simp [spansApart, Neighbourly, ih]

theorem ranges_eq (plan : Plan) :
    plan.ranges = (plan.shards.map (·.toSegment) ++ [plan.scale]).map Segment.range := by
  simp [Plan.ranges]

theorem Plan.Checked.ranges_apart {plan : Plan} (h : plan.Checked) :
    plan.ranges.Pairwise Apart := by
  have hsorted : (sortedSpans (plan.shards.map (·.toSegment) ++ [plan.scale])).Perm
      plan.ranges := by
    rw [ranges_eq]
    exact List.mergeSort_perm _ _
  apply pairwise_of_arranged hsorted (spansApart_iff.mp h.apart)
  intro span hspan
  rw [ranges_eq] at hspan
  obtain ⟨s, _, rfl⟩ := List.mem_map.mp hspan
  show s.offset ≤ s.offset + s.size
  omega

theorem Segment.Checked.inside {source : Source} {name : Str} {size : Nat} {segment : Segment}
    (h : segment.Checked source name size) :
    source.dataStart ≤ segment.range.1 ∧ segment.range.1 ≤ segment.range.2 ∧
      segment.range.2 ≤ source.size := by
  have hstart := h.start
  have hstop := h.stop
  have hsize := h.size_eq
  unfold Segment.range
  omega

theorem Plan.Checked.ranges_inside {plan : Plan} (h : plan.Checked) {range : Nat × Nat}
    (hrange : range ∈ plan.ranges) : plan.source.dataStart ≤ range.1 ∧ range.1 ≤ range.2 ∧
      range.2 ≤ plan.source.size := by
  rw [Plan.ranges, List.mem_append, List.mem_map] at hrange
  cases hrange with
  | inl hshard =>
    obtain ⟨shard, hshard, rfl⟩ := hshard
    obtain ⟨i, hi, rfl⟩ := List.mem_iff_getElem.mp hshard
    exact (h.shards i hi).segment.inside
  | inr hscale =>
    rw [List.mem_singleton.mp hscale]
    exact h.scale.inside

/-- The guard that divides keeps the product in range. -/
theorem Plan.Checked.table_fits {plan : Plan} (h : plan.Checked) :
    plan.table.size ≤ maxTableBytes := by
  rw [h.table.size_eq]
  exact (Nat.le_div_iff_mul_le h.rowWidth.1).mp h.geometry

/-! ## Headers -/

/-- The tensors of a header. -/
def tensorsOf (header : Fields) : Fields := header.filter fun item => item.1 ≠ metadataKey

/-- The byte range that the entry of a tensor states. -/
def States (spec : Value) (start stop : Nat) : Prop :=
  ∃ fields, spec = .dict fields ∧
    Value.field fields "data_offsets" = .list [.int start, .int stop]

theorem asNat?_eq_some {v : Value} {n : Nat} : asNat? v = some n ↔ v = .int n := by
  simp only [asNat?, Option.map_eq_some_iff, Option.filter_eq_some_iff, Value.asInt?_eq_some,
    decide_eq_true_eq]
  constructor
  · intro h
    obtain ⟨k, ⟨hv, hk⟩, hn⟩ := h
    rw [hv, ← hn, Int.toNat_of_nonneg hk]
  · intro hv
    exact ⟨n, ⟨hv, by omega⟩, Int.toNat_natCast n⟩

theorem mapM_asNat?_eq_some {items : List Value} {ns : List Nat}
    (h : items.mapM asNat? = some ns) : items = ns.map fun n => .int n := by
  induction items generalizing ns with
  | nil => simp_all
  | cons item items ih =>
    rw [List.mapM_cons, Option.bind_eq_bind, Option.bind_eq_some_iff] at h
    obtain ⟨n, hn, h⟩ := h
    rw [Option.bind_eq_bind, Option.bind_eq_some_iff] at h
    obtain ⟨rest, hrest, h⟩ := h
    obtain rfl := Option.some.inj h
    rw [List.map_cons, ← asNat?_eq_some.mp hn, ← ih hrest]

theorem asOffsets?_eq_some {v : Value} {start stop : Nat}
    (h : asOffsets? v = some (start, stop)) : v = .list [.int start, .int stop] := by
  unfold asOffsets? at h
  split at h
  · next a b hitems =>
    split at h
    · cases h
      rw [Option.bind_eq_some_iff] at hitems
      obtain ⟨items, hlist, hread⟩ := hitems
      rw [Value.asList?_eq_some.mp hlist, mapM_asNat?_eq_some hread]
      rfl
    · cases h
  · cases h

section

variable {interp : Interp} {dataStart fileSize : Nat}

theorem checkHeaderEntry_states {name : Str} {spec : Value} {entry : Entry}
    (h : checkHeaderEntry interp name spec dataStart fileSize = .ok entry) :
    States spec entry.start entry.stop := by
  simp only [checkHeaderEntry, bind_ok, orRaise_ok, reject_ok, pure_ok] at h
  obtain ⟨fields, hfields, _, _, _, _, offs, hoffs, _, _, _, _, rfl⟩ := h
  exact ⟨fields, Value.asDict?_eq_some.mp hfields, asOffsets?_eq_some hoffs⟩

/-- The range of an entry in the file. -/
def Entry.range (dataStart : Nat) (entry : Entry) : Nat × Nat :=
  (dataStart + entry.start, dataStart + entry.stop)

/-- The ranges of the entries of a header. -/
def rangesOf (dataStart : Nat) (entries : List (Str × Entry)) : List (Nat × Nat) :=
  entries.map fun e => e.2.range dataStart

/-- What is known of the entry of a tensor. -/
structure Stated (dataStart fileSize : Nat) (item : Str × Value) (e : Str × Entry) : Prop where
  name : e.1 = item.1
  states : States item.2 e.2.start e.2.stop
  ordered : e.2.start ≤ e.2.stop
  inside : dataStart + e.2.stop ≤ fileSize

theorem collect_stated {header : Fields} {entries : List (Str × Entry)}
    (h : collect (checkHeaderItem interp dataStart fileSize) header = .ok entries) :
    List.Forall₂ (Stated dataStart fileSize) (tensorsOf header) entries := by
  induction header generalizing entries with
  | nil =>
    obtain rfl := Except.ok.inj h
    exact List.Forall₂.nil
  | cons item header ih =>
    simp only [collect, bind_ok, pure_ok] at h
    obtain ⟨found, hfound, rest, hrest, rfl⟩ := h
    unfold checkHeaderItem at hfound
    by_cases hkey : item.1 = metadataKey
    · rw [if_pos hkey, bind_ok] at hfound
      obtain ⟨_, _, hnone⟩ := hfound
      cases hnone
      have hskip : tensorsOf (item :: header) = tensorsOf header := by simp [tensorsOf, hkey]
      rw [hskip]
      exact ih hrest
    · rw [if_neg hkey, bind_ok] at hfound
      obtain ⟨entry, hentry, hsome⟩ := hfound
      cases hsome
      have hkeep : tensorsOf (item :: header) = item :: tensorsOf header := by
        simp [tensorsOf, hkey]
      have hbounds := checkHeaderEntry_ok hentry
      rw [hkeep]
      exact List.Forall₂.cons ⟨rfl, checkHeaderEntry_states hentry, hbounds.1, hbounds.2⟩ (ih hrest)

/-- The search for an overlap compares the neighbours. -/
theorem overlap?_eq_none {spans : List Span} :
    overlap? spans = none ↔ Neighbourly (spans.map fun s => (s.start, s.stop)) := by
  induction spans with
  | nil => simp [overlap?, Neighbourly]
  | cons a spans ih =>
    cases spans with
    | nil => simp [overlap?, Neighbourly]
    | cons b spans =>
      unfold overlap?
      by_cases hmeet : b.start < a.stop
      · have hnot : ¬ a.stop ≤ b.start := by omega
        simp [hmeet, hnot, Neighbourly]
      · have hle : a.stop ≤ b.start := by omega
        rw [if_neg hmeet, ih]
        simp [hle, Neighbourly]

theorem Stated.range_inside {item : Str × Value} {e : Str × Entry}
    (h : Stated dataStart fileSize item e) :
    dataStart ≤ (e.2.range dataStart).1 ∧ (e.2.range dataStart).1 ≤ (e.2.range dataStart).2 ∧
      (e.2.range dataStart).2 ≤ fileSize := by
  have hordered := h.ordered
  have hinside := h.inside
  unfold Entry.range
  omega

theorem rangesOf_inside {header : Fields} {entries : List (Str × Entry)}
    (h : List.Forall₂ (Stated dataStart fileSize) (tensorsOf header) entries)
    {range : Nat × Nat} (hrange : range ∈ rangesOf dataStart entries) :
    dataStart ≤ range.1 ∧ range.1 ≤ range.2 ∧ range.2 ≤ fileSize := by
  obtain ⟨e, he, rfl⟩ := List.mem_map.mp hrange
  obtain ⟨item, _, hitem⟩ := forall₂_exists_left h e he
  exact hitem.range_inside

theorem checkHeaderGlobal_stated {header : Fields} {entries : List (Str × Entry)}
    (h : checkHeaderGlobal interp header dataStart fileSize = .ok entries) :
    List.Forall₂ (Stated dataStart fileSize) (tensorsOf header) entries ∧
      (rangesOf dataStart entries).Pairwise Apart := by
  simp only [checkHeaderGlobal, bind_ok, pure_ok] at h
  obtain ⟨entries', hentries, _, hnone, rfl⟩ := h
  have hstated := collect_stated hentries
  refine ⟨hstated, ?_⟩
  let spans := entries'.map fun e =>
    Span.mk (dataStart + e.2.start) (dataStart + e.2.stop) e.1
  have hsearch : overlap? (spans.mergeSort Span.le) = none := by
    change (overlap? (spans.mergeSort Span.le)).forM _ = _ at hnone
    cases hfound : overlap? (spans.mergeSort Span.le) with
    | none => rfl
    | some names =>
      rw [hfound] at hnone
      cases hnone
  have hperm : ((spans.mergeSort Span.le).map fun s => (s.start, s.stop)).Perm
      (rangesOf dataStart entries') := by
    have hmap := (List.mergeSort_perm spans Span.le).map fun s => (s.start, s.stop)
    simpa [spans, rangesOf, Entry.range, Function.comp_def] using hmap
  apply pairwise_of_arranged hperm (overlap?_eq_none.mp hsearch)
  intro range hrange
  exact (rangesOf_inside hstated hrange).2.1

end

/-! ## What is let through -/

/-- The shards and the scale of a plan, and the tensors of a header, have ranges inside the data
region of which no two meet, and the table of a plan has the size of its geometry. -/
theorem ranges_disjoint (interp : Interp) :
    (∀ v plan, validatePlan interp v = .ok plan →
      plan.ranges.Pairwise Apart ∧
      (∀ range ∈ plan.ranges, plan.source.dataStart ≤ range.1 ∧ range.1 ≤ range.2 ∧
        range.2 ≤ plan.source.size) ∧
      plan.table.size = plan.shardCount * plan.rowsPerShard * plan.rowWidth ∧
      plan.table.size ≤ 2 ^ 63 - 1) ∧
    (∀ header dataStart fileSize entries,
      checkHeaderGlobal interp header dataStart fileSize = .ok entries →
      List.Forall₂ (fun item e => e.1 = item.1 ∧ States item.2 e.2.start e.2.stop)
        (tensorsOf header) entries ∧
      (rangesOf dataStart entries).Pairwise Apart ∧
      ∀ range ∈ rangesOf dataStart entries, dataStart ≤ range.1 ∧ range.1 ≤ range.2 ∧
        range.2 ≤ fileSize) := by
  constructor
  · intro v plan h
    have hplan := validatePlan_checked h
    refine ⟨hplan.ranges_apart, ?_, hplan.table.size_eq, hplan.table_fits⟩
    intro range hrange
    exact hplan.ranges_inside hrange
  · intro header dataStart fileSize entries h
    obtain ⟨hstated, hapart⟩ := checkHeaderGlobal_stated h
    refine ⟨?_, hapart, ?_⟩
    · exact hstated.imp fun item e he => ⟨he.name, he.states⟩
    · intro range hrange
      exact rangesOf_inside hstated hrange

theorem ranges_disjoint_sample :
    samplePlanOf.ranges.Pairwise Apart ∧ (rangesOf 150 sampleEntries).Pairwise Apart := by
  have hheader : checkHeaderGlobal sampleReader.toInterp sampleFields 150 153 =
      .ok sampleEntries := by
    simp only [checkHeaderGlobal, bind_ok, pure_ok]
    refine ⟨sampleEntries, by decide +kernel, (), ?_, rfl⟩
    rw [List.mergeSort_of_pairwise (by decide)]
    rfl
  have hplan : validatePlan sampleReader.toInterp samplePlanOf.document = .ok samplePlanOf :=
    validatePlan_document samplePlanOf_checked
  exact ⟨((ranges_disjoint sampleReader.toInterp).1 _ _ hplan).1,
    ((ranges_disjoint sampleReader.toInterp).2 _ _ _ _ hheader).2.1⟩

end Ple
end FlashNext
