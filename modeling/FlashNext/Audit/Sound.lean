import FlashNext.Audit.Admission
import FlashNext.Audit.Names

/-!
# What an admission establishes

One lemma for each check says what holds when it passes.  The keys of every object are distinct
because the strict reader refuses repeated ones, so the index has one shard for each tensor.
-/

namespace FlashNext
namespace Audit

open Py (Str Value str)

/-! ## Distinct keys -/

theorem noDuplicateKeys_ok {seen pairs out : Fields} (hseen : (seen.map (·.1)).Nodup)
    (h : noDuplicateKeys seen pairs = .ok out) :
    out = seen ++ pairs ∧ (out.map (·.1)).Nodup := by
  induction pairs generalizing seen with
  | nil =>
    obtain rfl := Except.ok.inj h
    exact ⟨(List.append_nil _).symm, hseen⟩
  | cons pair pairs ih =>
    obtain ⟨key, value⟩ := pair
    rw [noDuplicateKeys] at h
    by_cases hkey : (seen.any fun f => f.1 == key) = true
    · rw [if_pos hkey] at h
      cases h
    · rw [if_neg hkey] at h
      have hnew : ((seen ++ [(key, value)]).map (·.1)).Nodup := by
        rw [List.map_append, List.nodup_append]
        refine ⟨hseen, List.nodup_singleton _, ?_⟩
        intro a ha b hb hab
        obtain ⟨f, hf, rfl⟩ := List.mem_map.mp ha
        rw [List.map_singleton, List.mem_singleton] at hb
        exact hkey (List.any_eq_true.mpr ⟨f, hf, beq_iff_eq.mpr (hab.trans hb)⟩)
      obtain ⟨rfl, hnodup⟩ := ih hnew h
      exact ⟨by rw [List.append_assoc]; rfl, hnodup⟩

theorem hooked_dict {raw : Raw} {fields : Fields} (h : hooked raw = .ok (.dict fields)) :
    ∃ items, raw = .obj items ∧ hookedFields items = .ok fields ∧ (fields.map (·.1)).Nodup := by
  cases raw with
  | obj items =>
    simp only [hooked, Effect.bind_ok, Effect.pure_ok] at h
    obtain ⟨pairs, hpairs, seen, hseen, heq⟩ := h
    have hempty : (([] : Fields).map (·.1)).Nodup := List.nodup_nil
    obtain ⟨rfl, hnodup⟩ := noDuplicateKeys_ok hempty hseen
    obtain rfl := Value.dict.inj heq
    exact ⟨items, rfl, hpairs, hnodup⟩
  | real q =>
    rw [hooked, Effect.map_ok] at h
    obtain ⟨_, -, heq⟩ := h
    cases heq
  | arr items =>
    rw [hooked, Effect.map_ok] at h
    obtain ⟨_, -, heq⟩ := h
    cases heq
  | _ =>
    rw [hooked] at h
    cases h

/-- What stands in an object went through the hooks itself. -/
theorem hookedFields_mem {items : List (Str × Raw)} {fields : Fields}
    (h : hookedFields items = .ok fields) {f : Str × Value} (hf : f ∈ fields) :
    ∃ raw, hooked raw = .ok f.2 := by
  induction items generalizing fields with
  | nil =>
    obtain rfl := Except.ok.inj h
    cases hf
  | cons item items ih =>
    obtain ⟨key, raw⟩ := item
    simp only [hookedFields, Effect.bind_ok, Effect.pure_ok] at h
    obtain ⟨value, hvalue, values, hvalues, rfl⟩ := h
    rcases List.mem_cons.mp hf with rfl | hf
    · exact ⟨raw, hvalue⟩
    · exact ih hvalues hf

theorem strictJsonLoads_ok {scan : Option Raw} {label : List Part} {v : Value}
    (h : strictJsonLoads scan label = .ok v) : ∃ raw, hooked raw = .ok v := by
  simp only [strictJsonLoads, Effect.bind_ok, orReject_ok] at h
  obtain ⟨raw, -, hraw⟩ := h
  exact ⟨raw, hraw⟩

theorem readJson_ok {doc : Document} {label : String} {v : Value}
    (h : readJson doc label = .ok v) : ∃ raw, hooked raw = .ok v := by
  simp only [readJson, Effect.bind_ok] at h
  obtain ⟨-, -, -, -, -, -, -, -, hloads⟩ := h
  exact strictJsonLoads_ok hloads

/-! ## The index -/

theorem indexClaim_ok {claim : Str × Value} {out : Str × Str} (h : indexClaim claim = .ok out) :
    out.1 = claim.1 := by
  simp only [indexClaim, Effect.bind_ok, Effect.pure_ok] at h
  obtain ⟨-, -, -, -, rfl⟩ := h
  rfl

/-- The counts are those of the index, and it claims no tensor twice. -/
theorem deriveIndexFacts_ok {index : Value} {c : Contract} {facts : IndexFacts}
    (hindex : ∃ raw, hooked raw = .ok index) (h : deriveIndexFacts index c = .ok facts) :
    (facts.weightMap.map (·.1)).Nodup ∧
      (facts.weightMap.countP fun claim => (matches? pleShardKey claim.1).isSome) =
        c.ple.shardCount := by
  simp only [deriveIndexFacts, Effect.bind_ok, orReject_ok, Effect.pure_ok,
    Value.asDict?_eq_some] at h
  obtain ⟨fields, rfl, _, hlookup, claims, rfl, weightMap, hmap, -, -, -, -, _, hcount, -, -,
    rfl⟩ := h
  obtain ⟨raw, hraw⟩ := hindex
  obtain ⟨items, -, hitems, -⟩ := hooked_dict hraw
  obtain ⟨f, hfind, hf⟩ := Option.map_eq_some_iff.mp hlookup
  obtain ⟨raw', hraw'⟩ := hookedFields_mem hitems (List.mem_of_find?_eq_some hfind)
  rw [hf] at hraw'
  obtain ⟨-, -, -, hnodup⟩ := hooked_dict hraw'
  have hkeys : weightMap.map (·.1) = claims.map (·.1) :=
    Effect.mapM_map_eq (fun _ _ hclaim => indexClaim_ok hclaim) hmap
  refine ⟨?_, ?_⟩
  · show (weightMap.map (·.1)).Nodup
    rw [hkeys]
    exact hnodup
  · rw [checkCount, rejectIf_ok, bne_eq_false_iff_eq] at hcount
    exact hcount

/-! ## The headers -/

theorem tensorEntry_ok {shard : Str} {f : Str × Value} {out : Str × Tensor}
    (h : tensorEntry shard f = .ok out) : out.1 = f.1 := by
  simp only [tensorEntry, Effect.bind_ok, Effect.pure_ok] at h
  obtain ⟨-, -, -, -, _, -, rfl⟩ := h
  rfl

theorem auditShard_ok {shard : Shard} {out : ShardReport × Header}
    (h : auditShard shard = .ok out) :
    out.1.name = shard.name ∧ (out.2.map (·.1)).Nodup := by
  simp only [auditShard, Effect.bind_ok, orReject_ok, Effect.pure_ok, Value.asDict?_eq_some] at h
  obtain ⟨-, -, -, -, -, -, -, -, -, -, -, -, -, -, -, -, _, hloads, fields, rfl, header, hheader,
    -, -, rfl⟩ := h
  obtain ⟨raw, hraw⟩ := strictJsonLoads_ok hloads
  obtain ⟨-, -, -, hnodup⟩ := hooked_dict hraw
  refine ⟨rfl, ?_⟩
  rw [Effect.mapM_map_eq (fun _ _ hentry => tensorEntry_ok hentry) hheader]
  exact (List.filter_sublist.map _).nodup hnodup

/-- The headers that the audit reads. -/
def Directory.headers (dir : Directory) : Headers :=
  dir.shards.filterMap fun shard => (auditShard shard).toOption.map fun out => (shard.name, out.2)

theorem Directory.shards_nodup (dir : Directory) : (dir.shards.map (·.name)).Nodup := by
  have hperm := (List.mergeSort_perm (dir.entries.filter fun entry =>
    (str ".safetensors").isSuffixOf entry.name) fun a b => decide (a.name ≤ b.name)).map (·.name)
  exact hperm.nodup_iff.mpr ((List.filter_sublist.map _).nodup dir.distinct)

theorem auditSafetensorsHeaders_ok {dir : Directory} {report : HeadersReport}
    (h : auditSafetensorsHeaders dir = .ok report) :
    report.headers = dir.headers ∧ (report.headers.map (·.1)).Nodup ∧
      ∀ header ∈ report.headers, (header.2.map (·.1)).Nodup := by
  simp only [auditSafetensorsHeaders, Effect.bind_ok, Effect.pure_ok] at h
  obtain ⟨audited, haudited, rfl⟩ := h
  refine ⟨?_, ?_, ?_⟩
  · have hall := Effect.mapM_ok.mp haudited
    show audited.map (fun shard => (shard.1.name, shard.2)) = dir.headers
    unfold Directory.headers
    generalize dir.shards = shards at hall
    clear haudited
    induction hall with
    | nil => rfl
    | cons hshard _ ih =>
      rw [List.map_cons, List.filterMap_cons, hshard, ih, (auditShard_ok hshard).1]
      rfl
  · have hnames := Effect.mapM_map_eq (fun _ _ hshard => (auditShard_ok hshard).1) haudited
    show ((audited.map fun shard => (shard.1.name, shard.2)).map (·.1)).Nodup
    rw [List.map_map]
    exact hnames ▸ dir.shards_nodup
  · intro header hheader
    obtain ⟨out, hout, rfl⟩ := List.mem_map.mp hheader
    obtain ⟨shard, -, hshard⟩ := Effect.forall₂_exists_left (Effect.mapM_ok.mp haudited) out hout
    exact (auditShard_ok hshard).2

end Audit
end FlashNext
