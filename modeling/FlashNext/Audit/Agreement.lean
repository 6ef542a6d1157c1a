import FlashNext.Audit.Family

/-!
# Index and headers

The index and the headers agree when the index is the map from every tensor to the one shard that
carries it.  The loop over the index looks each claim up and the loop over the shards compares
sets, and together they decide that.
-/

namespace FlashNext
namespace Audit

open Py (Str str)

section

variable {α : Type} {headers : List (Str × List (Str × α))} {weightMap : WeightMap}

theorem mem_headerNames {header : List (Str × α)} {name : Str} :
    name ∈ headerNames header ↔ name ∈ header.map (·.1) ∧ name ≠ str metadataKey := by
  rw [headerNames, List.mem_filter, bne_iff_ne]

theorem mem_claimsOf {shard name : Str} :
    name ∈ claimsOf weightMap shard ↔ (name, shard) ∈ weightMap := by
  rw [claimsOf, List.mem_map]
  constructor
  · rintro ⟨claim, hclaim, hname⟩
    obtain ⟨hmem, hshard⟩ := List.mem_filter.mp hclaim
    rw [← hname, ← eq_of_beq hshard]
    exact hmem
  · intro hmem
    exact ⟨(name, shard), List.mem_filter.mpr ⟨hmem, beq_self_eq_true _⟩, rfl⟩

/-- A claim passes when a shard of its name is there and carries the tensor. -/
theorem checkClaim_ok {claim : Str × Str} {u : Unit} :
    checkClaim headers claim = .ok u ↔ safeRelpath claim.2 = true ∧
      ∃ header, headers.find? (fun h => h.1 == claim.2) = some header ∧
        claim.1 ∈ headerNames header.2 := by
  simp only [checkClaim, Effect.bind_ok, rejectIf_ok, orReject_ok, Bool.not_eq_false',
    Option.map_eq_some_iff, List.contains_iff_mem]
  constructor
  · rintro ⟨_, hsafe, _, ⟨header, hfind, heq⟩, hname⟩
    rw [← heq] at hname
    exact ⟨hsafe, header, hfind, hname⟩
  · rintro ⟨hsafe, header, hfind, hname⟩
    exact ⟨u, hsafe, header.2, ⟨header, hfind, rfl⟩, hname⟩

theorem checkClaimed_ok {header : Str × List (Str × α)} {u : Unit} :
    checkClaimed weightMap header = .ok u ↔
      ∀ name, name ∈ headerNames header.2 ↔ (name, header.1) ∈ weightMap := by
  rw [checkClaimed, rejectIf_ok, Bool.not_eq_false', Bool.and_eq_true, List.isEmpty_iff,
    List.filter_eq_nil_iff, List.all_eq_true]
  simp only [Bool.not_eq_true', Bool.not_eq_false, List.contains_iff_mem, mem_claimsOf]
  constructor
  · rintro ⟨hnames, hclaims⟩ name
    exact ⟨hnames name, hclaims name⟩
  · intro h
    exact ⟨fun name => (h name).mp, fun name => (h name).mpr⟩

/-- The index maps every tensor to the shard that carries it, and nothing else. -/
structure Agrees (headers : List (Str × List (Str × α))) (weightMap : WeightMap) : Prop where
  claimed : ∀ name, name ≠ str metadataKey → ∀ header ∈ headers,
    ((name, header.1) ∈ weightMap ↔ name ∈ header.2.map (·.1))
  present : ∀ claim ∈ weightMap, claim.2 ∈ headers.map (·.1)
  tensors : str metadataKey ∉ weightMap.map (·.1)

/-- No tensor is carried by two shards. -/
theorem Agrees.existsUnique (h : Agrees headers weightMap)
    (hshards : (headers.map (·.1)).Nodup) (hkeys : (weightMap.map (·.1)).Nodup) {name : Str}
    (hname : name ≠ str metadataKey) (hcarried : ∃ header ∈ headers, name ∈ header.2.map (·.1)) :
    ∃! header, header ∈ headers ∧ name ∈ header.2.map (·.1) := by
  obtain ⟨header, hheader, hmem⟩ := hcarried
  refine ⟨header, ⟨hheader, hmem⟩, ?_⟩
  rintro other ⟨hother, hmem'⟩
  have hclaim := (h.claimed name hname header hheader).mpr hmem
  have hclaim' := (h.claimed name hname other hother).mpr hmem'
  have hshard := congrArg Prod.snd (List.inj_on_of_nodup_map hkeys hclaim' hclaim rfl)
  exact List.inj_on_of_nodup_map hshards hother hheader hshard

/-- The two loops accept exactly the indices that agree with the headers. -/
theorem validateIndexHeaderAgreement_ok (hshards : (headers.map (·.1)).Nodup)
    (hsafe : ∀ claim ∈ weightMap, safeRelpath claim.2 = true) {u : Unit} :
    validateIndexHeaderAgreement headers weightMap = .ok u ↔ Agrees headers weightMap := by
  simp only [validateIndexHeaderAgreement, Effect.bind_ok, Effect.forM_ok, checkClaim_ok,
    checkClaimed_ok]
  constructor
  · rintro ⟨_, hclaims, hheaders⟩
    refine ⟨?_, ?_, ?_⟩
    · intro name hname header hheader
      rw [← hheaders header hheader name, mem_headerNames]
      exact and_iff_left hname
    · intro claim hclaim
      obtain ⟨_, header, hfind, _⟩ := hclaims claim hclaim
      have hshard : (header.1 == claim.2) = true :=
        List.find?_some (p := fun h : Str × List (Str × α) => h.1 == claim.2) hfind
      rw [← eq_of_beq hshard]
      exact List.mem_map_of_mem (List.mem_of_find?_eq_some hfind)
    · intro hmem
      obtain ⟨claim, hclaim, hkey⟩ := List.mem_map.mp hmem
      obtain ⟨_, header, _, hname⟩ := hclaims claim hclaim
      exact (mem_headerNames.mp hname).2 hkey
  · intro h
    have hnames : ∀ header ∈ headers, ∀ name,
        name ∈ headerNames header.2 ↔ (name, header.1) ∈ weightMap := by
      intro header hheader name
      rw [mem_headerNames]
      constructor
      · rintro ⟨hmem, hname⟩
        exact (h.claimed name hname header hheader).mpr hmem
      · intro hclaim
        have hname : name ≠ str metadataKey := fun heq =>
          h.tensors (heq ▸ List.mem_map_of_mem hclaim)
        exact ⟨(h.claimed name hname header hheader).mp hclaim, hname⟩
    refine ⟨u, ?_, hnames⟩
    intro claim hclaim
    obtain ⟨header, hheader, hshard⟩ := List.mem_map.mp (h.present claim hclaim)
    refine ⟨hsafe claim hclaim, header, ?_, ?_⟩
    · -- the first header of that name is the only one
      have hsome : (headers.find? fun h => h.1 == claim.2).isSome = true :=
        List.find?_isSome.mpr ⟨header, hheader, beq_iff_eq.mpr hshard⟩
      obtain ⟨found, hfound⟩ := Option.isSome_iff_exists.mp hsome
      have hname : (found.1 == claim.2) = true :=
        List.find?_some (p := fun h : Str × List (Str × α) => h.1 == claim.2) hfound
      rw [hfound, List.inj_on_of_nodup_map hshards (List.mem_of_find?_eq_some hfound) hheader
        ((eq_of_beq hname).trans hshard.symm)]
    · rw [hnames header hheader, hshard]
      exact hclaim

/-- Of maps of headers and of indices with safe paths, those that agree are accepted, and in them
every tensor has one shard. -/
theorem agreement_iff (hshards : (headers.map (·.1)).Nodup)
    (hkeys : (weightMap.map (·.1)).Nodup)
    (hsafe : ∀ claim ∈ weightMap, safeRelpath claim.2 = true) :
    (validateIndexHeaderAgreement headers weightMap = .ok () ↔ Agrees headers weightMap) ∧
      (validateIndexHeaderAgreement headers weightMap = .ok () →
        ∀ name, name ≠ str metadataKey → (∃ header ∈ headers, name ∈ header.2.map (·.1)) →
          ∃! header, header ∈ headers ∧ name ∈ header.2.map (·.1)) := by
  have hiff := validateIndexHeaderAgreement_ok (u := ()) hshards hsafe
  refine ⟨hiff, ?_⟩
  intro hok name hname hcarried
  exact (hiff.mp hok).existsUnique hshards hkeys hname hcarried

end

/-- Two shards, one of them with metadata. -/
theorem agreement_iff_two :
    ∃! header : Str × List (Str × Unit),
      header ∈ [(str "a", [(str "x", ()), (str metadataKey, ())]),
        (str "b", [(str "y", ()), (str "z", ())])] ∧ str "y" ∈ header.2.map (·.1) :=
  (@agreement_iff Unit _ [(str "x", str "a"), (str "z", str "b"), (str "y", str "b")] (by decide)
    (by decide) (by decide)).2 rfl (str "y") (by decide)
    ⟨_, List.mem_cons_of_mem _ List.mem_cons_self, by decide⟩

end Audit
end FlashNext
