import FlashNext.Audit.Contract

/-!
# What the patterns recognise

Each pattern matches the canonical names of its family and gives back their numbers and words,
and no canonical name of another family.  What else it matches has other digits or a newline at
its end.
-/

namespace FlashNext
namespace Audit

open Py (Str str)
open Text (Piece Fits render)

/-! ## Literals in front -/

theorem matches?_eq_none {pattern : List (Piece Nat)} {name : Str} :
    matches? pattern name = none ↔
      ∀ gs, Fits pattern gs → name ≠ render pattern gs ∧ name ≠ render pattern gs ++ [newline] := by
  rw [← Option.not_isSome_iff_eq_none, matches?, Text.matchEnd?_isSome]
  constructor
  · intro h gs hgs
    exact ⟨fun heq => h ⟨gs, hgs, Or.inl heq⟩, fun heq => h ⟨gs, hgs, Or.inr heq⟩⟩
  · rintro h ⟨gs, hgs, heq | heq⟩
    · exact (h gs hgs).1 heq
    · exact (h gs hgs).2 heq

/-- Two texts that differ before both end. -/
def Apart (s t : Str) : Prop := ∃ n, n ≤ s.length ∧ n ≤ t.length ∧ s.take n ≠ t.take n

theorem Apart.ne {s t : Str} (h : Apart s t) (x y : Str) : s ++ x ≠ t ++ y := by
  obtain ⟨n, hs, ht, hne⟩ := h
  intro heq
  apply hne
  have hx : (s ++ x).take n = s.take n := List.take_append_of_le_length hs
  rw [← hx, heq, List.take_append_of_le_length ht]

/-- A pattern does not match a text that starts otherwise. -/
theorem matches?_of_apart {t s : Str} (h : Apart s t) (pattern : List (Piece Nat)) (rest : Str) :
    matches? (.lit t :: pattern) (s ++ rest) = none := by
  rw [matches?_eq_none]
  intro gs _
  constructor
  · exact h.ne rest (render pattern gs)
  · rw [render, List.append_assoc]
    exact h.ne rest (render pattern gs ++ [newline])

/-! ## Expert names -/

theorem dot_eq : str "." = [46] := by decide

theorem not_isDecimal_dot : isDecimal 46 = false := by decide

theorem experts_eq : str ".mlp.experts." = 46 :: str "mlp.experts." := by decide

section Expert

variable {Kind : Type} {start : String} {kinds : List String} {kindName : Kind → String}

/-- The groups of a canonical name. -/
def expertGroups (kindName : Kind → String) (key : ExpertKey Kind) : List Str :=
  [decimal key.layer, decimal key.expert, str key.projection.name, str (kindName key.kind)]

theorem fits_expertGroups (key : ExpertKey Kind) (hkind : kindName key.kind ∈ kinds) :
    Fits (expertPattern start kinds) (expertGroups kindName key) := by
  have hdigits (n : Nat) : decimal n ≠ [] ∧ ∀ c ∈ decimal n, isDecimal c = true :=
    ⟨decimal_ne_nil n, fun c hc => isDecimal_of_mem_decimal hc⟩
  have hprojection : str key.projection.name ∈ Projection.all.map fun p => str p.name :=
    List.mem_map.mpr ⟨key.projection, Projection.mem_all _, rfl⟩
  exact ⟨_, _, rfl, hdigits _, _, _, rfl, hdigits _, _, _, rfl, hprojection, _, _, rfl,
    List.mem_map.mpr ⟨_, hkind, rfl⟩, rfl⟩

variable (kinds) in
theorem render_expertGroups (key : ExpertKey Kind) :
    render (expertPattern start kinds) (expertGroups kindName key) =
      expertName start kindName key := by
  simp only [expertPattern, expertGroups, render, expertName, List.append_nil]

/-- The groups that an expert pattern takes. -/
theorem fits_expertPattern {gs : List Str} (h : Fits (expertPattern start kinds) gs) :
    ∃ layer expert projection kind, gs = [layer, expert, str projection.name, str kind] ∧
      (∀ c ∈ layer, isDecimal c = true) ∧ (∀ c ∈ expert, isDecimal c = true) ∧
      projection ∈ Projection.all ∧ kind ∈ kinds := by
  obtain ⟨layer, _, rfl, ⟨-, hlayer⟩, expert, _, rfl, ⟨-, hexpert⟩, p, _, rfl, hp, k, _, rfl, hk,
    rfl⟩ := h
  obtain ⟨projection, hprojection, rfl⟩ := List.mem_map.mp hp
  obtain ⟨kind, hkind, rfl⟩ := List.mem_map.mp hk
  exact ⟨layer, expert, projection, kind, rfl, hlayer, hexpert, hprojection, hkind⟩

theorem projection_no_dot (projection : Projection) :
    ∀ c ∈ str projection.name, (c != 46) = true := by
  cases projection <;> decide

/-- Both ends of the words after an expert's number. -/
theorem words_inj {p q : Projection} {k j : Str}
    (h : str p.name ++ (str "." ++ k) = str q.name ++ (str "." ++ j)) : p = q ∧ k = j := by
  rw [dot_eq] at h
  obtain ⟨hname, -, hkind⟩ := Text.append_cons_inj (p := fun c => c != 46)
    (projection_no_dot p) (projection_no_dot q) rfl rfl h
  refine ⟨?_, hkind⟩
  have hsome := congrArg Projection.ofStr? hname
  rw [Projection.ofStr?_name, Projection.ofStr?_name] at hsome
  exact Option.some.inj hsome

/-- A run of digits ends where the name goes on with a dot. -/
theorem digits_inj {a b s t : Str} (ha : ∀ c ∈ a, isDecimal c = true)
    (hb : ∀ c ∈ b, isDecimal c = true) (h : a ++ 46 :: s = b ++ 46 :: t) : a = b ∧ s = t := by
  obtain ⟨hdigits, -, hrest⟩ := Text.append_cons_inj ha hb not_isDecimal_dot not_isDecimal_dot h
  exact ⟨hdigits, hrest⟩

/-- The numbers and words of an expert's name can be read off it. -/
theorem expert_inj {l l' e e' k k' : Str} {p p' : Projection}
    (hl : ∀ c ∈ l, isDecimal c = true) (hl' : ∀ c ∈ l', isDecimal c = true)
    (he : ∀ c ∈ e, isDecimal c = true) (he' : ∀ c ∈ e', isDecimal c = true)
    (h : str start ++ (l ++ (str ".mlp.experts." ++ (e ++ (str "." ++ (str p.name ++
        (str "." ++ k)))))) =
      str start ++ (l' ++ (str ".mlp.experts." ++ (e' ++ (str "." ++ (str p'.name ++
        (str "." ++ k'))))))) :
    l = l' ∧ e = e' ∧ p = p' ∧ k = k' := by
  have hlayers := List.append_cancel_left h
  rw [experts_eq] at hlayers
  obtain ⟨rfl, hexperts⟩ := digits_inj hl hl' hlayers
  have hnumbers := List.append_cancel_left hexperts
  rw [dot_eq] at hnumbers
  obtain ⟨rfl, hwords⟩ := digits_inj he he' hnumbers
  exact ⟨rfl, rfl, words_inj hwords⟩

theorem unambiguous_expertGroups (key : ExpertKey Kind)
    (hkinds : ∀ kind ∈ kinds, newline ∉ str kind) (hkind : kindName key.kind ∈ kinds) :
    Text.Unambiguous newline (expertPattern start kinds) (expertGroups kindName key) := by
  intro gs hgs heq
  obtain ⟨l, e, p, k, rfl, hl, he, hp, hk⟩ := fits_expertPattern hgs
  have hdigits (n c : Nat) (hc : c ∈ decimal n) : isDecimal c = true := isDecimal_of_mem_decimal hc
  simp only [expertPattern, expertGroups, render, List.append_nil, List.append_assoc] at heq
  rcases heq with heq | heq
  · obtain ⟨rfl, rfl, rfl, hwords⟩ := expert_inj (hdigits _) hl (hdigits _) he heq
    rw [expertGroups, hwords]
  · obtain ⟨-, -, -, hwords⟩ := expert_inj (hdigits _) hl (hdigits _) he heq
    have hmem : newline ∈ str (kindName key.kind) := by
      rw [hwords]
      exact List.mem_append_right _ (List.mem_singleton_self _)
    exact absurd hmem (hkinds _ hkind)

theorem matches?_expertName (key : ExpertKey Kind) (hkinds : ∀ kind ∈ kinds, newline ∉ str kind)
    (hkind : kindName key.kind ∈ kinds) :
    matches? (expertPattern start kinds) (expertName start kindName key) =
      some (expertGroups kindName key) := by
  rw [matches?, ← render_expertGroups kinds]
  exact Text.matchEnd?_render (fits_expertGroups key hkind)
    (unambiguous_expertGroups key hkinds hkind)

theorem fullMatches?_expertName (key : ExpertKey Kind)
    (hkinds : ∀ kind ∈ kinds, newline ∉ str kind) (hkind : kindName key.kind ∈ kinds) :
    fullMatches? (expertPattern start kinds) (expertName start kindName key) =
      some (expertGroups kindName key) := by
  rw [fullMatches?, ← render_expertGroups kinds]
  exact Text.fullmatch?_render (fits_expertGroups key hkind)
    (unambiguous_expertGroups key hkinds hkind)

theorem ofGroups_expertGroups {kindOf : Str → Option Kind} (key : ExpertKey Kind)
    (hkind : kindOf (str (kindName key.kind)) = some key.kind) :
    ExpertKey.ofGroups kindOf (expertGroups kindName key) = some key := by
  rw [expertGroups, ExpertKey.ofGroups, Projection.ofStr?_name, hkind, intOf_decimal, intOf_decimal]
  rfl

/-- The groups of a match always make a key. -/
theorem ofGroups_of_fits {kindOf : Str → Option Kind}
    (hkinds : ∀ kind ∈ kinds, ∃ k, kindOf (str kind) = some k) {gs : List Str}
    (h : Fits (expertPattern start kinds) gs) : ∃ key, ExpertKey.ofGroups kindOf gs = some key := by
  obtain ⟨l, e, p, k, rfl, -, -, -, hk⟩ := fits_expertPattern h
  obtain ⟨kind, hkind⟩ := hkinds k hk
  rw [ExpertKey.ofGroups, Projection.ofStr?_name, hkind]
  exact ⟨_, rfl⟩

end Expert

/-! ## Main experts -/

theorem mainKinds_no_newline : ∀ kind ∈ MainKind.all.map MainKind.name, newline ∉ str kind := by
  decide

theorem mtpKinds_no_newline : ∀ kind ∈ MtpKind.all.map MtpKind.name, newline ∉ str kind := by
  decide

theorem mainKind_mem (kind : MainKind) : kind.name ∈ MainKind.all.map MainKind.name :=
  List.mem_map.mpr ⟨kind, MainKind.mem_all kind, rfl⟩

theorem mtpKind_mem (kind : MtpKind) : kind.name ∈ MtpKind.all.map MtpKind.name :=
  List.mem_map.mpr ⟨kind, MtpKind.mem_all kind, rfl⟩

theorem mainKey?_mainName (key : MainKey) : mainKey? (mainName key) = some key := by
  rw [mainKey?, mainExpertKey, mainName,
    fullMatches?_expertName key mainKinds_no_newline (mainKind_mem key.kind), Option.bind_some]
  exact ofGroups_expertGroups key (MainKind.ofStr?_name key.kind)

theorem matches?_mainName (key : MainKey) :
    (matches? mainExpertKey (mainName key)).isSome = true := by
  rw [mainExpertKey, mainName,
    matches?_expertName key mainKinds_no_newline (mainKind_mem key.kind)]
  rfl

theorem mtpKey?_mtpName (key : MtpKey) : mtpKey? (mtpName key) = some key := by
  rw [mtpKey?, mtpExpertKey, mtpName,
    matches?_expertName key mtpKinds_no_newline (mtpKind_mem key.kind), Option.bind_some]
  exact ofGroups_expertGroups key (MtpKind.ofStr?_name key.kind)

theorem mainKey?_isSome {name : Str} :
    (mainKey? name).isSome = (fullMatches? mainExpertKey name).isSome := by
  cases hgs : fullMatches? mainExpertKey name with
  | none =>
    rw [mainKey?, hgs]
    rfl
  | some gs =>
    have hkinds : ∀ kind ∈ MainKind.all.map MainKind.name, ∃ k, MainKind.ofStr? (str kind) = some k := by
      intro kind hkind
      obtain ⟨k, -, rfl⟩ := List.mem_map.mp hkind
      exact ⟨k, MainKind.ofStr?_name k⟩
    obtain ⟨key, hkey⟩ := ofGroups_of_fits hkinds (Text.fullmatch?_eq_some hgs).1
    rw [mainKey?, hgs, Option.bind_some, hkey]
    rfl

theorem mtpKey?_isSome {name : Str} :
    (mtpKey? name).isSome = (matches? mtpExpertKey name).isSome := by
  cases hgs : matches? mtpExpertKey name with
  | none =>
    rw [mtpKey?, hgs]
    rfl
  | some gs =>
    have hkinds : ∀ kind ∈ MtpKind.all.map MtpKind.name, ∃ k, MtpKind.ofStr? (str kind) = some k := by
      intro kind hkind
      obtain ⟨k, -, rfl⟩ := List.mem_map.mp hkind
      exact ⟨k, MtpKind.ofStr?_name k⟩
    obtain ⟨key, hkey⟩ := ofGroups_of_fits hkinds (Text.matchEnd?_eq_some hgs).1
    rw [mtpKey?, hgs, Option.bind_some, hkey]
    rfl

/-! ## PLE shards -/

theorem weight_eq : str ".weight" = 46 :: str "weight" := by decide

theorem fits_pleShardKey {gs : List Str} (h : Fits pleShardKey gs) :
    ∃ digits, gs = [digits] ∧ ∀ c ∈ digits, isDecimal c = true := by
  obtain ⟨digits, _, rfl, ⟨-, hdigits⟩, rfl⟩ := h
  exact ⟨digits, rfl, hdigits⟩

theorem matches?_pleShardName (index : Nat) :
    matches? pleShardKey (pleShardName index) = some [decimal index] := by
  have hdigits : ∀ c ∈ decimal index, isDecimal c = true :=
    fun c hc => isDecimal_of_mem_decimal hc
  have hrender (digits : Str) : render pleShardKey [digits] =
      str plePrefix ++ str ".shard_" ++ (digits ++ str ".weight") := by
    simp only [pleShardKey, render, List.append_nil]
  have hfits : Fits pleShardKey [decimal index] :=
    ⟨_, _, rfl, ⟨decimal_ne_nil index, hdigits⟩, rfl⟩
  rw [matches?, pleShardName, ← hrender]
  apply Text.matchEnd?_render hfits
  intro gs hgs heq
  obtain ⟨digits, rfl, hd⟩ := fits_pleShardKey hgs
  simp only [hrender, List.append_assoc, List.append_cancel_left_eq, weight_eq,
    List.cons_append] at heq
  rcases heq with heq | heq
  · rw [(digits_inj hdigits hd heq).1]
  · have hrest := congrArg List.length (digits_inj hdigits hd heq).2
    rw [List.length_append, List.length_singleton] at hrest
    omega

/-! ## One family and not another -/

theorem plePrefix_eq : str plePrefix =
    str "model.language_model.layers." ++ 49 :: 46 :: 112 :: str "le.ple_embedding.ngram_embedding" := by
  decide +kernel

theorem mlp_eq : str "mlp.experts." = 109 :: str "lp.experts." := by decide

/-- No name that goes on as a main expert's does starts as a PLE tensor's. -/
theorem main_ne_ple {layer : Str} (h : ∀ c ∈ layer, isDecimal c = true) (x y : Str) :
    str "model.language_model.layers." ++ (layer ++ (str ".mlp.experts." ++ x)) ≠
      str plePrefix ++ y := by
  intro heq
  rw [plePrefix_eq, List.append_assoc, List.append_cancel_left_eq, experts_eq] at heq
  have hone : ∀ c ∈ ([49] : Str), isDecimal c = true := by decide
  have hrest := (digits_inj h hone (t := 112 :: (str "le.ple_embedding.ngram_embedding" ++ y)) heq).2
  rw [mlp_eq] at hrest
  exact absurd (List.cons.inj hrest).1 (by decide)

theorem matches?_main_ple (rest : Str) : matches? mainExpertKey (str plePrefix ++ rest) = none := by
  rw [matches?_eq_none]
  intro gs hgs
  obtain ⟨l, e, p, k, rfl, hl, -⟩ := fits_expertPattern hgs
  have hrender : render mainExpertKey [l, e, str p.name, str k] =
      str "model.language_model.layers." ++ (l ++ (str ".mlp.experts." ++
        (e ++ (str "." ++ (str p.name ++ (str "." ++ str k)))))) := by
    simp only [mainExpertKey, expertPattern, render, List.append_nil]
  rw [hrender]
  refine ⟨(main_ne_ple hl _ rest).symm, ?_⟩
  simp only [List.append_assoc]
  exact (main_ne_ple hl _ rest).symm

theorem matches?_ple_main (key : MainKey) : matches? pleShardKey (mainName key) = none := by
  have hlayer : ∀ c ∈ decimal key.layer, isDecimal c = true :=
    fun c hc => isDecimal_of_mem_decimal hc
  rw [matches?_eq_none]
  intro gs _
  constructor
  · simp only [pleShardKey, render, List.append_assoc]
    exact main_ne_ple hlayer _ _
  · simp only [pleShardKey, render, List.append_assoc]
    exact main_ne_ple hlayer _ _

theorem apart_mtp_model : Apart (str "mtp.layers.") (str "model.language_model.layers.") :=
  ⟨2, by decide, by decide, by decide⟩

theorem apart_model_mtp : Apart (str "model.language_model.layers.") (str "mtp.layers.") :=
  ⟨2, by decide, by decide, by decide⟩

theorem matches?_mtp_main (key : MainKey) : matches? mtpExpertKey (mainName key) = none := by
  rw [mainName, expertName, mtpExpertKey, expertPattern]
  exact matches?_of_apart apart_model_mtp _ _

theorem matches?_main_mtp (key : MtpKey) : matches? mainExpertKey (mtpName key) = none := by
  rw [mtpName, expertName, mainExpertKey, expertPattern]
  exact matches?_of_apart apart_mtp_model _ _

end Audit
end FlashNext
