/-
The names of failure variants.

A variant of the union of field failures is called like its property, with the first character in
upper case.  Properties have different names, but their variants need not:

* `Text.capital_ne_nil` — every character has an upper-case form;
* `MergesWith` — two names go on alike after their first characters, and one upper-case form starts
  with the other;
* `capitalized_eq_iff` — only such names come to one name in upper case;
* `Model.nodup_variants_iff` — so the variants of a union have different names if and only if no
  two failing properties merge.

Then a variant that a factory adds tells the property that has failed.  The main statement is
`Context.variants_of_modelAlone`; `Context.variants_merged` is a model with two variants of one
name.
-/
import Mathlib.Data.List.Nodup
import ModelForge.Proofs.Decoding
import ModelForge.Proofs.FailureVariants
import ModelForge.Proofs.PropertyOrder

namespace ModelForge

open Kotlin

/-! ### Upper case -/

namespace Text

theorem ne_nil_of_lookup_capitalExpansions {n : Nat} {codes : List Nat}
    (h : capitalExpansions.lookup n = some codes) : codes ≠ [] := by
  have hall : ∀ e ∈ capitalExpansions, e.2 ≠ [] := by decide
  obtain ⟨earlier, later, heq, -⟩ := List.lookup_eq_some_iff.1 h
  refine hall (n, codes) ?_
  rw [heq]
  exact List.mem_append_right _ List.mem_cons_self

/-- Every character has an upper-case form, which may be several characters. -/
theorem capital_ne_nil (c : Char) : capital c ≠ [] := by
  unfold capital
  split
  · exact List.cons_ne_nil _ _
  · unfold wideCapital
    split
    · rename_i codes hcodes
      exact mt List.map_eq_nil_iff.1 (ne_nil_of_lookup_capitalExpansions hcodes)
    · split <;> exact List.cons_ne_nil _ _

end Text

/-- The second name starts with a character whose upper-case form is that of the first name's first
character with `more` at the end, and the first name has `more` before the two go on alike. -/
def MergesWith (a b : String) : Prop :=
  ∃ c d more rest, a.toList = c :: (more ++ rest) ∧ b.toList = d :: rest ∧
    Text.capital d = Text.capital c ++ more

theorem capitalized_of_toList {a : String} {c : Char} {cs : List Char} (h : a.toList = c :: cs) :
    capitalized a = String.ofList (Text.capital c ++ cs) := by
  rw [capitalized, h]

theorem capitalized_eq_of_mergesWith {a b : String} (h : MergesWith a b) :
    capitalized a = capitalized b := by
  obtain ⟨c, d, more, rest, ha, hb, hcapital⟩ := h
  rw [capitalized_of_toList ha, capitalized_of_toList hb, hcapital, List.append_assoc]

/-- Only the empty name is empty in upper case. -/
theorem capitalized_eq_empty_iff {a : String} : capitalized a = "" ↔ a = "" := by
  constructor
  · intro h
    cases ha : a.toList with
    | nil => exact String.toList_eq_nil_iff.1 ha
    | cons c cs =>
      rw [capitalized_of_toList ha, ← String.toList_eq_nil_iff, String.toList_ofList] at h
      exact absurd (List.append_eq_nil_iff.1 h).1 (Text.capital_ne_nil c)
  · rintro rfl
    rfl

/-- Two names come to one name in upper case if and only if they are the same or they merge. -/
theorem capitalized_eq_iff {a b : String} :
    capitalized a = capitalized b ↔ a = b ∨ MergesWith a b ∨ MergesWith b a := by
  constructor
  · intro h
    cases ha : a.toList with
    | nil =>
      obtain rfl := String.toList_eq_nil_iff.1 ha
      exact .inl (capitalized_eq_empty_iff.1 h.symm).symm
    | cons c as =>
      cases hb : b.toList with
      | nil =>
        obtain rfl := String.toList_eq_nil_iff.1 hb
        exact .inl (capitalized_eq_empty_iff.1 h)
      | cons d bs =>
        rw [capitalized_of_toList ha, capitalized_of_toList hb, String.ofList_inj] at h
        -- the longer of the two upper-case forms goes on into the other name
        rcases List.append_eq_append_iff.1 h with ⟨more, hd, rfl⟩ | ⟨more, hc, rfl⟩
        · exact .inr (.inl ⟨c, d, more, bs, ha, hb, hd⟩)
        · exact .inr (.inr ⟨d, c, more, as, hb, ha, hc⟩)
  · rintro (rfl | h | h)
    · rfl
    · exact capitalized_eq_of_mergesWith h
    · exact (capitalized_eq_of_mergesWith h).symm

/-! ### Unions and factories -/

namespace Model

variable {m : Model}

/-- No two failing properties have names that merge. -/
def NoneMerge (m : Model) : Prop :=
  ∀ p ∈ m.failingProperties, ∀ q ∈ m.failingProperties, p.name ≠ q.name →
    ¬ MergesWith p.name q.name

/-- The function is a factory of the model or of the params, or the companion's extension. -/
def HasFactory (m : Model) (f : Factory TypeName TypeName) : Prop :=
  (∃ mode, f ∈ (m.dataClass mode).factories) ∨ ∃ companion, f = m.companionOf companion

theorem names_failureUnion (m : Model) :
    m.failureUnion.variants.map (·.name) = m.failingProperties.map Property.failureName :=
  map_eq_of_forall₂ m.variants_failureUnion fun _ _ h => h.name

/-- A failing property is told by its name. -/
theorem eq_of_name_eq (hnames : (m.properties.map (·.name)).Nodup) {p q : Property}
    (hp : p ∈ m.failingProperties) (hq : q ∈ m.failingProperties) (h : p.name = q.name) :
    p = q :=
  List.inj_on_of_nodup_map hnames (List.mem_filter.1 hp).1 (List.mem_filter.1 hq).1 h

/-- Of failing properties that do not merge, one is told by the name of its variant, too. -/
theorem NoneMerge.eq_of_failureName_eq (h : m.NoneMerge)
    (hnames : (m.properties.map (·.name)).Nodup) {p q : Property} (hp : p ∈ m.failingProperties)
    (hq : q ∈ m.failingProperties) (heq : p.failureName = q.failureName) : p = q := by
  refine eq_of_name_eq hnames hp hq ?_
  by_contra hne
  rcases capitalized_eq_iff.1 heq with hsame | hmerge | hmerge
  · exact hne hsame
  · exact h p hp q hq hne hmerge
  · exact h q hq p hp (Ne.symm hne) hmerge

/-- The variants have different names if and only if no two failing properties merge. -/
theorem nodup_variants_iff (hnames : (m.properties.map (·.name)).Nodup) :
    (m.failureUnion.variants.map (·.name)).Nodup ↔ m.NoneMerge := by
  have hfailing : m.failingProperties.Nodup := (List.Nodup.of_map _ hnames).filter _
  rw [names_failureUnion, List.nodup_map_iff_inj_on hfailing]
  constructor
  · intro h p hp q hq hne hmerge
    exact hne (congrArg _ (h p hp q hq (capitalized_eq_of_mergesWith hmerge)))
  · exact fun h p hp q hq heq => h.eq_of_failureName_eq hnames hp hq heq

/-- What a factory adds are variants of failing properties. -/
theorem HasFactory.exists_failing {f : Factory TypeName TypeName} (hf : m.HasFactory f) {v : String}
    (hv : v ∈ f.added) : ∃ p ∈ m.failingProperties, p.failureName = v := by
  rcases hf with ⟨mode, hf⟩ | ⟨companion, rfl⟩
  · obtain ⟨-, -, -, failing, hsub, hadded⟩ := added_dataClass hf
    rw [hadded] at hv
    obtain ⟨p, hp, rfl⟩ := List.mem_map.1 hv
    exact ⟨p, (hsub.trans (m.failingIn_sublist mode)).subset hp, rfl⟩
  · rw [companionOf, Generation.added_factory] at hv
    exact List.mem_map.1 hv

end Model

/-- **Variants and the properties that they stand for.**  The variants of the field failures of an
analyzed model have different names if and only if no two of its failing properties have names that
merge in upper case.  Then every variant that one of its factories adds is that of exactly one
property. -/
theorem Context.variants_of_modelAlone {ctx : Context} {t : Target} {m : Model}
    (h : ctx.modelAlone t = .ok m) :
    ((m.failureUnion.variants.map (·.name)).Nodup ↔ m.NoneMerge) ∧
    (m.NoneMerge → ∀ f, m.HasFactory f → ∀ v ∈ f.added,
      ∃! p, p ∈ m.failingProperties ∧ p.failureName = v) := by
  have hnames : (m.properties.map (·.name)).Nodup :=
    (propertyShape_of_modelOf (Analysis.sound_start ctx) (modelOf_of_modelAlone h)).nodup
  refine ⟨Model.nodup_variants_iff hnames, fun hnone f hf v hv => ?_⟩
  obtain ⟨p, hp, hname⟩ := hf.exists_failing hv
  refine ⟨p, ⟨hp, hname⟩, fun q ⟨hq, hname'⟩ => ?_⟩
  exact hnone.eq_of_failureName_eq hnames hq hp (hname'.trans hname.symm)

/-! ### Two names

The badge has two properties whose names differ in the case of the first letter. -/

namespace Sample

def badgeTemplate : ClassDecl :=
  templateOf "BadgeTemplate" "Badge" [("name", .named "t.Deep"), ("Name", .named "t.Deep")]

def badges : Context :=
  ⟨⟨context.index.entries ++ [⟨.ofClass badgeTemplate, "t.json"⟩]⟩, {}⟩

def badge : Target :=
  ⟨badgeTemplate, .template (.mk "modelsmith.annotation.ModelTemplate"
    [("name", .string "Badge")])⟩

end Sample

theorem Context.variants_of_modelAlone_account :
    ∃ m, Sample.bank.modelAlone Sample.account = .ok m ∧
      m.failureUnion.variants.map (·.name) = ["Id", "Limit", "Owner"] ∧ m.NoneMerge ∧
      ∀ f, m.HasFactory f → ∀ v ∈ f.added,
        ∃! p, p ∈ m.failingProperties ∧ p.failureName = v := by
  have hvariants : (Sample.bank.modelAlone Sample.account).map
      (fun m => m.failureUnion.variants.map (·.name)) = .ok ["Id", "Limit", "Owner"] := by
    decide +kernel
  obtain ⟨m, hm, hvariants⟩ := Json.map_eq_ok_iff.1 hvariants
  obtain ⟨hnodup, hadded⟩ := Context.variants_of_modelAlone hm
  have hnone : m.NoneMerge := hnodup.1 (by rw [hvariants]; decide)
  exact ⟨m, hm, hvariants, hnone, hadded hnone⟩

/-- The properties have different names, and their variants one. -/
theorem Context.variants_merged :
    ∃ m, Sample.badges.modelAlone Sample.badge = .ok m ∧
      m.failingProperties.map (·.name) = ["name", "Name"] ∧
      m.failureUnion.variants.map (·.name) = ["Name", "Name"] := by
  have hmodel : (Sample.badges.modelAlone Sample.badge).map (fun m =>
      (m.failingProperties.map (·.name), m.failureUnion.variants.map (·.name))) =
      .ok (["name", "Name"], ["Name", "Name"]) := by
    decide +kernel
  obtain ⟨m, hm, hnames⟩ := Json.map_eq_ok_iff.1 hmodel
  exact ⟨m, hm, (Prod.mk.inj hnames).1, (Prod.mk.inj hnames).2⟩

end ModelForge
