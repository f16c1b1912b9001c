/-
The variants of field failures that are declared and those that are used.

For a template three files speak of its field failures: one declares the union with a variant
for each property that can fail, and the companions of the model and of the params add such
variants to the lists they fail with.  The three are made from different lists of properties:

* `Model.variants_failureUnion` — the union has the variants of the failing properties;
* `Generation.added_factory` — a factory adds the variants of those among its properties that
  can fail, and a template's factory those of some of them (`Generation.added_apply`);
* `Model.added_dataClass` — so each factory of the model adds variants of failing properties,
  and each of the params variants of failing properties that are not external.

In the body of the union the parents are written by their simple names
(`Model.displays_parents`), and a variant that is called so hides them
(`Model.parents_visible_iff`).

`Context.failureVariants_agree` puts this together for the three files as they are written.
-/
import ModelForge.Proofs.DeclaredTypes
import ModelForge.Proofs.Decoding
import ModelForge.Proofs.FactoryOutcome
import ModelForge.Proofs.SpelledUses
import ModelForge.Proofs.UnionBodies

namespace ModelForge

open Kotlin

/-! ### Lists that correspond -/

section

variable {α β : Type} {R : α → β → Prop}

theorem sublistForall₂_of_sublist {as as' : List α} (hs : as'.Sublist as) :
    ∀ {bs : List β}, List.Forall₂ R as bs → List.SublistForall₂ R as' bs := by
  induction hs with
  | slnil => exact fun _ => .nil
  | cons a _ ih => exact fun | .cons _ h => .cons_right (ih h)
  | cons_cons a _ ih => exact fun | .cons hab h => .cons hab (ih h)

theorem forall₂_trans {γ : Type} {S : β → γ → Prop} {as : List α} {bs : List β}
    (h : List.Forall₂ R as bs) :
    ∀ {cs : List γ}, List.Forall₂ S bs cs → List.Forall₂ (fun a c => ∃ b, R a b ∧ S b c) as cs := by
  induction h with
  | nil => exact fun | .nil => .nil
  | cons hab _ ih => exact fun | .cons hbc h => .cons ⟨_, hab, hbc⟩ (ih h)

end

/-! ### What a factory adds -/

/-- The variants that failures are put into, by name. -/
def Kotlin.Factory.added {C T : Type} (f : Factory C T) : List String :=
  match f.failure with
  | some b => b.cases.map (·.variant)
  | none => []

namespace Generation

/-- Whether the property can fail. -/
def fails (p : Property) : Bool :=
  !p.kind.isStandard

theorem variant_failureCaseOf (mode : Mode) (p : Property) :
    (failureCaseOf mode p).map (·.variant) = if fails p then some p.failureName else none := by
  rw [failureCaseOf, Option.map_map, fails]
  cases hresult : resultOf mode p with
  | none => rw [(resultOf_eq_none_iff mode).1 hresult]; rfl
  | some e =>
    have hkind : p.kind.isStandard = false := by
      rw [← Bool.not_eq_true, ← resultOf_eq_none_iff mode, hresult]
      exact Option.some_ne_none e
    rw [hkind]
    rfl

theorem filterMap_if_some {α β : Type} (q : α → Bool) (f : α → β) (as : List α) :
    as.filterMap (fun a => if q a then some (f a) else none) = (as.filter q).map f := by
  induction as with
  | nil => rfl
  | cons a as ih => cases h : q a <;> simp [h, ih]

/-- A factory adds one variant for each property that can fail, in order. -/
theorem added_factory (t : FactoryTarget) (name : String) (properties : List Property) :
    (factory t name properties).added = (properties.filter fails).map Property.failureName := by
  have hcases : (factory t name properties).added =
      (properties.filterMap (failureCaseOf t.mode)).map (·.variant) := by
    unfold Factory.added factory failureBranch
    dsimp only
    cases properties.filterMap (failureCaseOf t.mode) with
    | nil => rfl
    | cons c cs => rfl
  rw [hcases, List.map_filterMap]
  simp only [variant_failureCaseOf]
  exact filterMap_if_some fails _ _

/-- What is taken validated does not fail, and what can fail then could fail before. -/
theorem fails_of_prevalidated {p : Property}
    (h : fails { p with kind := p.kind.prevalidated } = true) : fails p = true := by
  unfold fails at h ⊢
  cases hkind : p.kind with
  | standard type arguments => rw [hkind] at h; exact h
  | _ => rfl

/-- A validation template's factory adds the variants of some of the failing properties. -/
theorem added_apply (t : FactoryTarget) (template : ValidationTemplate) (name : String)
    (properties : List Property) :
    ∃ failing : List Property, failing.Sublist (properties.filter fails) ∧
      (factory t name (template.apply properties)).added = failing.map Property.failureName := by
  rw [added_factory, ValidationTemplate.apply, List.filter_map, List.map_map]
  refine ⟨_, List.monotone_filter_right properties fun p hp => ?_,
    List.map_congr_left fun p _ => ?_⟩
  · dsimp only [Function.comp] at hp
    split at hp
    · exact fails_of_prevalidated hp
    · exact hp
  · dsimp only [Function.comp]
    split
    · rfl
    · rfl

theorem failurePayload_eq_none_iff (p : Property) :
    failurePayload p.kind = none ↔ fails p = false := by
  unfold fails
  cases p.kind with
  | standard type arguments => exact ⟨fun _ => rfl, fun _ => rfl⟩
  | _ => exact ⟨nofun, nofun⟩

end Generation

/-! ### Variants and factories of a model -/

namespace Model

variable {m : Model}

/-- The variant is declared for the property: it has the property's name, its payload, and
belongs to the smaller union if the property is not external. -/
structure HasVariant (m : Model) (p : Property) (v : Variant TypeName TypeName) : Prop where
  name : v.name = p.failureName
  payload : Generation.failurePayload p.kind = some v.payload
  parent : v.parent =
    if p.external then m.names.fieldFailure else m.required?.getD m.names.fieldFailure

/-- The union has the variants of the failing properties, in order. -/
theorem variants_failureUnion (m : Model) :
    List.Forall₂ m.HasVariant m.failingProperties m.failureUnion.variants := by
  show List.Forall₂ _ (m.properties.filter Generation.fails) (m.properties.filterMap m.variantOf)
  induction m.properties with
  | nil => exact .nil
  | cons p ps ih =>
    cases hpayload : Generation.failurePayload p.kind with
    | none =>
      have hvariant : m.variantOf p = none := by rw [variantOf, hpayload]; rfl
      have hfails := (Generation.failurePayload_eq_none_iff p).1 hpayload
      rw [List.filterMap_cons_none hvariant, List.filter_cons_of_neg (by simp [hfails])]
      exact ih
    | some payload =>
      have hvariant : m.variantOf p = some ⟨p.failureName, payload,
          if p.external then m.names.fieldFailure else m.required?.getD m.names.fieldFailure⟩ := by
        rw [variantOf, hpayload]; rfl
      have hfails : Generation.fails p = true := by
        rw [← Bool.not_eq_false, ← Generation.failurePayload_eq_none_iff, hpayload]
        nofun
      rw [List.filterMap_cons_some hvariant, List.filter_cons_of_pos hfails]
      exact .cons ⟨rfl, hpayload, rfl⟩ ih

/-- The properties of the model or of the params that can fail. -/
def failingIn (m : Model) (mode : Generation.Mode) : List Property :=
  (m.propertiesIn mode).filter Generation.fails

theorem failingIn_params (m : Model) :
    m.failingIn .params = m.failingProperties.filter fun p => !p.external :=
  List.filter_comm _ _ m.properties

theorem failingIn_sublist (m : Model) (mode : Generation.Mode) :
    (m.failingIn mode).Sublist m.failingProperties := by
  cases mode with
  | model => exact List.Sublist.refl _
  | params => exact failingIn_params m ▸ List.filter_sublist

/-- Each factory of the companion, `of` or a template's, adds variants of properties that the
class has and that can fail. -/
theorem added_dataClass {mode : Generation.Mode} {f : Factory TypeName TypeName}
    (hf : f ∈ (m.dataClass mode).factories) :
    ∃ name properties, f = Generation.factory (m.factoryTarget mode) name properties ∧
      ∃ failing : List Property, failing.Sublist (m.failingIn mode) ∧
        f.added = failing.map Property.failureName := by
  rcases List.mem_cons.1 hf with rfl | hf
  · exact ⟨_, _, rfl, _, List.Sublist.refl _, Generation.added_factory _ _ _⟩
  · obtain ⟨template, -, rfl⟩ := List.mem_map.1 hf
    exact ⟨_, _, rfl, Generation.added_apply _ template _ _⟩

end Model

/-! ### The files as they are written -/

/-- A union that a variant belongs to fits a list of failures of this type: it is the type, or
it is the smaller union that is declared to belong to it. -/
def Kotlin.FailureUnion.Accepts (u : FailureUnion ClassUse TypeUse) (element : TypeName)
    (parent : ClassUse) : Prop :=
  parent.Refers element ∨ u.name.Refers element ∧
    ∃ required smaller, u.required = some required ∧ required.Refers smaller ∧
      parent.Refers smaller

namespace Model

/-- The written variant is that of the property. -/
structure WritesVariant (m : Model) (p : Property) (w : Variant ClassUse TypeUse) : Prop where
  name : w.name = p.failureName
  payload : Generation.failurePayload p.kind = some w.payload.type
  parent : w.parent.Refers
    (if p.external then m.names.fieldFailure else m.names.requiredFieldFailure)
  required_iff : w.parent.Refers m.names.requiredFieldFailure ↔ p.external = false

/-- The written union declares the variants of the failing properties, each on a line of its own,
and the smaller union beside it. -/
structure WritesUnion (m : Model) (u : FailureUnion ClassUse TypeUse) : Prop where
  name : u.name.Refers m.names.fieldFailure
  variants : List.Forall₂ m.WritesVariant m.failingProperties u.variants
  lines : u.lines.filter (fun line => line.depth = 1) = u.variants.map fun v => ⟨1, v.display⟩
  required : ∃ required, u.required = some required ∧
    required.Refers m.names.requiredFieldFailure ∧
    ⟨0, "sealed interface " ++ required.display ++ " : " ++ u.name.display⟩ ∈ u.lines

/-- The written factory fails with a list of elements of this type, and what it adds are
variants that are declared and that fit the list. -/
structure WritesFactory (m : Model) (u : FailureUnion ClassUse TypeUse) (element : TypeName)
    (f : Factory ClassUse TypeUse) : Prop where
  result : ∃ constructed,
    f.result.type = Generation.either (Generation.nonEmptyList element) constructed
  branch : ∀ b ∈ f.failure, b.variants.Refers m.names.fieldFailure ∧ b.union.type = element
  added : ∃ variants : List (Variant ClassUse TypeUse), variants.Sublist u.variants ∧
    f.added = variants.map (·.name) ∧ ∀ v ∈ variants, u.Accepts element v.parent

variable {m : Model} {package base : String}

/-- No class is written for both unions of a template. -/
theorem not_refers_fieldFailure (hnames : m.names = .template package base) {c : ClassUse}
    (h : c.Refers m.names.requiredFieldFailure) : ¬ c.Refers m.names.fieldFailure := by
  intro h'
  have hsimple := h.2.symm.trans h'.2
  rw [hnames] at hsimple
  have hlength := congrArg String.length (List.cons.inj hsimple).1
  rw [String.length_append, String.length_append] at hlength
  exact absurd (Nat.add_left_cancel hlength) (by decide)

/-- The union that the variant of the property belongs to. -/
def parentOf (m : Model) (p : Property) : TypeName :=
  if p.external then m.names.fieldFailure else m.names.requiredFieldFailure

theorem required?_of_template (hnames : m.names = .template package base) :
    m.required? = some m.names.requiredFieldFailure := by
  rw [required?, hnames]
  rfl

/-- The outermost simple name of a parent is that of a declared union, which is claimed before
any variant. -/
theorem find?_parentOf (hnames : m.names = .template package base) (p : Property) :
    (m.failureUnion.name :: m.failureUnion.required.toList).find?
      (fun t => t.simpleNames.head? = some (m.parentOf p).simpleName) = some (m.parentOf p) := by
  have hunions : m.failureUnion.name :: m.failureUnion.required.toList =
      [m.names.fieldFailure, m.names.requiredFieldFailure] := by
    rw [show m.failureUnion.required = m.required? from rfl, required?_of_template hnames]
    rfl
  have hfull : m.names.fieldFailure = .simple package (base ++ "FieldFailure") := by
    rw [hnames]
    rfl
  have hsmall : m.names.requiredFieldFailure =
      .simple package (base ++ "RequiredFieldFailure") := by
    rw [hnames]
    rfl
  rw [hunions, parentOf, hfull, hsmall]
  cases p.external with
  | true => exact List.find?_cons_of_pos (by simp [TypeName.simple, TypeName.simpleName])
  | false =>
    -- the whole union is called otherwise
    rw [List.find?_cons_of_neg (by simp [TypeName.simple, TypeName.simpleName])]
    exact List.find?_cons_of_pos (by simp [TypeName.simple, TypeName.simpleName])

/-- In the body of a template's union each parent is written by its simple name. -/
theorem displays_parents (hnames : m.names = .template package base) :
    List.Forall₂ (fun p w => w.parent.display = (m.parentOf p).simpleName) m.failingProperties
      (m.failureUnion.spell.run (.start package)).1.variants := by
  refine (forall₂_trans m.variants_failureUnion (m.failureUnion.written_variants package)).imp
    fun p w => ?_
  rintro ⟨v, hv, hw⟩
  obtain ⟨⟨-, hmention⟩, -⟩ := List.forall₂_cons.1 hw
  have hparent : v.parent = m.parentOf p := by
    rw [hv.parent, required?_of_template hnames]
    rfl
  have hsimple : (m.parentOf p).simpleNames = [(m.parentOf p).simpleName] := by
    rw [parentOf, hnames]
    cases p.external <;> rfl
  have hfirst : v.parent.simpleNames.head? = some (m.parentOf p).simpleName := by
    rw [hparent, hsimple]
    rfl
  have hform := m.failureUnion.isSimple_of_union package hmention hfirst
    (hparent ▸ find?_parentOf hnames p)
  exact hform.trans (by rw [hparent, TypeName.simpleForm, hsimple]; rfl)

/-- No parent is hidden if and only if no property's variant is called like the union that it or
another variant belongs to. -/
theorem parents_visible_iff {ws : List (Variant ClassUse TypeUse)}
    (hnames : List.Forall₂ m.WritesVariant m.failingProperties ws)
    (hparents : List.Forall₂ (fun p w => w.parent.display = (m.parentOf p).simpleName)
      m.failingProperties ws) :
    (∀ w ∈ ws, w.parent.display ∉ ws.map (·.name)) ↔
      ∀ p ∈ m.failingProperties,
        (m.parentOf p).simpleName ∉ m.failingProperties.map Property.failureName := by
  rw [map_eq_of_forall₂ hnames fun _ _ h => h.name]
  have hdisplays : ws.map (fun w => w.parent.display) =
      m.failingProperties.map fun p => (m.parentOf p).simpleName :=
    map_eq_of_forall₂ hparents fun _ _ h => h
  have hall : (∀ w ∈ ws, w.parent.display ∉ m.failingProperties.map Property.failureName) ↔
      ∀ n ∈ ws.map (fun w => w.parent.display),
        n ∉ m.failingProperties.map Property.failureName :=
    (List.forall_mem_map (P := (· ∉ m.failingProperties.map Property.failureName))).symm
  rw [hall, hdisplays, List.forall_mem_map]

theorem lines_failureUnion (u : FailureUnion ClassUse TypeUse) :
    u.lines.filter (fun line => line.depth = 1) = u.variants.map fun v => ⟨1, v.display⟩ := by
  unfold FailureUnion.lines
  cases u.variants with
  | nil => cases u.required <;> rfl
  | cons v vs => cases u.required <;> simp [List.filter_append, Line.blank]

/-- The union that a template's first file declares. -/
theorem writesUnion (hnames : m.names = .template package base)
    {u : FailureUnion ClassUse TypeUse} (h : m.failureUnion.Spells u) : m.WritesUnion u := by
  have hrequired := required?_of_template hnames
  refine ⟨h.name, ?_, lines_failureUnion u, ?_⟩
  -- the variants as they are declared are put together with the variants as they are written
  · refine (forall₂_trans m.variants_failureUnion h.variants).imp fun p w => ?_
    rintro ⟨v, hv, hw⟩
    have hparent := hw.parent
    rw [hv.parent, hrequired, Option.getD_some] at hparent
    refine ⟨hw.name.trans hv.name, hw.payload ▸ hv.payload, hparent, ?_⟩
    cases hexternal : p.external with
    | true =>
      rw [hexternal] at hparent
      exact ⟨fun h => absurd hparent (not_refers_fieldFailure hnames h),
        fun h => absurd h (by decide)⟩
    | false =>
      rw [hexternal] at hparent
      exact ⟨fun _ => rfl, fun _ => hparent⟩
  · have hrel := h.required
    rw [show m.failureUnion.required = m.required? from rfl, hrequired] at hrel
    generalize hr : u.required = r at hrel
    obtain hrefers | - := hrel
    refine ⟨_, rfl, hrefers, ?_⟩
    unfold FailureUnion.lines
    rw [hr]
    exact List.mem_append_right _ (List.mem_cons_of_mem _ List.mem_cons_self)

/-- Properties of the model or of the params that can fail have variants that fit the lists of
failures there. -/
theorem exists_variants {u : FailureUnion ClassUse TypeUse} (hu : m.WritesUnion u)
    {mode : Generation.Mode} {failing : List Property} (h : failing.Sublist (m.failingIn mode)) :
    ∃ variants : List (Variant ClassUse TypeUse), variants.Sublist u.variants ∧
      failing.map Property.failureName = variants.map (·.name) ∧
      ∀ v ∈ variants, u.Accepts (m.factoryTarget mode).union v.parent := by
  have hall := sublistForall₂_of_sublist (h.trans (m.failingIn_sublist mode)) hu.variants
  obtain ⟨variants, hrel, hsub⟩ := List.sublistForall₂_iff.1 hall
  refine ⟨variants, hsub, (map_eq_of_forall₂ hrel fun _ _ h => h.name).symm, fun v hv => ?_⟩
  obtain ⟨p, hp, hpv⟩ := exists_of_mem_forall₂ hrel v hv
  cases mode with
  | model =>
    -- the list takes failures of the whole union, and the smaller union belongs to it
    cases hexternal : p.external with
    | true =>
      have hparent := hpv.parent
      rw [hexternal] at hparent
      exact .inl hparent
    | false =>
      obtain ⟨required, heq, hrefers, -⟩ := hu.required
      exact .inr ⟨hu.name, required, _, heq, hrefers, hpv.required_iff.2 hexternal⟩
  | params =>
    -- the list takes failures of the smaller union, and no property is external
    have hp := h.subset hp
    rw [failingIn_params] at hp
    have hexternal := (List.mem_filter.1 hp).2
    exact .inl (hpv.required_iff.2 (by simpa using hexternal))

end Model

theorem Kotlin.Factory.Spells.added_eq {f : Factory TypeName TypeName}
    {w : Factory ClassUse TypeUse} (h : f.Spells w) : w.added = f.added := by
  have hfailure := h.failure
  unfold Factory.added
  generalize f.failure = b, w.failure = b' at hfailure
  cases hfailure with
  | none => rfl
  | some hb => exact map_eq_of_forall₂ hb.cases fun _ _ h => h.variant

namespace Model

variable {m : Model}

theorem writesFactory {u : FailureUnion ClassUse TypeUse} (hu : m.WritesUnion u)
    {mode : Generation.Mode} {f : Factory TypeName TypeName}
    (hf : f ∈ (m.dataClass mode).factories) {w : Factory ClassUse TypeUse} (hw : f.Spells w) :
    m.WritesFactory u (m.factoryTarget mode).union w := by
  obtain ⟨name, properties, rfl, failing, hsub, hadded⟩ := added_dataClass hf
  obtain ⟨variants, hvariants, hnames, haccepts⟩ := exists_variants hu hsub
  refine ⟨⟨_, hw.result⟩, fun b hb => ?_, variants, hvariants, ?_, haccepts⟩
  · have hfailure := hw.failure
    rw [Option.mem_def.1 hb] at hfailure
    generalize hbranch : Factory.failure _ = branch at hfailure
    obtain hspells | - := hfailure
    obtain rfl := Generation.eq_of_failure_factory hbranch
    refine ⟨?_, hspells.union⟩
    have hrefers := hspells.variants
    cases mode with
    | model => exact hrefers
    | params => exact hrefers
  · rw [hw.added_eq, hadded, hnames]

/-- The first factory of the companion is `of`, and it adds the variants of all properties that
the class has and that can fail. -/
theorem added_of {mode : Generation.Mode} {ws : List (Factory ClassUse TypeUse)}
    (h : List.Forall₂ Factory.Spells (m.dataClass mode).factories ws) :
    ∃ f templates, ws = f :: templates ∧ f.name = "of" ∧
      f.added = (m.failingIn mode).map Property.failureName := by
  obtain ⟨f, templates, hof, -, rfl⟩ := List.forall₂_cons_left_iff.1 h
  exact ⟨f, templates, rfl, hof.name, hof.added_eq.trans (Generation.added_factory _ _ _)⟩

/-- The variants of the properties that the params have are those of the smaller union. -/
theorem names_failingIn_params {u : FailureUnion ClassUse TypeUse} (hu : m.WritesUnion u) :
    (m.failingIn .params).map Property.failureName =
      (u.variants.filter fun v => v.parent.Refers m.names.requiredFieldFailure).map (·.name) := by
  have hrel : List.Forall₂ m.WritesVariant (m.failingProperties.filter fun p => !p.external)
      (u.variants.filter fun v => v.parent.Refers m.names.requiredFieldFailure) := by
    refine List.rel_filter (fun p v hpv => ?_) hu.variants
    show (!p.external) = true ↔ decide (v.parent.Refers m.names.requiredFieldFailure) = true
    rw [decide_eq_true_iff, hpv.required_iff, Bool.not_eq_true']
  rw [failingIn_params]
  exact (map_eq_of_forall₂ hrel fun _ _ h => h.name).symm

end Model

/-- **Unions and factories agree.**  Of the files of an analyzed template, the first declares
the union of its field failures, with one variant for each property that can fail.  Whatever a
factory of the model or of the params adds is one of these variants, and fits the list that the
factory fails with; the model's `of` adds all of them, and the params' `of` those that belong to
the smaller union.  A variant names its union by the simple name, and this is no other variant's
name, nor its own, if and only if no failing property is called so. -/
theorem Context.failureVariants_agree {ctx : Context} {t : Target} {m : Model}
    (h : ctx.modelAlone t = .ok m) (htemplate : m.target = .template) (option : String) :
    ∃ (union model params builder : Kotlin.File) (u : FailureUnion ClassUse TypeUse)
      (d p : DataClass ClassUse TypeUse),
      m.files option = .ok [union, model, params, builder] ∧
      [union, model, params].map (·.name) =
        [m.names.base ++ "FieldFailure", m.names.base, m.names.base ++ "Params"] ∧
      union.spelled.1 = .failureUnion u ∧ model.spelled.1 = .dataClass d ∧
      params.spelled.1 = .dataClass p ∧
      m.WritesUnion u ∧
      (∀ f ∈ d.factories, m.WritesFactory u m.names.fieldFailure f) ∧
      (∀ f ∈ p.factories, m.WritesFactory u m.names.requiredFieldFailure f) ∧
      (∃ f templates, d.factories = f :: templates ∧ f.name = "of" ∧
        f.added = u.variants.map (·.name)) ∧
      (∃ f templates, p.factories = f :: templates ∧ f.name = "of" ∧
        f.added = (u.variants.filter fun v =>
          v.parent.Refers m.names.requiredFieldFailure).map (·.name)) ∧
      List.Forall₂ (fun p w => w.parent.display = (m.parentOf p).simpleName)
        m.failingProperties u.variants ∧
      ((∀ v ∈ u.variants, v.parent.display ∉ u.variants.map (·.name)) ↔
        ∀ p ∈ m.failingProperties,
          (m.parentOf p).simpleName ∉ m.failingProperties.map Property.failureName) := by
  -- only a template's mark gives a model whose target is a template
  obtain ⟨package, base, hnames⟩ : ∃ package base, m.names = .template package base := by
    have hfits := (fitsMark_of_modelAlone h).1
    generalize t.mark = mark at hfits
    cases hfits with
    | template _ _ hnames _ => exact ⟨_, _, hnames⟩
    | validatable _ _ _ htarget => exact absurd (htemplate.symm.trans htarget) nofun
  obtain ⟨builder, -, hfiles⟩ := m.files_of_template option hnames htemplate
  have hspells := m.failureUnion.gives_spell (.start package)
  generalize hu : (m.failureUnion.spell.run (.start package)).1 = u at hspells
  have hparents := hu ▸ Model.displays_parents hnames
  obtain ⟨d, hd, hfactories⟩ := File.spelled_dataClass
    (f := ⟨package, base, .dataClass (m.dataClass .model)⟩) rfl
  obtain ⟨p, hp, hfactories'⟩ := File.spelled_dataClass
    (f := ⟨package, base ++ "Params", .dataClass (m.dataClass .params)⟩) rfl
  have hunion := m.writesUnion hnames hspells
  refine ⟨_, _, _, _, u, d, p, hfiles, by rw [hnames]; rfl, congrArg _ hu, hd, hp, hunion,
    fun f hf => ?_, fun f hf => ?_, ?_, ?_, hparents,
    Model.parents_visible_iff hunion.variants hparents⟩
  · obtain ⟨f', hf', hspelled⟩ := exists_of_mem_forall₂ hfactories f hf
    exact Model.writesFactory hunion hf' hspelled
  · obtain ⟨f', hf', hspelled⟩ := exists_of_mem_forall₂ hfactories' f hf
    exact Model.writesFactory hunion hf' hspelled
  · obtain ⟨f, templates, hof, hname, hadded⟩ := Model.added_of hfactories
    have hall := map_eq_of_forall₂ hunion.variants fun _ _ h => h.name
    exact ⟨f, templates, hof, hname, hadded.trans hall.symm⟩
  · obtain ⟨f, templates, hof, hname, hadded⟩ := Model.added_of hfactories'
    exact ⟨f, templates, hof, hname, hadded.trans (Model.names_failingIn_params hunion)⟩

/-! ### A template with an external property

The identifier of `Account` is external, its limit is taken validated by a template's factory,
and its owner is a nested model. -/

namespace Sample

def accountTemplate : ClassDecl :=
  { templateOf "AccountTemplate" "Account" [] with
    properties :=
      [⟨"id", .named "t.Deep", [.mk "modelsmith.annotation.External" []], none⟩,
        ⟨"label", .named "kotlin.String", [], none⟩, ⟨"limit", .named "t.Deep", [], none⟩,
        ⟨"owner", .named "t.LineTemplate", [], none⟩]
    nested :=
      [{ templateOf "Trusted" "" [("limit", .named "t.Deep")] with
        annotations := [.mk "modelsmith.annotation.ValidationTemplate"
          [("name", .string "trusted")]]
        isPrivate := true }] }

def bank : Context :=
  ⟨⟨context.index.entries ++
    [accountTemplate, templateOf "LineTemplate" "Line" [("deep", .named "t.Deep")]].map
      fun c => ⟨.ofClass c, "t.json"⟩⟩, {}⟩

def account : Target :=
  ⟨accountTemplate, .template (.mk "modelsmith.annotation.ModelTemplate"
    [("name", .string "Account")])⟩

/-- The names of the variants, those of the smaller union, and those that the factories of the
model and of the params add. -/
def accountVariants (m : Model) : List (List String) :=
  [m.failingProperties.map (·.failureName), (m.failingIn .params).map (·.failureName)] ++
    (m.dataClass .model).factories.map (·.added) ++ (m.dataClass .params).factories.map (·.added)

/-- The names of the unions that the variants belong to. -/
def accountParents (m : Model) : List String :=
  m.failingProperties.map fun p => (m.parentOf p).simpleName

end Sample

theorem Context.failureVariants_agree_account :
    ∃ m, Sample.bank.modelAlone Sample.account = .ok m ∧ m.target = .template ∧
      Sample.accountVariants m = [["Id", "Limit", "Owner"], ["Limit", "Owner"],
        ["Id", "Limit", "Owner"], ["Id", "Owner"], ["Limit", "Owner"], ["Owner"]] ∧
      ∃ (u : FailureUnion ClassUse TypeUse) (d p : DataClass ClassUse TypeUse), m.WritesUnion u ∧
        (∀ f ∈ d.factories, m.WritesFactory u m.names.fieldFailure f) ∧
        (∀ f ∈ p.factories, m.WritesFactory u m.names.requiredFieldFailure f) ∧
        ∀ v ∈ u.variants, v.parent.display ∉ u.variants.map (·.name) := by
  have hvariants : (Sample.bank.modelAlone Sample.account).map
      (fun m => (Sample.accountVariants m, Sample.accountParents m)) =
      .ok ([["Id", "Limit", "Owner"], ["Limit", "Owner"],
        ["Id", "Limit", "Owner"], ["Id", "Owner"], ["Limit", "Owner"], ["Owner"]],
        ["AccountFieldFailure", "AccountRequiredFieldFailure", "AccountRequiredFieldFailure"]) := by
    decide +kernel
  obtain ⟨m, hm, hvariants⟩ := Json.map_eq_ok_iff.1 hvariants
  obtain ⟨hadded, hparents⟩ := Prod.mk.inj hvariants
  have htarget : m.target = .template := by
    obtain ⟨hfits, -⟩ := fitsMark_of_modelAlone hm
    cases hfits with
    | template _ _ _ htarget => exact htarget
  obtain ⟨_, _, _, _, u, d, p, -, -, -, -, -, hunion, hmodel, hparams, -, -, -, hvisible⟩ :=
    failureVariants_agree hm htarget "arrow.core.Option"
  refine ⟨m, hm, htarget, hadded, u, d, p, hunion, hmodel, hparams,
    hvisible.2 fun q hq hname => ?_⟩
  have hparent : (m.parentOf q).simpleName ∈ Sample.accountParents m :=
    List.mem_map_of_mem (f := fun q => (m.parentOf q).simpleName) hq
  have hnone : ∀ n ∈ ["AccountFieldFailure", "AccountRequiredFieldFailure",
      "AccountRequiredFieldFailure"], n ∉ ["Id", "Limit", "Owner"] := by
    decide
  rw [hparents] at hparent
  rw [(List.cons.inj hadded).1] at hname
  exact hnone _ hparent hname

end ModelForge
