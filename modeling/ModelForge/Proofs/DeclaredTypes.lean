/-
A run without diagnostics leaves no reference dangling.

Code that is generated for a nested model refers to the model, its params, its builder and the
two unions of its failures by names that classification derives from the marker of the nested
class.  The files are named by the analysis of that class as a target of its own.  The two
agree:

* `Resolution.Yields` — what a computation gives on every sound cache satisfies a
  postcondition;
* `Context.yields_classifyAt` — every nested model of a kind, at any depth, has the names that
  the marker of a declared class gives;
* `Context.exists_model_of_modelNamesOf` — a run without diagnostics analyzes that class to a
  model of these names;
* `Context.provides_names` — the files of a model provide everything that its names stand for.

The statement about runs is `Context.provides_nested`.
-/
import ModelForge.Proofs.AnalyzedModels
import ModelForge.Proofs.DottedNames
import ModelForge.Proofs.WrittenDeclarations

namespace ModelForge

/-! ### Lists that correspond -/

section

variable {α β : Type} {R : α → β → Prop}

theorem exists_of_mem_forall₂ {as : List α} {bs : List β} (h : List.Forall₂ R as bs) :
    ∀ b ∈ bs, ∃ a ∈ as, R a b := by
  induction h with
  | nil => nofun
  | cons hab _ ih =>
    intro b hb
    rcases List.mem_cons.1 hb with rfl | hb
    · exact ⟨_, List.mem_cons_self, hab⟩
    · obtain ⟨a, ha, hr⟩ := ih b hb
      exact ⟨a, List.mem_cons_of_mem _ ha, hr⟩

/-- Lists that correspond have the same names if what corresponds has. -/
theorem map_eq_of_forall₂ {γ : Type} {f : α → γ} {g : β → γ} {as : List α} {bs : List β}
    (h : List.Forall₂ R as bs) (hname : ∀ a b, R a b → g b = f a) : bs.map g = as.map f := by
  induction h with
  | nil => rfl
  | cons hab _ ih => rw [List.map_cons, List.map_cons, hname _ _ hab, ih]

end

/-! ### Nested models of a kind -/

namespace PropertyKind

mutual

/-- The nested models of a kind, at any depth. -/
def models : PropertyKind → List NestedModel
  | standard _ arguments => modelsInArguments arguments
  | value _ | optionalValue _ _ => []
  | model m | optionalModel m _ | modelList m _ | modelNonEmptyList m _ => [m]

/-- The nested models of an argument; a star has none. -/
def modelsInArgument : Option PropertyKind → List NestedModel
  | none => []
  | some kind => kind.models

/-- The nested models of arguments. -/
def modelsInArguments : List (Option PropertyKind) → List NestedModel
  | [] => []
  | a :: as => modelsInArgument a ++ modelsInArguments as

end

/-- A container of a model or of a value has the nested models of its content. -/
theorem models_inContainer? {container : Container} {inner kind : PropertyKind} {nullable : Bool}
    (h : inContainer? container inner nullable = some kind) : kind.models = inner.models := by
  unfold inContainer? at h
  split at h
  all_goals cases h
  all_goals rfl

theorem models_ofType (m : Markers) (type : TypeName) (arguments : List (Option PropertyKind)) :
    (ofType m type arguments).models = modelsInArguments arguments := by
  unfold ofType
  split
  · rename_i container inner _
    cases hc : inContainer? container inner type.nullable with
    | none => rfl
    | some kind =>
      show kind.models = inner.models ++ []
      rw [models_inContainer? hc, List.append_nil]
  · rfl

end PropertyKind

/-! ### Postconditions -/

namespace Resolution

variable {α β : Type} {ctx : Context}

/-- On a sound cache the computation gives only what satisfies `post`, and it leaves a sound
cache. -/
structure Yields (ctx : Context) (r : Resolution α) (post : α → Prop) : Prop where
  sound : ∀ {c : ResolutionCache}, c.Sound ctx → (r.leaves c).Sound ctx
  holds : ∀ {c : ResolutionCache} {a : α}, c.Sound ctx → r.result c = .ok a → post a

theorem yields_pure {a : α} {post : α → Prop} (h : post a) : Yields ctx (pure a) post := by
  refine ⟨id, fun _ ha => ?_⟩
  cases ha
  exact h

theorem yields_throw {p : Problem} {post : α → Prop} : Yields ctx (throw p) post :=
  ⟨id, nofun⟩

theorem Yields.bind {r : Resolution α} {f : α → Resolution β} {middle : α → Prop}
    {post : β → Prop} (h : Yields ctx r middle) (hf : ∀ a, middle a → Yields ctx (f a) post) :
    Yields ctx (r >>= f) post where
  sound := by
    intro c hc
    rw [leaves_bind]
    cases hr : r.result c with
    | error p => exact h.sound hc
    | ok a => exact (hf a (h.holds hc hr)).sound (h.sound hc)
  holds := by
    intro c b hc hb
    rw [result_bind] at hb
    cases hr : r.result c with
    | error p =>
      rw [hr] at hb
      cases hb
    | ok a =>
      rw [hr] at hb
      exact (hf a (h.holds hc hr)).holds (h.sound hc) hb

/-- What is known of a transparent computation on the empty cache is known on all. -/
theorem Transparent.yields {r : Resolution α} {post : α → Prop} (h : r.Transparent ctx)
    (hpost : ∀ a, r.result {} = .ok a → post a) : Yields ctx r post := by
  refine ⟨h.sound, fun {c a} hc ha => hpost a ?_⟩
  rw [← h.result_eq hc]
  exact ha

end Resolution

/-! ### Where the names of nested models come from -/

namespace Context

open Resolution PropertyKind

variable {ctx : Context}

/-- The names are those that the marker of a declared class gives. -/
def Names (ctx : Context) (names : ModelNames) : Prop :=
  ∃ c, ctx.index.Declares c ∧ ctx.modelNamesOf c = .ok (some names)

/-- Every nested model of the kind is named by a declared class. -/
def NamesAll (ctx : Context) (models : List NestedModel) : Prop :=
  ∀ nested ∈ models, ctx.Names nested.names

theorem namesAll_nil : ctx.NamesAll [] :=
  nofun

theorem namesAll_singleton {nested : NestedModel} (h : ctx.Names nested.names) :
    ctx.NamesAll [nested] := by
  intro other hother
  obtain rfl := List.mem_singleton.1 hother
  exact h

theorem namesAll_append {models models' : List NestedModel} (h : ctx.NamesAll models)
    (h' : ctx.NamesAll models') : ctx.NamesAll (models ++ models') := by
  intro nested hnested
  rcases List.mem_append.1 hnested with hnested | hnested
  · exact h nested hnested
  · exact h' nested hnested

theorem yields_modelNames {c : ClassDecl} (hc : ctx.index.Declares c) :
    Yields ctx (ctx.modelNames c) fun names => ctx.modelNamesOf c = .ok names := by
  obtain ⟨hresult, htransparent⟩ := modelNames_spec hc
  refine htransparent.yields fun names hnames => ?_
  rw [← hresult (ResolutionCache.sound_empty ctx)]
  exact hnames

mutual

/-- Classification keeps to named models if the expansion of aliases does. -/
theorem yields_classifyWith {expand : AliasDecl → TypeRef → Resolution PropertyKind}
    (hexpand : ∀ a reference, Yields ctx (expand a reference) fun kind => ctx.NamesAll kind.models)
    (scope : Option Scope) :
    ∀ t : TypeRef, Yields ctx (ctx.classifyWith expand scope t) fun kind =>
      ctx.NamesAll kind.models
  | .mk name arguments nullable => by
    have hofType : ∀ type, Yields ctx (do
          let kinds ← ctx.classifyArguments expand scope arguments
          return PropertyKind.ofType ctx.markers type kinds)
        fun kind => ctx.NamesAll kind.models := by
      intro type
      refine (yields_classifyArguments hexpand scope arguments).bind fun kinds hkinds => ?_
      refine yields_pure ?_
      rw [models_ofType]
      exact hkinds
    rw [classifyWith]
    split
    · exact hofType _
    · exact hofType _
    · -- a class: only one that a model is generated for is a nested model
      rename_i c hr
      have hc := DeclarationIndex.declares_of_resolve hr
      refine (yields_modelNames hc).bind fun names hnames => ?_
      cases names with
      | some names => exact yields_pure (namesAll_singleton ⟨c, hc, hnames⟩)
      | none =>
        have hvalue := (transparent_validatedValue hc nullable).yields fun _ _ => trivial
        refine hvalue.bind fun value _ => ?_
        cases value with
        | some v => exact yields_pure namesAll_nil
        | none => exact hofType _
    · -- an alias: where the target is standard, the arguments are those of the reference
      rename_i a _
      refine (hexpand a _).bind fun kind hkind => ?_
      cases kind with
      | standard =>
        refine (yields_classifyArguments hexpand scope arguments).bind fun kinds hkinds => ?_
        exact yields_pure hkinds
      | value v => exact yields_pure namesAll_nil
      | _ => exact yields_pure hkind

theorem yields_classifyArgument {expand : AliasDecl → TypeRef → Resolution PropertyKind}
    (hexpand : ∀ a reference, Yields ctx (expand a reference) fun kind => ctx.NamesAll kind.models)
    (scope : Option Scope) :
    ∀ a : TypeArgument, Yields ctx (ctx.classifyArgument expand scope a) fun kind =>
      ctx.NamesAll (modelsInArgument kind)
  | .star => by
    rw [classifyArgument]
    exact yields_pure namesAll_nil
  | .type _ t => by
    rw [classifyArgument]
    exact (yields_classifyWith hexpand scope t).bind fun _ hkind => yields_pure hkind

theorem yields_classifyArguments {expand : AliasDecl → TypeRef → Resolution PropertyKind}
    (hexpand : ∀ a reference, Yields ctx (expand a reference) fun kind => ctx.NamesAll kind.models)
    (scope : Option Scope) :
    ∀ as : List TypeArgument, Yields ctx (ctx.classifyArguments expand scope as) fun kinds =>
      ctx.NamesAll (modelsInArguments kinds)
  | [] => by
    rw [classifyArguments]
    exact yields_pure namesAll_nil
  | a :: as => by
    rw [classifyArguments]
    refine (yields_classifyArgument hexpand scope a).bind fun kind hkind => ?_
    refine (yields_classifyArguments hexpand scope as).bind fun kinds hkinds => ?_
    exact yields_pure (namesAll_append hkind hkinds)

end

theorem yields_classifyAt (scope : Option Scope) (depth : Nat) :
    ∀ t : TypeRef, Yields ctx (ctx.classifyAt scope depth t) fun kind =>
      ctx.NamesAll kind.models := by
  induction depth with
  | zero =>
    intro t
    rw [classifyAt]
    exact yields_classifyWith (fun _ _ => yields_throw) scope t
  | succ depth ih =>
    intro t
    rw [classifyAt]
    exact yields_classifyWith (fun a reference => ih (a.expand reference)) scope t

/-! ### Properties of models -/

/-- Every nested model of the properties is named by a declared class. -/
def NamesNested (ctx : Context) (properties : List Property) : Prop :=
  ∀ p ∈ properties, ctx.NamesAll p.kind.models

theorem yields_classifyDeclared (c : ClassDecl) (p : OwnedProperty) :
    Yields ctx (ctx.classifyDeclared c p) fun property => ctx.NamesAll property.kind.models :=
  (yields_classifyAt _ maxAliasDepth _).bind fun _ hkind => yields_pure hkind

theorem yields_classifyAll (c : ClassDecl) (ps : List OwnedProperty) :
    Yields ctx (ctx.classifyAll c ps) ctx.NamesNested := by
  induction ps with
  | nil => exact yields_pure nofun
  | cons p ps ih =>
    refine (yields_classifyDeclared c p).bind fun property hproperty => ?_
    refine ih.bind fun properties hproperties => ?_
    exact yields_pure (List.forall_mem_cons.2 ⟨hproperty, hproperties⟩)

theorem yields_buildDeclared (c : ClassDecl) :
    Yields ctx (ctx.buildDeclared c) ctx.NamesNested := by
  show Yields ctx (if (ctx.declaredProperties c).isEmpty then throw (.noProperties c.qualifiedName)
    else ctx.classifyAll c (ctx.declaredProperties c)) _
  split
  · exact yields_throw
  · exact yields_classifyAll c _

theorem yields_addComposed (c : ClassDecl) (fields : List ComposedField) :
    ∀ {properties : List Property}, ctx.NamesNested properties →
      Yields ctx (ctx.addComposed c properties fields) ctx.NamesNested := by
  induction fields with
  | nil => exact fun h => yields_pure h
  | cons f fields ih =>
    intro properties h
    have hclassify : Yields ctx (ctx.classify none f.field.type) fun kind =>
        ctx.NamesAll kind.models := yields_classifyAt none maxAliasDepth f.field.type
    unfold addComposed
    split
    · -- after a clash of names nothing is given
      exact yields_throw.bind fun _ (h : False) => h.elim
    · refine hclassify.bind fun kind hkind => ih fun p hp => ?_
      rcases List.mem_append.1 hp with hp | hp
      · exact h p hp
      · obtain rfl := List.mem_singleton.1 hp
        exact hkind

/-- The nested models of an analyzed target are named by declared classes. -/
theorem namesNested_of_modelAlone {t : Target} {m : Model} (h : ctx.modelAlone t = .ok m) :
    ctx.NamesNested m.properties := by
  have hm := modelOf_of_modelAlone h
  have hempty := ResolutionCache.sound_empty ctx
  obtain ⟨c, mark⟩ := t
  cases mark with
  | template use =>
    -- the composed fields are added on the cache that the declared properties have left
    obtain ⟨-, -, hproperties⟩ := analyzeTemplate_eq_ok hm
    obtain ⟨declared, hdeclared, hproperties⟩ := Analysis.result_bind_eq_ok_iff.1 hproperties
    obtain ⟨_, -, hproperties⟩ := Analysis.result_bind_eq_ok_iff.1 hproperties
    obtain ⟨fields, -, hproperties⟩ := Analysis.result_bind_eq_ok_iff.1 hproperties
    have hsound := (Analysis.steady_of (ctx.expandComposition c.qualifiedName c.annotations)).sound
      ((Analysis.steady_warnAll (ctx.compositionWarnings c.annotations)).sound
        ((Analysis.steady_resolve (transparent_buildDeclared c)).sound
          (Analysis.sound_start ctx)))
    exact (yields_addComposed c fields ((yields_buildDeclared c).holds hempty hdeclared)).holds
      hsound hproperties
  | validatable =>
    obtain ⟨-, -, hproperties⟩ := analyzeValidatable_eq_ok hm
    exact (yields_buildDeclared c).holds hempty hproperties

/-! ### The model of a named class -/

theorem modelAlone_of_no_diagnostics (h : ctx.generationReport.diagnostics = []) {t : Target}
    (ht : t ∈ ctx.targets) : ∃ m ∈ ctx.analysisReport.models, ctx.modelAlone t = .ok m := by
  rw [diagnostics_generationReport] at h
  cases hm : ctx.modelAlone t with
  | ok m =>
    refine ⟨m, ?_, rfl⟩
    rw [models_analysisReport]
    exact List.mem_filterMap.2 ⟨t, ht, by rw [hm]; rfl⟩
  | error p =>
    have hnone := List.filterMap_eq_nil_iff.1 h t ht
    rw [diagnosticAlone_of_error (alone_of_modelAlone_error hm)] at hnone
    cases hnone

/-- The marker that names the model of a class makes the class a target, and the model that it
is analyzed to has these names. -/
theorem exists_model_of_modelNamesOf (h : ctx.generationReport.diagnostics = []) {c : ClassDecl}
    {names : ModelNames} (hc : ctx.index.Declares c)
    (hnames : ctx.modelNamesOf c = .ok (some names)) :
    ∃ m ∈ ctx.analysisReport.models, m.names = names ∧ ∃ mark, m.FitsMark c mark := by
  have hclass : c ∈ ctx.index.classes := (DeclarationIndex.mem_classes_of_class? hc).1
  have hmodel : ∀ mark, c.targetMark? ctx.markers = some mark →
      ∃ m ∈ ctx.analysisReport.models, m.FitsMark c mark := by
    intro mark hmark
    have htarget : (⟨c, mark⟩ : Target) ∈ ctx.targets :=
      List.mem_filterMap.2 ⟨c, hclass, by rw [Target.of?, hmark]; rfl⟩
    obtain ⟨m, hm, halone⟩ := modelAlone_of_no_diagnostics h htarget
    exact ⟨m, hm, (fitsMark_of_modelAlone halone).1⟩
  unfold modelNamesOf at hnames
  unfold ClassDecl.targetMark? at hmodel
  cases htemplate : c.annotated? ctx.markers.modelTemplate with
  | some use =>
    rw [htemplate] at hnames hmodel
    obtain ⟨m, hm, hfits⟩ := hmodel _ rfl
    refine ⟨m, hm, ?_, _, hfits⟩
    -- both sides decode the same marker
    cases hfits with
    | template _ hidentifier hmnames _ =>
      simp only [hidentifier] at hnames
      cases hnames
      exact hmnames
  | none =>
    rw [htemplate] at hnames hmodel
    cases hvalidatable : c.annotated? ctx.markers.validatable with
    | some use =>
      rw [hvalidatable] at hnames hmodel
      obtain ⟨m, hm, hfits⟩ := hmodel _ rfl
      cases hnames
      refine ⟨m, hm, ?_, _, hfits⟩
      cases hfits with
      | validatable _ _ hmnames _ => exact hmnames
    | none =>
      rw [hvalidatable] at hnames
      cases hnames

end Context

/-! ### What files declare -/

/-- The file is that of a class: it lies in the class's package, goes by the class's name and
declares the class. -/
structure Kotlin.File.IsOf (f : Kotlin.File) (t : TypeName) : Prop where
  package : f.package = t.package
  name : f.name = t.simpleName
  declares : f.Declares t

/-- The files of a model before they are written out, none if generation refuses it. -/
def Model.kotlinFiles (m : Model) (option : String) : List Kotlin.File :=
  match m.files option with
  | .ok files => files
  | .error _ => []

theorem Model.generatedFiles_eq_map (m : Model) (option : String) :
    m.generatedFiles option = (m.kotlinFiles option).map Kotlin.File.generated := by
  unfold generatedFiles generate kotlinFiles
  cases m.files option with
  | ok files => rfl
  | error p => rfl

/-! ### Runs -/

namespace Context

variable {ctx : Context}

/-- The files of a run before they are written out. -/
def kotlinFiles (ctx : Context) : List Kotlin.File :=
  ctx.analysisReport.models.flatMap (·.kotlinFiles ctx.markers.option)

theorem files_eq_map : ctx.generationReport.files = ctx.kotlinFiles.map Kotlin.File.generated := by
  rw [files_eq_flatMap, kotlinFiles, List.map_flatMap]
  exact List.flatMap_congr fun m _ => m.generatedFiles_eq_map ctx.markers.option

/-- A run provides what a family of names stands for: the union of failures, and with it the
union of required ones, and either the model, the params and the builder, or an indexed data
class that is its own model. -/
structure Provides (ctx : Context) (names : ModelNames) : Prop where
  failures : ∃ f ∈ ctx.kotlinFiles, f.IsOf names.fieldFailure ∧
    f.Declares names.requiredFieldFailure
  staged : names.hasParams = true → ∃ builder, names.builder? = some builder ∧
    ∀ t ∈ [names.model, names.params, builder], ∃ f ∈ ctx.kotlinFiles, f.IsOf t
  plain : names.hasParams = false → names.builder? = none ∧ names.params = names.model ∧
    ∃ c, ctx.index.class? names.model.canonicalName = some c ∧ c.kind = .data ∧
      names.model = .ofClass c

theorem mem_kotlinFiles {m : Model} {files : List Kotlin.File}
    (hm : m ∈ ctx.analysisReport.models) (hfiles : m.files ctx.markers.option = .ok files) :
    ∀ f ∈ files, f ∈ ctx.kotlinFiles := by
  intro f hf
  refine List.mem_flatMap.2 ⟨m, hm, ?_⟩
  rw [Model.kotlinFiles, hfiles]
  exact hf

theorem provides_template {m : Model} {package base : String}
    (hm : m ∈ ctx.analysisReport.models) (hnames : m.names = .template package base)
    (htarget : m.target = .template) : ctx.Provides m.names := by
  obtain ⟨builder, hbuilder, hfiles⟩ := Model.files_of_template ctx.markers.option hnames htarget
  have hmem := mem_kotlinFiles hm hfiles
  simp only [List.forall_mem_cons] at hmem
  obtain ⟨hfailuresFile, hmodelFile, hparamsFile, hbuilderFile, -⟩ := hmem
  have hunion : m.failureUnion.name = .simple package (base ++ "FieldFailure") ∧
      m.failureUnion.required = some (.simple package (base ++ "RequiredFieldFailure")) := by
    rw [Model.failureUnion, Model.required?, hnames]
    exact ⟨rfl, rfl⟩
  have hmodel : (m.dataClass .model).name = .simple package base := by
    show m.names.model = _
    rw [hnames]
    rfl
  have hparams : (m.dataClass .params).name = .simple package (base ++ "Params") := by
    show m.names.params = _
    rw [hnames]
    rfl
  -- otherwise the union would have claimed the name of the smaller one
  have hdistinct : base ++ "RequiredFieldFailure" ≠ base ++ "FieldFailure" := by
    rw [Ne, String.append_right_inj]
    decide
  rw [hnames]
  refine ⟨?_, fun _ => ⟨builder.name, ?_, ?_⟩, nofun⟩
  · refine ⟨_, hfailuresFile, ⟨rfl, rfl, ?_⟩, ?_⟩
    · exact (Kotlin.declares_failureUnion rfl hunion.1).1
    · exact (Kotlin.declares_failureUnion rfl hunion.1).2 hdistinct hunion.2
  · rw [hbuilder]
    rfl
  · rw [List.forall_mem_cons, List.forall_mem_cons, List.forall_mem_singleton]
    refine ⟨⟨_, hmodelFile, rfl, rfl, ?_⟩, ⟨_, hparamsFile, rfl, rfl, ?_⟩, ⟨_, hbuilderFile, ?_⟩⟩
    · exact Kotlin.declares_dataClass rfl hmodel
    · exact Kotlin.declares_dataClass rfl hparams
    · rw [hbuilder]
      exact ⟨rfl, rfl, Kotlin.declares_builder rfl hbuilder⟩

theorem provides_validatable {m : Model} {c : ClassDecl} {companion : String}
    (hm : m ∈ ctx.analysisReport.models) (hc : ctx.index.Declares c) (hkind : c.kind = .data)
    (hnames : m.names = .validatable (.ofClass c)) (htarget : m.target = .validatable companion) :
    ctx.Provides m.names := by
  have hfiles := mem_kotlinFiles hm (Model.files_of_validatable ctx.markers.option htarget)
  have hfailuresFile := hfiles _ List.mem_cons_self
  have hunion : m.failureUnion.name =
      .simple c.package ((TypeName.ofClass c).simpleName ++ "FieldFailure") := by
    show m.names.fieldFailure = _
    rw [hnames]
    rfl
  rw [hnames] at hfailuresFile ⊢
  refine ⟨⟨_, hfailuresFile, ⟨rfl, rfl, ?_⟩, ?_⟩, nofun, fun _ => ⟨rfl, rfl, c, ?_, hkind, rfl⟩⟩
  · exact (Kotlin.declares_failureUnion rfl hunion).1
  · -- without params the union of required failures is the union itself
    exact (Kotlin.declares_failureUnion rfl hunion).1
  · show ctx.index.class? (TypeName.ofClass c).canonicalName = some c
    rw [TypeName.canonicalName_ofClass]
    exact hc

theorem provides_names {m : Model} {c : ClassDecl} {mark : TargetMark}
    (hm : m ∈ ctx.analysisReport.models) (hc : ctx.index.Declares c) (h : m.FitsMark c mark) :
    ctx.Provides m.names := by
  cases h with
  | template _ _ hnames htarget => exact provides_template hm hnames htarget
  | validatable hkind _ hnames htarget => exact provides_validatable hm hc hkind hnames htarget

/-- **No reference is left dangling.**  In a run without diagnostics, whatever a nested model of
an analyzed property may be referred to by, at any depth, is declared by a file of the run, or
is a data class of the index. -/
theorem provides_nested (ctx : Context) (h : ctx.generationReport.diagnostics = []) :
    ctx.generationReport.files = ctx.kotlinFiles.map Kotlin.File.generated ∧
    ∀ m ∈ ctx.analysisReport.models, ∀ p ∈ m.properties, ∀ nested ∈ p.kind.models,
      ctx.Provides nested.names := by
  refine ⟨files_eq_map, fun m hm p hp nested hnested => ?_⟩
  obtain ⟨t, -, halone⟩ := exists_modelAlone_of_mem hm
  obtain ⟨c, hc, hnames⟩ := namesNested_of_modelAlone halone p hp nested hnested
  obtain ⟨m', hm', heq, mark, hfits⟩ := exists_model_of_modelNamesOf h hc hnames
  rw [← heq]
  exact provides_names hm' hc hfits

end Context

/-! ### Models inside standard types

`Order` holds models of both targets as arguments of standard types. -/

namespace Sample

/-- An interface of the package `t` that is marked as the template of a model. -/
def templateOf (name base : String) (properties : List (String × TypeRef)) : ClassDecl :=
  ⟨"t", name, .interface, [], [],
    [.mk "modelsmith.annotation.ModelTemplate" [("name", .string base)]],
    properties.map fun (property, type) => ⟨property, type, [], none⟩, none, [], false, none⟩

def order : ClassDecl :=
  templateOf "OrderTemplate" "Order"
    [("lines", applied "kotlin.Pair" [.named "kotlin.Int", .named "t.LineTemplate"]),
      ("total", applied "kotlin.Pair" [.named "kotlin.Int", .named "t.Money"])]

def orders : Context :=
  ⟨⟨[order, templateOf "LineTemplate" "Line" [("quantity", .named "kotlin.Int")],
    validatable "Money" [("amount", "kotlin.Int")]].map fun c => ⟨.ofClass c, "t.json"⟩⟩, {}⟩

/-- The nested models of all properties. -/
def nestedInOrders : List NestedModel :=
  (orders.analysisReport.models.flatMap (·.properties)).flatMap (·.kind.models)

end Sample

theorem Context.provides_nested_orders :
    Sample.orders.generationReport.diagnostics = [] ∧
    Sample.nestedInOrders.map (fun nested => (nested.names.base, nested.names.hasParams)) =
      [("Line", true), ("Money", false)] ∧
    ∀ nested ∈ Sample.nestedInOrders, Sample.orders.Provides nested.names := by
  have hdiagnostics : Sample.orders.generationReport.diagnostics = [] := by
    decide +kernel
  obtain ⟨-, hprovides⟩ := Context.provides_nested Sample.orders hdiagnostics
  refine ⟨hdiagnostics, by decide +kernel, fun nested hnested => ?_⟩
  obtain ⟨p, hp, hnested⟩ := List.mem_flatMap.1 hnested
  obtain ⟨m, hm, hp⟩ := List.mem_flatMap.1 hp
  exact hprovides m hm p hp nested hnested

end ModelForge
