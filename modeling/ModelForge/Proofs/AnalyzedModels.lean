/-
What a target is analyzed to, and the files that are made of it.

* `Context.modelAlone` — the model of a target that is analyzed alone; by the steadiness of
  the analysis a run finds the same models (`models_analysisReport`);
* `Model.FitsMark` — names and target of a model are those that the marker of its class asks
  for (`fitsMark_of_modelAlone`);
* `Model.files_of_template`, `Model.files_of_validatable` — the files of a model that fits its
  marker, so that generation refuses none;
* `Context.files_eq_flatMap` — the files of a run are those of its models.
-/
import ModelForge.Proofs.RunIndependence

namespace ModelForge

namespace Analysis

variable {α : Type}

theorem result_of (r : Except Problem α) (p : Progress) : (of r).result p = r := by
  cases r with
  | ok x => rfl
  | error e => rfl

/-- What comes after a refusal under a condition is reached only if the condition fails. -/
theorem result_guarded {c : Prop} {_ : Decidable c} {e : Problem} {f : PUnit → Analysis α}
    {p : Progress} {x : α} (h : (if c then throw e >>= f else f ⟨⟩ : Analysis α).result p = .ok x) :
    ¬ c ∧ (f ⟨⟩).result p = .ok x := by
  split at h
  · cases h
  · exact ⟨‹_›, h⟩

end Analysis

/-! ### Models -/

/-- The names and the target of a model are those that the marker of its class asks for. -/
inductive Model.FitsMark (c : ClassDecl) (m : Model) : TargetMark → Prop
  | template {use : Annotation} {base : String} (kind : c.kind = .interface)
    (identifier : use.identifier "name" = .ok base) (names : m.names = .template c.package base)
    (target : m.target = .template) : FitsMark c m (.template use)
  | validatable {companion : CompanionDecl} (kind : c.kind = .data)
    (present : c.companion = some companion) (names : m.names = .validatable (.ofClass c))
    (target : m.target = .validatable companion.name) : FitsMark c m .validatable

namespace Context

open Analysis

variable {ctx : Context}

/-- What a target is analyzed to alone, with a new cache. -/
def modelAlone (ctx : Context) (t : Target) : Except Problem Model :=
  (ctx.analyze t).result {}

theorem modelOf_of_modelAlone {t : Target} {m : Model} (h : ctx.modelAlone t = .ok m) :
    (ctx.modelOf t).result {} = .ok m := by
  obtain ⟨m', hm', h⟩ := result_bind_eq_ok_iff.1 h
  obtain ⟨_, -, h⟩ := result_bind_eq_ok_iff.1 h
  obtain rfl : m' = m := Except.ok.inj h
  exact hm'

/-- A template that is accepted is an interface, its marker gives the base name, and its
properties are those of the template. -/
theorem analyzeTemplate_eq_ok {c : ClassDecl} {use : Annotation} {m : Model}
    (h : (ctx.analyzeTemplate c use).result {} = .ok m) :
    m.FitsMark c (.template use) ∧ m.declaration = c.qualifiedName ∧
      (ctx.buildTemplate c).result {} = .ok m.properties := by
  obtain ⟨base, hbase, h⟩ := result_bind_eq_ok_iff.1 h
  have hmarked := (steady_of (use.identifier "name")).sound (sound_start ctx)
  rw [result_of] at hbase
  obtain ⟨hkind, h⟩ := result_guarded h
  obtain ⟨templates, -, h⟩ := result_bind_eq_ok_iff.1 h
  have hcollected := (steady_collectTemplates c.nested).sound hmarked
  obtain ⟨properties, hproperties, h⟩ := result_bind_eq_ok_iff.1 h
  -- the properties are built on what the collection has left, which is as good as a new cache
  rw [(steady_buildTemplate c).result_eq hcollected] at hproperties
  obtain rfl := Except.ok.inj h
  exact ⟨.template (Decidable.not_not.1 hkind) hbase rfl rfl, rfl, hproperties⟩

/-- A validatable class that is accepted is a data class with a companion, and its properties
are the declared ones. -/
theorem analyzeValidatable_eq_ok {c : ClassDecl} {m : Model}
    (h : (ctx.analyzeValidatable c).result {} = .ok m) :
    m.FitsMark c .validatable ∧ m.declaration = c.qualifiedName ∧
      (ctx.buildDeclared c).result {} = .ok m.properties := by
  unfold analyzeValidatable at h
  obtain ⟨hkind, h⟩ := result_guarded h
  cases hcompanion : c.companion with
  | none =>
    rw [hcompanion] at h
    cases h
  | some companion =>
    rw [hcompanion] at h
    obtain ⟨properties, hproperties, h⟩ := result_bind_eq_ok_iff.1 h
    obtain rfl := Except.ok.inj h
    exact ⟨.validatable (Decidable.not_not.1 hkind) hcompanion rfl rfl, rfl, hproperties⟩

theorem fitsMark_of_modelAlone {t : Target} {m : Model} (h : ctx.modelAlone t = .ok m) :
    m.FitsMark t.decl t.mark ∧ m.declaration = t.decl.qualifiedName := by
  have hm := modelOf_of_modelAlone h
  obtain ⟨c, mark⟩ := t
  cases mark with
  | template use =>
    obtain ⟨hfits, hdeclaration, -⟩ := analyzeTemplate_eq_ok hm
    exact ⟨hfits, hdeclaration⟩
  | validatable =>
    obtain ⟨hfits, hdeclaration, -⟩ := analyzeValidatable_eq_ok hm
    exact ⟨hfits, hdeclaration⟩

end Context

/-! ### Files -/

namespace Model

variable {m : Model}

theorem files_of_template {package base : String} (option : String)
    (hnames : m.names = .template package base) (htarget : m.target = .template) :
    ∃ builder : Kotlin.Builder TypeName TypeName,
      builder.name = .simple package (base ++ "Builder") ∧
      m.files option = .ok [
        ⟨package, base ++ "FieldFailure", .failureUnion m.failureUnion⟩,
        ⟨package, base, .dataClass (m.dataClass .model)⟩,
        ⟨package, base ++ "Params", .dataClass (m.dataClass .params)⟩,
        ⟨package, base ++ "Builder", .builder builder⟩] := by
  -- the family of a template has a builder, so that generation does not refuse
  have hbuilder : ∃ builder, m.builder? = some builder ∧
      builder.name = .simple package (base ++ "Builder") := by
    unfold builder?
    rw [hnames]
    exact ⟨_, rfl, rfl⟩
  obtain ⟨builder, hbuilder, hname⟩ := hbuilder
  refine ⟨builder, hname, ?_⟩
  unfold files
  rw [htarget, hbuilder]
  show Except.ok [m.file _ _, m.file _ _, m.file _ _, m.file _ _] = _
  rw [hname, file, file, file, file, hnames]
  rfl

theorem files_of_validatable {companion : String} (option : String)
    (htarget : m.target = .validatable companion) :
    m.files option = .ok
      (⟨m.names.package, m.names.base ++ "FieldFailure", .failureUnion m.failureUnion⟩ ::
        ⟨m.names.package, m.names.base ++ "CompanionOf", .factory (m.companionOf companion)⟩ ::
        match m.companionOnly? companion option with
        | some only => [⟨m.names.package, m.names.base ++ "CompanionOnly", .only only⟩]
        | none => []) := by
  unfold files
  rw [htarget]
  rfl

/-- What the names of a model's files add to its base name. -/
def endings (m : Model) (option : String) : List String :=
  match m.target with
  | .template => ["FieldFailure", "", "Params", "Builder"]
  | .validatable _ =>
    "FieldFailure" :: "CompanionOf" ::
      if m.properties.any fun p => p.kind.isOption option then ["CompanionOnly"] else []

/-- The generated files of a model, none if generation refuses it. -/
def generatedFiles (m : Model) (option : String) : List GeneratedFile :=
  match m.generate option with
  | .ok files => files
  | .error _ => []

/-- Generation refuses no model that fits its marker, and its files are named by the
endings. -/
theorem generate_of_fitsMark {c : ClassDecl} {mark : TargetMark} (option : String)
    (h : m.FitsMark c mark) :
    m.generate option = .ok (m.generatedFiles option) ∧
      (m.generatedFiles option).map (fun f => (f.package, f.name)) =
        (m.endings option).map fun ending => (m.names.package, m.names.base ++ ending) := by
  have hfiles : ∃ files, m.files option = .ok files ∧
      files.map (fun f => (f.package, f.name)) =
        (m.endings option).map fun ending => (m.names.package, m.names.base ++ ending) := by
    unfold endings
    cases h with
    | template _ _ hnames htarget =>
      obtain ⟨_, -, hfiles⟩ := files_of_template option hnames htarget
      refine ⟨_, hfiles, ?_⟩
      rw [htarget, hnames]
      simp [ModelNames.template]
    | validatable _ _ _ htarget =>
      refine ⟨_, files_of_validatable option htarget, ?_⟩
      rw [htarget]
      unfold companionOnly?
      cases m.properties.any fun p => p.kind.isOption option with
      | true => rfl
      | false => rfl
  obtain ⟨files, hfiles, hnames⟩ := hfiles
  have hgenerate : m.generate option = .ok (files.map Kotlin.File.generated) := by
    rw [generate, hfiles]
    rfl
  have hgenerated : m.generatedFiles option = files.map Kotlin.File.generated := by
    rw [generatedFiles, hgenerate]
  rw [hgenerated, List.map_map]
  exact ⟨hgenerate, hnames⟩

end Model

/-! ### Models and files of a run -/

namespace Context

open Analysis

variable {ctx : Context}

theorem alone_of_modelAlone {t : Target} {m : Model} (h : ctx.modelAlone t = .ok m) :
    ctx.alone t = .ok (m.generatedFiles ctx.markers.option) := by
  have hanalyze : (ctx.analyze t).result {} = .ok m := h
  have hgenerate := (m.generate_of_fitsMark ctx.markers.option (fitsMark_of_modelAlone h).1).1
  show (ctx.analyze t >>= fun m => of (m.generate ctx.markers.option)).result {} = _
  rw [result_bind, hanalyze, ← hgenerate]
  exact result_of _ _

theorem alone_of_modelAlone_error {t : Target} {p : Problem} (h : ctx.modelAlone t = .error p) :
    ctx.alone t = .error p := by
  have hanalyze : (ctx.analyze t).result {} = .error p := h
  show (ctx.analyze t >>= fun m => of (m.generate ctx.markers.option)).result {} = _
  rw [result_bind, hanalyze]

theorem models_analysisReport :
    ctx.analysisReport.models = ctx.targets.filterMap fun t => (ctx.modelAlone t).toOption := by
  show ((outcomes ctx.analyze ctx.targets).filterMap fun o => o.success?.map (·.2)) = _
  rw [outcomes_eq steady_analyze, List.filterMap_map]
  refine congrArg (ctx.targets.filterMap ·) (funext fun t => ?_)
  show Option.map (·.2) (Outcome.success? ⟨t, ctx.modelAlone t⟩) = _
  cases ctx.modelAlone t with
  | ok m => rfl
  | error p => rfl

theorem exists_modelAlone_of_mem {m : Model} (h : m ∈ ctx.analysisReport.models) :
    ∃ t ∈ ctx.targets, ctx.modelAlone t = .ok m := by
  rw [models_analysisReport] at h
  obtain ⟨t, ht, hm⟩ := List.mem_filterMap.1 h
  refine ⟨t, ht, ?_⟩
  cases halone : ctx.modelAlone t with
  | ok m' =>
    rw [halone] at hm
    exact congrArg _ (Option.some.inj hm)
  | error p =>
    rw [halone] at hm
    cases hm

/-- The files of a run are those of its models, in order. -/
theorem files_eq_flatMap :
    ctx.generationReport.files =
      ctx.analysisReport.models.flatMap (·.generatedFiles ctx.markers.option) := by
  rw [files_generationReport, models_analysisReport]
  induction ctx.targets with
  | nil => rfl
  | cons t targets ih =>
    rw [List.flatMap_cons, ih, filesAlone]
    cases hm : ctx.modelAlone t with
    | ok m => simp [hm, alone_of_modelAlone hm, Except.toOption]
    | error p => simp [hm, alone_of_modelAlone_error hm, Except.toOption]

/-- Files are generated for every target that is analyzed to a model. -/
theorem generated_eq_map :
    ctx.generationReport.generated = ctx.analysisReport.models.map (·.declaration) := by
  rw [generated_generationReport, models_analysisReport]
  induction ctx.targets with
  | nil => rfl
  | cons t targets ih =>
    cases hm : ctx.modelAlone t with
    | ok m =>
      have hdeclaration := (fitsMark_of_modelAlone hm).2
      simpa [List.filterMap_cons, hm, alone_of_modelAlone hm, Except.toOption, Except.isOk,
        Except.toBool, hdeclaration] using ih
    | error p =>
      simpa [List.filterMap_cons, hm, alone_of_modelAlone_error hm, Except.toOption, Except.isOk,
        Except.toBool] using ih

end Context

end ModelForge
