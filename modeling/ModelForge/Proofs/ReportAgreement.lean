/-
What is analyzed is what is generated.

The models of a source model and its files are found by two runs over the same targets, each
with a cache and warnings of its own.  The two runs go in step:

* `Outcome.Matches` — a target is analyzed to a model and its files are generated from this
  model, or it is given up both times for the same problem;
* `Context.run_generate` — on any sound cache, generating a target's files does what analyzing
  it does, and no more (`Model.generate_of_fitsMark` says that no model is refused);
* `Context.run_treatAll_generate` — so both runs match, target for target, and leave the same
  cache and the same warnings;
* `Analysis.Builds` — no analysis ends in the problem that a builder cannot be generated
  (`Context.builds_analyze`), and so no run does.

The reports of both runs, and the commands that show them, are compared in
`Context.reports_agree`.
-/
import Mathlib.Data.List.Forall2
import ModelForge.CommandLine
import ModelForge.Proofs.PropertyOrder

namespace ModelForge

/-! ### Models without a builder -/

/-- Whether a problem is that the builder of a model cannot be generated. -/
def Problem.isNoBuilder : Problem → Bool
  | generation (.noBuilder _) => true
  | _ => false

theorem Problem.isNoBuilder_of_concernsTypes {e : Problem} (h : e.concernsTypes = true) :
    e.isNoBuilder = false := by
  cases e with
  | generation fault => cases h
  | _ => rfl

/-- The computation never ends in the problem that a builder cannot be generated. -/
def Builds {α : Type} (r : Except Problem α) : Prop :=
  ∀ e, r = .error e → e.isNoBuilder = false

theorem EndsIn.builds {α : Type} {r : Except Problem α} (h : EndsIn r) : Builds r :=
  fun e he => Problem.isNoBuilder_of_concernsTypes (h e he)

namespace Analysis

variable {α β : Type}

/-- Whatever has been gathered, the step never ends in the problem that a builder cannot be
generated. -/
def Builds (a : Analysis α) : Prop :=
  ∀ p, ModelForge.Builds (a.result p)

theorem builds_pure (x : α) : Builds (pure x : Analysis α) :=
  fun _ _ h => nomatch h

theorem builds_throw {e : Problem} (h : e.isNoBuilder = false) :
    Builds (throw e : Analysis α) := by
  rintro p _ ⟨⟩
  exact h

theorem Builds.bind {a : Analysis α} {f : α → Analysis β} (h : Builds a)
    (hf : ∀ x, Builds (f x)) : Builds (a >>= f) := by
  intro p e he
  rw [result_bind] at he
  cases hresult : a.result p with
  | ok x =>
    rw [hresult] at he
    exact hf x _ e he
  | error e' =>
    rw [hresult] at he
    cases he
    exact h p e hresult

theorem Builds.guarded {c : Prop} {_ : Decidable c} {a : Analysis PUnit} {f : PUnit → Analysis β}
    (ha : Builds a) (hf : ∀ u, Builds (f u)) : Builds (if c then a >>= f else f ⟨⟩) := by
  split
  · exact ha.bind hf
  · exact hf ⟨⟩

theorem builds_of {r : Except Problem α} (h : ModelForge.Builds r) : Builds (of r) := by
  intro p e he
  rw [result_of] at he
  exact h e he

theorem builds_warn (w : Warning) : Builds (warn w) :=
  fun _ _ h => nomatch h

theorem builds_warnAll (ws : List Warning) : Builds (warnAll ws) := by
  induction ws with
  | nil => exact builds_pure ()
  | cons w ws ih => exact (builds_warn w).bind fun _ => ih

theorem builds_resolve {r : Resolution α} (h : ∀ c, ModelForge.Builds (r.result c)) :
    Builds (resolve r) :=
  fun p => h p.cache

end Analysis

namespace Context

open Analysis

variable {ctx : Context}

theorem builds_collectTemplates (cs : List ClassDecl) : (ctx.collectTemplates cs).Builds := by
  induction cs with
  | nil => exact builds_pure []
  | cons c cs ih =>
    unfold collectTemplates
    split
    · exact ih
    · rename_i mark _
      have htemplate : EndsIn (ctx.templateOf c mark) :=
        (endsIn_identifier mark "name").bind fun _ => endsIn_ok _
      exact (builds_warn _).guarded fun _ => (builds_of htemplate.builds).bind fun _ =>
        ih.bind fun _ => builds_pure _

theorem builds_buildDeclared (c : ClassDecl) (cache : ResolutionCache) :
    Builds ((ctx.buildDeclared c).result cache) := by
  intro e h
  rw [buildDeclared] at h
  split at h
  · cases h
    rfl
  · exact (endsIn_classifyAll c (ctx.declaredProperties c) cache).builds e h

theorem builds_addComposed (c : ClassDecl) (fields : List ComposedField) :
    ∀ (properties : List Property) (cache : ResolutionCache),
      Builds ((ctx.addComposed c properties fields).result cache) := by
  induction fields with
  | nil => exact fun _ _ _ h => nomatch h
  | cons f fields ih =>
    intro properties cache e h
    unfold addComposed at h
    split at h
    · cases h
      rfl
    · rw [Resolution.result_bind] at h
      cases hkind : (ctx.classify none f.field.type).result cache with
      | error e' =>
        rw [hkind] at h
        cases h
        exact (endsIn_classify none f.field.type cache).builds e hkind
      | ok kind =>
        rw [hkind] at h
        exact ih _ _ e h

theorem builds_expandComposition (declaration : String) (annotations : List Annotation) :
    Builds (ctx.expandComposition declaration annotations) := by
  intro e h
  unfold expandComposition at h
  cases hread : Composition.readFields (ctx.compositionEvents annotations) with
  | error e' =>
    rw [hread] at h
    cases h
    exact (Composition.endsIn_readFields _).builds e hread
  | ok fields =>
    rw [hread] at h
    obtain ⟨f, -, g, -, -, -, rfl⟩ := Composition.merge_eq_error h
    rfl

theorem builds_buildTemplate (c : ClassDecl) : (ctx.buildTemplate c).Builds :=
  (builds_resolve (builds_buildDeclared c)).bind fun declared => (builds_warnAll _).bind fun _ =>
    (builds_of (builds_expandComposition _ _)).bind fun fields =>
      builds_resolve (builds_addComposed c fields declared)

theorem builds_analyzeTemplate (c : ClassDecl) (mark : Annotation) :
    (ctx.analyzeTemplate c mark).Builds :=
  (builds_of (endsIn_identifier mark "name").builds).bind fun _ =>
    (builds_throw rfl).guarded fun _ => (builds_collectTemplates c.nested).bind fun _ =>
      (builds_buildTemplate c).bind fun _ => builds_pure _

theorem builds_analyzeValidatable (c : ClassDecl) : (ctx.analyzeValidatable c).Builds := by
  unfold analyzeValidatable
  refine (builds_throw rfl).guarded fun _ => ?_
  split
  · exact builds_throw rfl
  · exact (builds_resolve (builds_buildDeclared c)).bind fun _ => builds_pure _

theorem builds_modelOf (t : Target) : (ctx.modelOf t).Builds := by
  obtain ⟨c, mark⟩ := t
  cases mark with
  | template use => exact builds_analyzeTemplate c use
  | validatable => exact builds_analyzeValidatable c

end Context

namespace Model

open Analysis

theorem builds_checkTemplates (m : Model) (ts : List ValidationTemplate) :
    ∀ functions : List String, (m.checkTemplates functions ts).Builds := by
  induction ts with
  | nil => exact fun _ => builds_pure ()
  | cons t ts ih =>
    intro functions
    unfold checkTemplates
    exact (builds_throw rfl).guarded fun _ => (builds_warnAll _).bind fun _ => ih _

theorem builds_check (m : Model) : m.check.Builds := by
  unfold check
  split
  · exact builds_throw rfl
  · exact m.builds_checkTemplates m.templates []

end Model

/-- No analysis ends in the problem that a builder cannot be generated. -/
theorem Context.builds_analyze {ctx : Context} (t : Target) : (ctx.analyze t).Builds :=
  (builds_modelOf t).bind fun m => m.builds_check.bind fun _ => Analysis.builds_pure m

/-! ### Two runs in step -/

/-- What a target is analyzed to and what its files come to: the files are those of the model,
which is called like the target, or it is the same problem both times. -/
inductive Outcome.Matches (option : String) :
    Outcome Model → Outcome (List GeneratedFile) → Prop
  | generated {t : Target} {m : Model} {files : List GeneratedFile}
    (declared : m.declaration = t.decl.qualifiedName) (written : m.generate option = .ok files) :
    Matches option ⟨t, .ok m⟩ ⟨t, .ok files⟩
  | refused (t : Target) (p : Problem) : Matches option ⟨t, .error p⟩ ⟨t, .error p⟩

namespace Context

open Analysis

variable {ctx : Context}

/-- A target's files are generated as it is analyzed, and nothing else is left behind. -/
theorem run_generate {p : Progress} (hp : p.cache.Sound ctx) (t : Target) :
    Outcome.Matches ctx.markers.option ⟨t, (ctx.analyze t).result p⟩
      ⟨t, (ctx.generate t).result p⟩ ∧
      (ctx.generate t).leaves p = (ctx.analyze t).leaves p := by
  rw [generate, result_bind, leaves_bind]
  cases h : (ctx.analyze t).result p with
  | error e => exact ⟨.refused t e, rfl⟩
  | ok m =>
    -- with a new cache the target comes to the same model, which fits its marker
    have halone : ctx.modelAlone t = .ok m := by
      rw [modelAlone, ← (steady_analyze t).result_eq hp, h]
    obtain ⟨hfits, hdeclared⟩ := fitsMark_of_modelAlone halone
    have hfiles := (Model.generate_of_fitsMark ctx.markers.option hfits).1
    show Outcome.Matches _ ⟨t, .ok m⟩ ⟨t, (of (m.generate _)).result _⟩ ∧
      (of (m.generate _)).leaves _ = _
    rw [result_of, hfiles]
    exact ⟨.generated hdeclared hfiles, rfl⟩

/-- Treating a target reports the problem that it ends in as a warning. -/
theorem run_treat_eq {α : Type} (step : Target → Analysis α) (t : Target) (p : Progress) :
    (treat step t).run p = (⟨t, (step t).result p⟩,
      match (step t).result p with
      | .ok _ => (step t).leaves p
      | .error e => { (step t).leaves p with
          reversedWarnings :=
            .skipped t.decl.qualifiedName e :: ((step t).leaves p).reversedWarnings }) := by
  unfold treat Analysis.result Analysis.leaves
  rw [StateT.run_bind]
  cases h : (step t).run.run p with
  | mk r p' =>
    have hstep : ExceptT.run (step t) p = (r, p') := h
    rw [hstep]
    cases r with
    | ok x => rfl
    | error e => rfl

theorem run_treat_generate {p : Progress} (hp : p.cache.Sound ctx) (t : Target) :
    Outcome.Matches ctx.markers.option ((treat ctx.analyze t).run p).1
        ((treat ctx.generate t).run p).1 ∧
      ((treat ctx.generate t).run p).2 = ((treat ctx.analyze t).run p).2 := by
  obtain ⟨hmatches, hleaves⟩ := run_generate hp t
  rw [run_treat_eq, run_treat_eq, hleaves]
  refine ⟨hmatches, ?_⟩
  dsimp only
  cases hmatches' : (ctx.analyze t).result p with
  | ok m =>
    rw [hmatches'] at hmatches
    cases h : (ctx.generate t).result p with
    | ok files => rfl
    | error e =>
      rw [h] at hmatches
      cases hmatches
  | error e =>
    rw [hmatches'] at hmatches
    cases h : (ctx.generate t).result p with
    | ok files =>
      rw [h] at hmatches
      cases hmatches
    | error e' =>
      rw [h] at hmatches
      cases hmatches
      rfl

/-- Two runs over the same targets match, target for target, and leave the same behind. -/
theorem run_treatAll_generate (targets : List Target) :
    ∀ {p : Progress}, p.cache.Sound ctx →
      List.Forall₂ (Outcome.Matches ctx.markers.option) ((treatAll ctx.analyze targets).run p).1
          ((treatAll ctx.generate targets).run p).1 ∧
        ((treatAll ctx.generate targets).run p).2 = ((treatAll ctx.analyze targets).run p).2 := by
  induction targets with
  | nil => exact fun _ => ⟨.nil, rfl⟩
  | cons t targets ih =>
    intro p hp
    obtain ⟨hfirst, hsame⟩ := run_treat_generate hp t
    have hsound : ((treat ctx.analyze t).run p).2.cache.Sound ctx := by
      rw [(run_treat ctx.analyze t p).2]
      exact (steady_analyze t).sound hp
    obtain ⟨hrest, hlast⟩ := ih hsound
    show List.Forall₂ _
        (((treat ctx.analyze t).run p).1 ::
          ((treatAll ctx.analyze targets).run ((treat ctx.analyze t).run p).2).1)
        (((treat ctx.generate t).run p).1 ::
          ((treatAll ctx.generate targets).run ((treat ctx.generate t).run p).2).1) ∧
      ((treatAll ctx.generate targets).run ((treat ctx.generate t).run p).2).2 =
        ((treatAll ctx.analyze targets).run ((treat ctx.analyze t).run p).2).2
    rw [hsame]
    exact ⟨.cons hfirst hrest, hlast⟩

end Context

/-! ### Reports -/

/-- Both reports are about the same: what is generated is what is analyzed, with the files of the
models, of which none is refused; and the problems are the same ones, in the same order. -/
structure AnalysisReport.AgreesWith (a : AnalysisReport) (g : GenerationReport)
    (option : String) : Prop where
  declarations : g.declarations = a.models.length + a.diagnostics.length
  generated : g.generated = a.models.map (·.declaration)
  files : ∃ files, a.models.mapM (·.generate option) = .ok files ∧ g.files = files.flatten
  diagnostics : g.diagnostics = a.diagnostics
  builds : ∀ d ∈ g.diagnostics, d.problem.isNoBuilder = false
  warnings : g.warnings = a.warnings

namespace Outcome

variable {option : String} {os : List (Outcome Model)} {os' : List (Outcome (List GeneratedFile))}

theorem diagnostics_of_matches (h : List.Forall₂ (Matches option) os os') :
    os'.filterMap diagnostic? = os.filterMap diagnostic? := by
  induction h with
  | nil => rfl
  | cons hfirst _ ih =>
    cases hfirst with
    | generated declared written => exact ih
    | refused t p => exact congrArg (_ :: ·) ih

theorem length_of_matches (h : List.Forall₂ (Matches option) os os') :
    os'.length = (os.filterMap fun o => o.success?.map (·.2)).length +
      (os.filterMap diagnostic?).length := by
  induction h with
  | nil => rfl
  | cons hfirst _ ih =>
    cases hfirst with
    | generated declared written =>
      simp only [List.length_cons, List.filterMap_cons, success?, diagnostic?, Option.map_some, ih]
      omega
    | refused t p =>
      simp only [List.length_cons, List.filterMap_cons, success?, diagnostic?, Option.map_none, ih]
      omega

/-- The targets whose files are generated are those that are analyzed, and the files are those
of their models. -/
theorem successes_of_matches (h : List.Forall₂ (Matches option) os os') :
    (os'.filterMap success?).map (·.1) =
        (os.filterMap fun o => o.success?.map (·.2)).map (·.declaration) ∧
      (os.filterMap fun o => o.success?.map (·.2)).mapM (·.generate option) =
        .ok ((os'.filterMap success?).map (·.2)) := by
  induction h with
  | nil => exact ⟨rfl, rfl⟩
  | cons hfirst _ ih =>
    obtain ⟨hnames, hfiles⟩ := ih
    cases hfirst with
    | refused t p => exact ⟨hnames, hfiles⟩
    | generated declared written =>
      refine ⟨congrArg₂ List.cons declared.symm hnames, ?_⟩
      simp only [List.filterMap_cons, success?, Option.map_some, List.mapM_cons, written]
      simp only [success?] at hfiles
      rw [hfiles]
      rfl

end Outcome

namespace Context

open Analysis

variable {ctx : Context}

/-- A problem that is reported is one that the analysis of a target has ended in. -/
theorem builds_of_mem_diagnostics {d : Diagnostic} (h : d ∈ ctx.analysisReport.diagnostics) :
    d.problem.isNoBuilder = false := by
  have hd : d ∈ (outcomes ctx.analyze ctx.targets).filterMap Outcome.diagnostic? := h
  rw [outcomes_eq steady_analyze, List.filterMap_map] at hd
  obtain ⟨t, -, ht⟩ := List.mem_filterMap.1 hd
  cases hresult : (ctx.analyze t).result {} with
  | ok m => simp [Outcome.diagnostic?, hresult] at ht
  | error e =>
    simp only [Function.comp_apply, Outcome.diagnostic?, hresult, Option.some.injEq] at ht
    rw [← ht]
    exact builds_analyze t {} e hresult

theorem agreesWith (ctx : Context) :
    ctx.analysisReport.AgreesWith ctx.generationReport ctx.markers.option := by
  obtain ⟨hmatches, hsame⟩ := run_treatAll_generate ctx.targets (sound_start ctx)
  have hdiagnostics : ctx.generationReport.diagnostics = ctx.analysisReport.diagnostics :=
    Outcome.diagnostics_of_matches hmatches
  obtain ⟨hnames, hfiles⟩ := Outcome.successes_of_matches hmatches
  exact {
    declarations := Outcome.length_of_matches hmatches
    generated := hnames
    files := ⟨_, hfiles, List.flatMap_def⟩
    diagnostics := hdiagnostics
    builds := fun d hd => builds_of_mem_diagnostics (hdiagnostics ▸ hd)
    warnings := congrArg Progress.warnings hsame }

end Context

/-- A configured run is refused both times for the same problem, or both reports agree. -/
theorem Config.agreesWith (c : Config) (t : FileTree) :
    (∃ p, c.analyze t = .error p ∧ c.generate t = .error p) ∨
      ∃ a g, c.analyze t = .ok a ∧ c.generate t = .ok g ∧ a.AgreesWith g c.markers.option := by
  unfold analyze generate
  cases c.load t with
  | error p => exact .inl ⟨p, rfl, rfl⟩
  | ok index => exact .inr ⟨_, _, rfl, rfl, Context.agreesWith ⟨index, c.markers⟩⟩

namespace CommandLine

/-- A check reports what an inspection reports.  If that is all, it succeeds; otherwise it says
besides that targets were skipped, and fails. -/
def Execution.Confirms (check inspect : Execution) : Prop :=
  (check.exitCode = 0 ∧ check.reported = inspect.reported) ∨
    ∃ skipped declarations, 0 < skipped ∧ check.exitCode = 1 ∧
      check.reported = inspect.reported ++ [errorLine (.skipped skipped declarations)]

theorem confirms_of_agreesWith {a : AnalysisReport} {g : GenerationReport} {option : String}
    (h : a.AgreesWith g option) (c : Config) (t : FileTree) (settings : List Setting)
    (ha : c.analyze t = .ok a) (hg : c.generate t = .ok g)
    (hall : value? .declaration settings = none) :
    (inspect t settings c).exitCode = 0 ∧ (check t c).Confirms (inspect t settings c) := by
  have hinspect : (inspect t settings c).exitCode = 0 ∧ (inspect t settings c).reported =
      a.warnings.map warningLine ++ a.diagnostics.flatMap diagnosticLines := by
    rw [inspect, ha]
    dsimp only
    rw [selected, hall]
    exact ⟨rfl, rfl⟩
  refine ⟨hinspect.1, ?_⟩
  rw [Execution.Confirms, hinspect.2, check, hg]
  dsimp only
  split
  · rename_i hsuccess
    rw [GenerationReport.isSuccess, List.isEmpty_iff, h.diagnostics] at hsuccess
    refine .inl ⟨rfl, ?_⟩
    rw [hsuccess, ← h.warnings, List.flatMap_nil, List.append_nil]
    rfl
  · rename_i hfailure
    rw [GenerationReport.isSuccess, List.isEmpty_iff] at hfailure
    refine .inr ⟨g.diagnostics.length, g.declarations, List.length_pos_iff.2 hfailure, rfl, ?_⟩
    rw [← h.warnings, ← h.diagnostics]
    rfl

end CommandLine

open CommandLine in
/-- **What is analyzed is what is generated.**  Over every index, and with all markers, the
analysis and the generation give up the same targets for the same problems in the same order, and
files are generated for exactly the declarations whose models are found, in order: generation
refuses none of these models, and no run ever comes to the problem that a builder cannot be
generated.  So configured runs are refused alike or agree, and what is reported when everything is
inspected is what is reported when everything is checked. -/
theorem Context.reports_agree :
    (∀ ctx : Context, ctx.analysisReport.AgreesWith ctx.generationReport ctx.markers.option) ∧
    ∀ (c : Config) (t : FileTree),
      ((∃ p, c.analyze t = .error p ∧ c.generate t = .error p) ∨
        ∃ a g, c.analyze t = .ok a ∧ c.generate t = .ok g ∧ a.AgreesWith g c.markers.option) ∧
      ∀ settings, value? .declaration settings = none →
        check t c = inspect t settings c ∨
          (inspect t settings c).exitCode = 0 ∧ (check t c).Confirms (inspect t settings c) := by
  refine ⟨agreesWith, fun c t => ⟨c.agreesWith t, fun settings hall => ?_⟩⟩
  rcases c.agreesWith t with ⟨p, ha, hg⟩ | ⟨a, g, ha, hg, hagrees⟩
  · refine .inl ?_
    rw [check, inspect, ha, hg]
  · exact .inr (confirms_of_agreesWith hagrees c t settings ha hg hall)

end ModelForge
