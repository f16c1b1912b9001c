/-
A run is the sum of its targets.

All targets of a run share one cache and one list of warnings, and a target may be given up
at any stage of its treatment.  What becomes of a target does not depend on this:

* `Analysis.Steady` — on a sound cache, and whatever warnings there are, a step gives what it
  gives at the start of a run, and it leaves a sound cache;
* `Context.steady_generate` — the whole treatment of a target is steady, from its marker to
  its files;
* `Context.outcomes_eq` — so a run over any targets gives each of them the outcome it has
  alone.

The report of a run is read off from this in `Context.generationReport_eq_sum`.
-/
import Mathlib.Data.List.Basic
import ModelForge.Proofs.CacheTransparency
import ModelForge.Run

namespace ModelForge

namespace Analysis

variable {α β : Type} {ctx : Context}

/-- The result of a step when this much has been gathered. -/
def result (a : Analysis α) (p : Progress) : Except Problem α :=
  (a.run p).1

/-- What has been gathered after a step. -/
def leaves (a : Analysis α) (p : Progress) : Progress :=
  (a.run p).2

/-! ### Sequencing -/

theorem run_bind (a : Analysis α) (f : α → Analysis β) (p : Progress) :
    (a >>= f).run p = match a.run p with
      | (.ok x, p') => (f x).run p'
      | (.error e, p') => (.error e, p') := by
  show ExceptT.bindCont f (a.run p).1 (a.run p).2 = _
  rcases a.run p with ⟨_ | x, p'⟩
  · rfl
  · rfl

theorem result_bind (a : Analysis α) (f : α → Analysis β) (p : Progress) :
    (a >>= f).result p = match a.result p with
      | .ok x => (f x).result (a.leaves p)
      | .error e => .error e := by
  rw [result, run_bind, result, leaves]
  rcases a.run p with ⟨_ | x, p'⟩
  · rfl
  · rfl

theorem leaves_bind (a : Analysis α) (f : α → Analysis β) (p : Progress) :
    (a >>= f).leaves p = match a.result p with
      | .ok x => (f x).leaves (a.leaves p)
      | .error _ => a.leaves p := by
  rw [leaves, run_bind, result, leaves]
  rcases a.run p with ⟨_ | x, p'⟩
  · rfl
  · rfl

/-- Two steps come to a result if and only if the first does and the second does on it. -/
theorem result_bind_eq_ok_iff {a : Analysis α} {f : α → Analysis β} {p : Progress} {y : β} :
    (a >>= f).result p = .ok y ↔
      ∃ x, a.result p = .ok x ∧ (f x).result (a.leaves p) = .ok y := by
  rw [result_bind]
  cases a.result p with
  | ok x => exact ⟨fun h => ⟨x, rfl, h⟩, fun ⟨_, hx, h⟩ => Except.ok.inj hx ▸ h⟩
  | error e => exact ⟨nofun, nofun⟩

/-! ### Steady steps -/

/-- On a sound cache the step gives what it gives at the start of a run, whatever warnings
there are, and it leaves a sound cache. -/
structure Steady (ctx : Context) (a : Analysis α) : Prop where
  result_eq : ∀ {p : Progress}, p.cache.Sound ctx → a.result p = a.result {}
  sound : ∀ {p : Progress}, p.cache.Sound ctx → (a.leaves p).cache.Sound ctx

theorem sound_start (ctx : Context) : ({} : Progress).cache.Sound ctx :=
  ResolutionCache.sound_empty ctx

theorem steady_pure (x : α) : Steady ctx (pure x : Analysis α) :=
  ⟨fun _ => rfl, id⟩

theorem steady_throw (e : Problem) : Steady ctx (throw e : Analysis α) :=
  ⟨fun _ => rfl, id⟩

theorem Steady.bind {a : Analysis α} {f : α → Analysis β} (h : Steady ctx a)
    (hf : ∀ x, Steady ctx (f x)) : Steady ctx (a >>= f) where
  result_eq := by
    intro p hp
    rw [result_bind, result_bind, h.result_eq hp]
    cases a.result {} with
    | error e => rfl
    | ok x =>
      -- both times the second step finds a sound cache
      have hlater := (hf x).result_eq (h.sound hp)
      have hstart := (hf x).result_eq (h.sound (sound_start ctx))
      exact hlater.trans hstart.symm
  sound := by
    intro p hp
    rw [leaves_bind]
    cases a.result p with
    | error e => exact h.sound hp
    | ok x => exact (hf x).sound (h.sound hp)

/-- A step that is taken only under a condition. -/
theorem Steady.guarded {c : Prop} {_ : Decidable c} {a : Analysis PUnit} {f : PUnit → Analysis β}
    (ha : Steady ctx a) (hf : ∀ u, Steady ctx (f u)) :
    Steady ctx (if c then a >>= f else f ⟨⟩) := by
  split
  · exact ha.bind hf
  · exact hf ⟨⟩

theorem steady_of (r : Except Problem α) : Steady ctx (of r) := by
  cases r with
  | ok x => exact steady_pure x
  | error e => exact steady_throw e

theorem steady_warn (w : Warning) : Steady ctx (warn w) :=
  ⟨fun _ => rfl, id⟩

theorem steady_warnAll (ws : List Warning) : Steady ctx (warnAll ws) := by
  induction ws with
  | nil => exact steady_pure ()
  | cons w ws ih => exact (steady_warn w).bind fun _ => ih

theorem result_resolve (r : Resolution α) (p : Progress) :
    (resolve r).result p = r.result p.cache := rfl

theorem leaves_resolve (r : Resolution α) (p : Progress) :
    (resolve r).leaves p = { p with cache := r.leaves p.cache } := rfl

theorem steady_resolve {r : Resolution α} (h : r.Transparent ctx) : Steady ctx (resolve r) := by
  refine ⟨fun {p} hp => ?_, fun {p} hp => ?_⟩
  · rw [result_resolve, result_resolve]
    exact h.result_eq hp
  · rw [leaves_resolve]
    exact h.sound hp

end Analysis

/-! ### The treatment of a target -/

namespace Context

open Analysis Resolution

variable {ctx : Context}

theorem transparent_classifyDeclared (c : ClassDecl) (p : OwnedProperty) :
    (ctx.classifyDeclared c p).Transparent ctx :=
  (transparent_classifyAt _ maxAliasDepth _).bind fun _ => transparent_pure _

theorem transparent_classifyAll (c : ClassDecl) (ps : List OwnedProperty) :
    (ctx.classifyAll c ps).Transparent ctx := by
  induction ps with
  | nil => exact transparent_pure []
  | cons p ps ih =>
    refine (transparent_classifyDeclared c p).bind fun _ => ?_
    exact ih.bind fun _ => transparent_pure _

theorem transparent_buildDeclared (c : ClassDecl) : (ctx.buildDeclared c).Transparent ctx := by
  show Transparent ctx (if (ctx.declaredProperties c).isEmpty
    then throw (.noProperties c.qualifiedName)
    else ctx.classifyAll c (ctx.declaredProperties c))
  split
  · exact transparent_throw _
  · exact transparent_classifyAll c _

theorem transparent_addComposed (c : ClassDecl) (fields : List ComposedField) :
    ∀ properties : List Property, (ctx.addComposed c properties fields).Transparent ctx := by
  induction fields with
  | nil =>
    intro properties
    exact transparent_pure properties
  | cons f fields ih =>
    intro properties
    have hclassify : (ctx.classify none f.field.type).Transparent ctx :=
      transparent_classifyAt none maxAliasDepth f.field.type
    unfold addComposed
    split
    · exact (transparent_throw _).bind fun _ => hclassify.bind fun _ => ih _
    · exact hclassify.bind fun _ => ih _

theorem steady_collectTemplates (cs : List ClassDecl) : Steady ctx (ctx.collectTemplates cs) := by
  induction cs with
  | nil => exact steady_pure []
  | cons c cs ih =>
    unfold collectTemplates
    split
    · exact ih
    · refine Steady.guarded (steady_warn _) fun _ => ?_
      exact (steady_of _).bind fun _ => ih.bind fun _ => steady_pure _

theorem steady_buildTemplate (c : ClassDecl) : Steady ctx (ctx.buildTemplate c) := by
  refine (steady_resolve (transparent_buildDeclared c)).bind fun declared => ?_
  refine (steady_warnAll _).bind fun _ => ?_
  refine (steady_of _).bind fun fields => ?_
  exact steady_resolve (transparent_addComposed c fields declared)

theorem steady_analyzeTemplate (c : ClassDecl) (mark : Annotation) :
    Steady ctx (ctx.analyzeTemplate c mark) := by
  refine (steady_of _).bind fun base => ?_
  refine Steady.guarded (steady_throw _) fun _ => ?_
  refine (steady_collectTemplates _).bind fun templates => ?_
  exact (steady_buildTemplate c).bind fun _ => steady_pure _

theorem steady_analyzeValidatable (c : ClassDecl) : Steady ctx (ctx.analyzeValidatable c) := by
  unfold analyzeValidatable
  refine Steady.guarded (steady_throw _) fun _ => ?_
  split
  · exact steady_throw _
  · exact (steady_resolve (transparent_buildDeclared c)).bind fun _ => steady_pure _

theorem steady_modelOf (target : Target) : Steady ctx (ctx.modelOf target) := by
  obtain ⟨c, mark⟩ := target
  cases mark with
  | template use => exact steady_analyzeTemplate c use
  | validatable => exact steady_analyzeValidatable c

end Context

namespace Model

open Analysis

variable {ctx : Context}

theorem steady_checkTemplates (m : Model) (ts : List ValidationTemplate) :
    ∀ functions : List String, Steady ctx (m.checkTemplates functions ts) := by
  induction ts with
  | nil =>
    intro functions
    exact steady_pure ()
  | cons t ts ih =>
    intro functions
    unfold checkTemplates
    refine Steady.guarded (steady_throw _) fun _ => ?_
    exact (steady_warnAll _).bind fun _ => ih _

theorem steady_check (m : Model) : Steady ctx m.check := by
  unfold check
  split
  · exact steady_throw _
  · exact m.steady_checkTemplates m.templates []

end Model

namespace Context

open Analysis

variable {ctx : Context}

theorem steady_analyze (target : Target) : Steady ctx (ctx.analyze target) :=
  (steady_modelOf target).bind fun m => m.steady_check.bind fun _ => steady_pure m

/-- Every stage from a target's marker to its files is steady. -/
theorem steady_generate (target : Target) : Steady ctx (ctx.generate target) :=
  (steady_analyze target).bind fun _ => steady_of _

/-! ### Runs -/

/-- The outcomes of a run over these targets, which starts with a new cache. -/
def outcomes {α : Type} (step : Target → Analysis α) (targets : List Target) : List (Outcome α) :=
  ((treatAll step targets).run {}).1

/-- Treating a target gives its result and leaves the cache that the step has left. -/
theorem run_treat {α : Type} (step : Target → Analysis α) (target : Target) (p : Progress) :
    ((treat step target).run p).1 = ⟨target, (step target).result p⟩ ∧
      ((treat step target).run p).2.cache = ((step target).leaves p).cache := by
  unfold treat Analysis.result Analysis.leaves
  rw [StateT.run_bind]
  cases h : (step target).run.run p with
  | mk r p' =>
    have hstep : ExceptT.run (step target) p = (r, p') := h
    rw [hstep]
    cases r with
    | ok x => exact ⟨rfl, rfl⟩
    | error e => exact ⟨rfl, rfl⟩

/-- One target and then the rest: if every step is steady, a run that finds a sound cache
treats each target as if it were alone. -/
theorem run_treatAll {α : Type} {step : Target → Analysis α} (hstep : ∀ t, Steady ctx (step t))
    (targets : List Target) :
    ∀ {p : Progress}, p.cache.Sound ctx →
      ((treatAll step targets).run p).1 = targets.map fun t => ⟨t, (step t).result {}⟩ := by
  induction targets with
  | nil =>
    intro p _
    rfl
  | cons t targets ih =>
    -- the first target changes the cache only, and the others find it sound
    intro p hp
    obtain ⟨houtcome, hcache⟩ := run_treat step t p
    have hp' : ((treat step t).run p).2.cache.Sound ctx := by
      rw [hcache]
      exact (hstep t).sound hp
    show ((treat step t).run p).1 :: ((treatAll step targets).run ((treat step t).run p).2).1 = _
    rw [houtcome, (hstep t).result_eq hp, ih hp', List.map_cons]

theorem outcomes_eq {α : Type} {step : Target → Analysis α} (hstep : ∀ t, Steady ctx (step t))
    (targets : List Target) :
    outcomes step targets = targets.map fun t => ⟨t, (step t).result {}⟩ :=
  run_treatAll hstep targets (sound_start ctx)

/-- What a target comes to when it is treated alone, with a new cache. -/
def alone (ctx : Context) (t : Target) : Except Problem (List GeneratedFile) :=
  (ctx.generate t).result {}

/-- The files of a target that is treated alone, none if it is given up. -/
def filesAlone (ctx : Context) (t : Target) : List GeneratedFile :=
  match ctx.alone t with
  | .ok files => files
  | .error _ => []

/-- The report of a target that is given up when it is treated alone. -/
def diagnosticAlone (ctx : Context) (t : Target) : Option Diagnostic :=
  match ctx.alone t with
  | .ok _ => none
  | .error p => some ⟨t.decl.qualifiedName, t.decl.location, p⟩

theorem outcomes_generate (targets : List Target) :
    outcomes ctx.generate targets = targets.map fun t => ⟨t, ctx.alone t⟩ :=
  outcomes_eq steady_generate targets

theorem filesAlone_of_error {t : Target} {p : Problem} (h : ctx.alone t = .error p) :
    ctx.filesAlone t = [] := by
  rw [filesAlone, h]

theorem diagnosticAlone_of_error {t : Target} {p : Problem} (h : ctx.alone t = .error p) :
    ctx.diagnosticAlone t = some ⟨t.decl.qualifiedName, t.decl.location, p⟩ := by
  rw [diagnosticAlone, h]

/-! ### The report -/

theorem generated_generationReport :
    ctx.generationReport.generated =
      (ctx.targets.filter fun t => (ctx.alone t).isOk).map fun t => t.decl.qualifiedName := by
  show ((outcomes ctx.generate ctx.targets).filterMap Outcome.success?).map (·.1) = _
  rw [outcomes_generate]
  induction ctx.targets with
  | nil => rfl
  | cons t targets ih =>
    cases h : ctx.alone t with
    | ok files =>
      simpa [Outcome.success?, List.filterMap_cons, h, Except.isOk, Except.toBool] using ih
    | error p =>
      simpa [Outcome.success?, List.filterMap_cons, h, Except.isOk, Except.toBool] using ih

theorem files_generationReport :
    ctx.generationReport.files = ctx.targets.flatMap ctx.filesAlone := by
  show ((outcomes ctx.generate ctx.targets).filterMap Outcome.success?).flatMap (·.2) = _
  rw [outcomes_generate]
  induction ctx.targets with
  | nil => rfl
  | cons t targets ih =>
    cases h : ctx.alone t with
    | ok files => simpa [Outcome.success?, List.filterMap_cons, filesAlone, h] using ih
    | error p => simpa [Outcome.success?, List.filterMap_cons, filesAlone, h] using ih

theorem diagnostics_generationReport :
    ctx.generationReport.diagnostics = ctx.targets.filterMap ctx.diagnosticAlone := by
  show (outcomes ctx.generate ctx.targets).filterMap Outcome.diagnostic? = _
  rw [outcomes_generate, List.filterMap_map]
  refine congrArg (ctx.targets.filterMap ·) (funext fun t => ?_)
  show Outcome.diagnostic? ⟨t, ctx.alone t⟩ = _
  cases h : ctx.alone t with
  | ok files => simp [Outcome.diagnostic?, diagnosticAlone, h]
  | error p => simp [Outcome.diagnostic?, diagnosticAlone, h]

/-- The targets are the classes with one of the two markers, in load order. -/
theorem decl_targets :
    ctx.targets.map Target.decl = ctx.index.classes.filter fun c =>
      (c.annotated? ctx.markers.modelTemplate).isSome ||
        (c.annotated? ctx.markers.validatable).isSome := by
  unfold targets
  induction ctx.index.classes with
  | nil => rfl
  | cons c classes ih =>
    cases htemplate : c.annotated? ctx.markers.modelTemplate with
    | some use => simpa [Target.of?, ClassDecl.targetMark?, htemplate] using ih
    | none =>
      cases hvalidatable : c.annotated? ctx.markers.validatable with
      | some use => simpa [Target.of?, ClassDecl.targetMark?, htemplate, hvalidatable] using ih
      | none => simpa [Target.of?, ClassDecl.targetMark?, htemplate, hvalidatable] using ih

/-- **A run is the sum of its targets.**  Over any targets, in whatever order, a run comes to
the outcome that each of them has alone.  So the report counts the targets, names those that
succeed alone, gives the problems of the others, and has the files of those that succeed, all
in load order; and without a target that is given up the others come to the same. -/
theorem generationReport_eq_sum (ctx : Context) :
    ctx.targets.map Target.decl = (ctx.index.classes.filter fun c =>
      (c.annotated? ctx.markers.modelTemplate).isSome ||
        (c.annotated? ctx.markers.validatable).isSome) ∧
    (∀ targets, outcomes ctx.generate targets = targets.map fun t => ⟨t, ctx.alone t⟩) ∧
    ctx.generationReport.declarations = ctx.targets.length ∧
    ctx.generationReport.generated =
      ((ctx.targets.filter fun t => (ctx.alone t).isOk).map fun t => t.decl.qualifiedName) ∧
    ctx.generationReport.diagnostics = ctx.targets.filterMap ctx.diagnosticAlone ∧
    ctx.generationReport.files = ctx.targets.flatMap ctx.filesAlone ∧
    ∀ before t after p, ctx.targets = before ++ t :: after → ctx.alone t = .error p →
      ctx.generationReport.files = before.flatMap ctx.filesAlone ++ after.flatMap ctx.filesAlone ∧
      ctx.generationReport.diagnostics = before.filterMap ctx.diagnosticAlone ++
        ⟨t.decl.qualifiedName, t.decl.location, p⟩ :: after.filterMap ctx.diagnosticAlone ∧
      outcomes ctx.generate (before ++ after) =
        (outcomes ctx.generate ctx.targets).eraseIdx before.length := by
  have hlength : ctx.generationReport.declarations = ctx.targets.length := by
    show (outcomes ctx.generate ctx.targets).length = _
    rw [outcomes_generate, List.length_map]
  refine ⟨decl_targets, outcomes_generate, hlength, generated_generationReport,
    diagnostics_generationReport, files_generationReport, ?_⟩
  intro before t after p htargets ht
  refine ⟨?_, ?_, ?_⟩
  · rw [files_generationReport, htargets, List.flatMap_append, List.flatMap_cons,
      filesAlone_of_error ht, List.nil_append]
  · rw [diagnostics_generationReport, htargets, List.filterMap_append,
      List.filterMap_cons_some (diagnosticAlone_of_error ht)]
  · rw [outcomes_generate, outcomes_generate, htargets, List.map_append, List.map_append,
      List.map_cons]
    have hbefore : before.length = (before.map fun t => (⟨t, ctx.alone t⟩ : Outcome _)).length :=
      (List.length_map _).symm
    rw [hbefore, List.eraseIdx_append_of_length_le (Nat.le_refl _), Nat.sub_self,
      List.eraseIdx_zero, List.tail_cons]

end Context

/-! ### A run that gives up a target

`Broken` is given up at its second property, when the failure type of `Deep` has been found
and entered in the cache. -/

namespace Sample

/-- A class of the package `t` that is marked as validatable, with properties of these types. -/
def validatable (name : String) (properties : List (String × String)) : ClassDecl :=
  ⟨"t", name, .data, [], [], [.mk "modelsmith.annotation.Validatable" []],
    properties.map fun (property, type) => ⟨property, .named type, [], none⟩,
    some ⟨"Companion", [], []⟩, [], false, none⟩

def beforeBroken : Target :=
  ⟨validatable "First" [("deep", "t.Deep")], .validatable⟩

def broken : Target :=
  ⟨validatable "Broken" [("deep", "t.Deep"), ("bare", "t.Bare")], .validatable⟩

def afterBroken : Target :=
  ⟨validatable "Last" [("deep", "t.Deep"), ("broken", "t.Broken")], .validatable⟩

/-- The library of validators with three targets. -/
def mixed : Context :=
  ⟨⟨context.index.entries ++
    [beforeBroken, broken, afterBroken].map fun t => ⟨.ofClass t.decl, "t.json"⟩⟩, {}⟩

end Sample

theorem Context.generationReport_eq_sum_mixed :
    Sample.mixed.targets = [Sample.beforeBroken] ++ Sample.broken :: [Sample.afterBroken] ∧
    Sample.mixed.alone Sample.broken = .error (.unresolvedFailure "t.Bare" .noCompanion) ∧
    Sample.mixed.generationReport.generated = ["t.First", "t.Last"] ∧
    Sample.mixed.generationReport.files =
      Sample.mixed.filesAlone Sample.beforeBroken ++ Sample.mixed.filesAlone Sample.afterBroken ∧
    Sample.mixed.generationReport.diagnostics =
      [⟨"t.Broken", none, .unresolvedFailure "t.Bare" .noCompanion⟩] ∧
    outcomes Sample.mixed.generate [Sample.beforeBroken, Sample.afterBroken] =
      (outcomes Sample.mixed.generate Sample.mixed.targets).eraseIdx 1 := by
  have htargets : Sample.mixed.targets =
      [Sample.beforeBroken] ++ Sample.broken :: [Sample.afterBroken] := rfl
  have hbroken : Sample.mixed.alone Sample.broken =
      .error (.unresolvedFailure "t.Bare" .noCompanion) := by decide +kernel
  have hgenerated : Sample.mixed.generationReport.generated = ["t.First", "t.Last"] := by
    decide +kernel
  have hdiagnostics : Sample.mixed.generationReport.diagnostics =
      [⟨"t.Broken", none, .unresolvedFailure "t.Bare" .noCompanion⟩] := by decide +kernel
  obtain ⟨-, -, -, -, -, -, hwithout⟩ := Context.generationReport_eq_sum Sample.mixed
  obtain ⟨hfiles, -, houtcomes⟩ := hwithout _ _ _ _ htargets hbroken
  refine ⟨htargets, hbroken, hgenerated, ?_, hdiagnostics, houtcomes⟩
  rw [hfiles, List.flatMap_singleton, List.flatMap_singleton]

end ModelForge
