/-
Classification ends.

Classifying a type takes classifying others: the arguments that it is applied to, and what an alias
stands for, which may be larger than the type.  Here this is taken apart into single steps:

* `Task` — a type to be classified, with the number of expansions that have led to it;
* `Context.classifyStep` — how a type is classified where all others are, and
  `Context.classifyTask_eq` — so `classify` is a solution of this recursion;
* `Context.Requires` — the types that one step looks at, and whether it takes an expansion to get
  there.  The step looks at no others (`Context.classifyStep_congr`);
* `Context.wellFounded_requires` — an expansion leaves fewer of them, and an argument is a smaller
  type, so that looking at one type after the other comes to an end;
* `Context.Route` — a way of the recursion, with the expansions on it.

A type is settled if following its head alias comes to a name that is no alias
(`DeclarationIndex.Settles`).  The main statement is `Context.classify_ends`.
-/
import ModelForge.Proofs.AliasFlags

namespace ModelForge

/-- A type to be classified, and how many aliases have been expanded on the way to it. -/
structure Task where
  expanded : Nat
  type : TypeRef

namespace Context

open Resolution

/-- The kind of an argument where the kinds of types are given, none for a star. -/
def argumentKind (kindOf : TypeRef → Resolution PropertyKind) :
    TypeArgument → Resolution (Option PropertyKind)
  | .star => return none
  | .type _ t => do return some (← kindOf t)

/-- One step of classification: the kind of a type, where `classify` gives the kinds of all others.
An alias is refused if no expansion is left. -/
def classifyStep (ctx : Context) (scope : Option Scope)
    (classify : Task → Resolution PropertyKind) : Task → Resolution PropertyKind
  | ⟨expanded, .mk name arguments nullable⟩ =>
    let argumentKinds := arguments.mapM (argumentKind fun t => classify ⟨expanded, t⟩)
    match ctx.index.resolve name scope with
    | .typeParameter _ | .external => do
      return .ofType ctx.markers ((TypeName.ofQualified name).withNullable nullable)
        (← argumentKinds)
    | .ofClass c => do
      match ← ctx.modelNames c with
      | some names => return .model ⟨names, nullable⟩
      | none =>
        match ← ctx.validatedValue c nullable with
        | some v => return .value v
        | none =>
          return .ofType ctx.markers ((TypeName.ofClass c).withNullable nullable)
            (← argumentKinds)
    | .ofAlias a => do
      if maxAliasDepth ≤ expanded then
        throw (.endlessAlias (TypeRef.mk name arguments nullable).display)
      let target := a.expand (.mk name arguments nullable)
      match ← classify ⟨expanded + 1, target⟩ with
      | .standard .. =>
        return .standard ((TypeName.ofAlias a).withNullable target.nullable) (← argumentKinds)
      | .value v => return .value { v with wrapper := .ofAlias a }
      | kind => return kind

/-- To classify a type, another one is classified, and this takes so many expansions. -/
inductive Requires (ctx : Context) (scope : Option Scope) : Task → Nat → Task → Prop
  | argument {expanded : Nat} {name : String} {arguments : List TypeArgument} {nullable : Bool}
    {variance : Variance} {t : TypeRef} (hmem : .type variance t ∈ arguments) :
    Requires ctx scope ⟨expanded, .mk name arguments nullable⟩ 0 ⟨expanded, t⟩
  | expansion {expanded : Nat} {name : String} {arguments : List TypeArgument} {nullable : Bool}
    {a : AliasDecl} (hr : ctx.index.resolve name scope = .ofAlias a)
    (hleft : expanded < maxAliasDepth) :
    Requires ctx scope ⟨expanded, .mk name arguments nullable⟩ 1
      ⟨expanded + 1, a.expand (.mk name arguments nullable)⟩

/-- A way of the recursion from one type to another, with the number of expansions on it. -/
inductive Route (ctx : Context) (scope : Option Scope) : Task → Nat → Task → Prop
  | here {task : Task} : Route ctx scope task 0 task
  | step {task next last : Task} {n expansions : Nat} (h : ctx.Requires scope task n next)
    (hroute : Route ctx scope next expansions last) :
    Route ctx scope task (n + expansions) last

variable {ctx : Context} {scope : Option Scope}

/-! ### A step looks at what it requires -/

theorem mapM_congr_mem {α β : Type} {f g : α → Resolution β} {as : List α}
    (h : ∀ a ∈ as, f a = g a) : as.mapM f = as.mapM g := by
  induction as with
  | nil => rfl
  | cons a as ih =>
    have hrest : as.mapM f = as.mapM g := ih fun b hb => h b (List.mem_cons_of_mem _ hb)
    rw [List.mapM_cons, List.mapM_cons, h a List.mem_cons_self, hrest]

theorem argumentKind_congr {f g : TypeRef → Resolution PropertyKind} {a : TypeArgument}
    (h : ∀ variance t, a = .type variance t → f t = g t) : argumentKind f a = argumentKind g a := by
  cases a with
  | star => rfl
  | type variance t => rw [argumentKind, argumentKind, h variance t rfl]

/-- What a step comes to depends only on the kinds of the types that it requires. -/
theorem classifyStep_congr {f g : Task → Resolution PropertyKind} {task : Task}
    (h : ∀ n next, ctx.Requires scope task n next → f next = g next) :
    ctx.classifyStep scope f task = ctx.classifyStep scope g task := by
  obtain ⟨expanded, name, arguments, nullable⟩ := task
  have harguments : arguments.mapM (argumentKind fun t => f ⟨expanded, t⟩) =
      arguments.mapM (argumentKind fun t => g ⟨expanded, t⟩) := by
    refine mapM_congr_mem fun a ha => argumentKind_congr fun variance t heq => ?_
    exact h 0 _ (.argument (heq ▸ ha))
  rw [classifyStep, classifyStep, harguments]
  cases hr : ctx.index.resolve name scope with
  | typeParameter i => rfl
  | ofClass c => rfl
  | external => rfl
  | ofAlias a =>
    dsimp only
    by_cases hleft : expanded < maxAliasDepth
    · rw [h 1 _ (.expansion hr hleft)]
    · rw [if_pos (Nat.le_of_not_lt hleft), if_pos (Nat.le_of_not_lt hleft)]
      rfl

/-! ### The recursion ends -/

/-- The expansions that are left count first, then the size of the type. -/
theorem wellFounded_requires (ctx : Context) (scope : Option Scope) :
    WellFounded fun next task => ∃ n, ctx.Requires scope task n next := by
  refine Subrelation.wf (r := InvImage (Prod.Lex (· < ·) (· < ·)) fun task : Task =>
    (maxAliasDepth - task.expanded, sizeOf task.type)) ?_
    (InvImage.wf _ (Prod.lex Nat.lt_wfRel Nat.lt_wfRel).wf)
  rintro next task ⟨n, h⟩
  cases h with
  | argument hmem =>
    have hsize := List.sizeOf_lt_of_mem hmem
    refine Prod.Lex.right _ ?_
    simp only [TypeArgument.type.sizeOf_spec, TypeRef.mk.sizeOf_spec] at hsize ⊢
    omega
  | expansion _ hleft =>
    refine Prod.Lex.left _ _ ?_
    dsimp only
    omega

/-- No way of the recursion has more expansions on it than were left where it starts. -/
theorem Route.expansions_le {task last : Task} {n : Nat} (h : ctx.Route scope task n last)
    (hstart : task.expanded ≤ maxAliasDepth) : task.expanded + n ≤ maxAliasDepth := by
  induction h with
  | here => exact hstart
  | step h _ ih =>
    cases h with
    | argument =>
      rw [Nat.zero_add]
      exact ih hstart
    | expansion _ hleft =>
      have hrest := ih hleft
      dsimp only at hrest ⊢
      omega

/-! ### Classification solves the recursion -/

/-- The kind of a type, of which so many expansions have been taken already. -/
def classifyTask (ctx : Context) (scope : Option Scope) (task : Task) : Resolution PropertyKind :=
  ctx.classifyAt scope (maxAliasDepth - task.expanded) task.type

theorem classifyArguments_eq_mapM {expand : AliasDecl → TypeRef → Resolution PropertyKind}
    (as : List TypeArgument) : ctx.classifyArguments expand scope as =
      as.mapM (argumentKind (ctx.classifyWith expand scope)) := by
  induction as with
  | nil => rw [classifyArguments, List.mapM_nil]
  | cons a as ih =>
    have ha : ctx.classifyArgument expand scope a =
        argumentKind (ctx.classifyWith expand scope) a := by
      cases a with
      | star => rw [classifyArgument, argumentKind]
      | type variance t => rw [classifyArgument, argumentKind]
    rw [classifyArguments, ih, ha, List.mapM_cons]

/-- Classification is one step of its own, if aliases are expanded as the step does. -/
theorem classifyWith_eq_step {expand : AliasDecl → TypeRef → Resolution PropertyKind}
    {classify : Task → Resolution PropertyKind} {expanded : Nat}
    (hclassify : ∀ t, classify ⟨expanded, t⟩ = ctx.classifyWith expand scope t)
    (hexpand : ∀ a t, expand a t =
      if maxAliasDepth ≤ expanded then throw (.endlessAlias t.display)
      else classify ⟨expanded + 1, a.expand t⟩) (t : TypeRef) :
    ctx.classifyWith expand scope t = ctx.classifyStep scope classify ⟨expanded, t⟩ := by
  obtain ⟨name, arguments, nullable⟩ := t
  have harguments : (fun t => classify ⟨expanded, t⟩) = ctx.classifyWith expand scope :=
    funext hclassify
  rw [classifyWith, classifyStep, classifyArguments_eq_mapM, harguments]
  cases ctx.index.resolve name scope with
  | typeParameter i => rfl
  | external => rfl
  | ofClass c => rfl
  | ofAlias a =>
    dsimp only
    rw [hexpand]
    by_cases hleft : maxAliasDepth ≤ expanded
    · rw [if_pos hleft, if_pos hleft]
      rfl
    · exact (congrArg (· >>= _) (if_neg hleft)).trans (if_neg hleft).symm

theorem classifyTask_eq (task : Task) :
    ctx.classifyTask scope task = ctx.classifyStep scope (ctx.classifyTask scope) task := by
  obtain ⟨expanded, t⟩ := task
  cases hleft : maxAliasDepth - expanded with
  | zero =>
    have hclassify : ∀ t, ctx.classifyTask scope ⟨expanded, t⟩ =
        ctx.classifyWith (fun _ r => throw (.endlessAlias r.display)) scope t := by
      intro t
      rw [classifyTask, hleft, classifyAt]
    rw [hclassify]
    refine classifyWith_eq_step hclassify (fun a r => ?_) t
    rw [if_pos (by omega)]
  | succ left =>
    have hclassify : ∀ t, ctx.classifyTask scope ⟨expanded, t⟩ =
        ctx.classifyWith (fun a r => ctx.classifyAt scope left (a.expand r)) scope t := by
      intro t
      rw [classifyTask, hleft, classifyAt]
    rw [hclassify]
    refine classifyWith_eq_step hclassify (fun a r => ?_) t
    have hnext : maxAliasDepth - (expanded + 1) = left := by omega
    rw [if_neg (by omega), classifyTask, hnext]

/-- There is no other solution. -/
theorem eq_classifyTask {f : Task → Resolution PropertyKind}
    (hf : ∀ task, f task = ctx.classifyStep scope f task) (task : Task) :
    f task = ctx.classifyTask scope task := by
  induction task using (wellFounded_requires ctx scope).induction with
  | _ task ih =>
    rw [hf, classifyTask_eq]
    exact classifyStep_congr fun n next h => ih next ⟨n, h⟩

end Context

/-! ### Aliases of aliases without end -/

namespace DeclarationIndex

/-- Following the alias at the head of a type comes to a type with another head in the end. -/
def Settles (idx : DeclarationIndex) (scope : Option Scope) (t : TypeRef) : Prop :=
  ∃ u, idx.Meets scope t u ∧ ∀ a, idx.resolve u.name scope ≠ .ofAlias a

variable {idx : DeclarationIndex} {scope : Option Scope} {t : TypeRef}

theorem exists_alias_of_not_settles (h : ¬ idx.Settles scope t) :
    ∃ a, idx.resolve t.name scope = .ofAlias a := by
  by_contra hnone
  exact h ⟨t, .refl, fun a ha => hnone ⟨a, ha⟩⟩

theorem not_settles_expand (h : ¬ idx.Settles scope t) {a : AliasDecl}
    (hr : idx.resolve t.name scope = .ofAlias a) : ¬ idx.Settles scope (a.expand t) := by
  rintro ⟨u, hmeets, hhead⟩
  exact h ⟨u, .head ⟨a, hr, rfl⟩ hmeets, hhead⟩

/-- A type does not settle if it is one of a class of references to aliases that stand for one of
the class again. -/
theorem not_settles_of_closed {P : TypeRef → Prop}
    (halias : ∀ u, P u → ∃ a, idx.resolve u.name scope = .ofAlias a)
    (hexpand : ∀ u a, P u → idx.resolve u.name scope = .ofAlias a → P (a.expand u)) (ht : P t) :
    ¬ idx.Settles scope t := by
  rintro ⟨u, hmeets, hhead⟩
  have hu : P u := by
    clear hhead
    induction hmeets with
    | refl => exact ht
    | tail _ hstep ih =>
      obtain ⟨a, hr, rfl⟩ := hstep
      exact hexpand _ a ih hr
  obtain ⟨a, hr⟩ := halias u hu
  exact hhead a hr

end DeclarationIndex

namespace Context

open Resolution

variable {ctx : Context} {scope : Option Scope}

/-- The problem of an expansion is that of the reference. -/
theorem result_classifyWith_of_alias {expand : AliasDecl → TypeRef → Resolution PropertyKind}
    {t : TypeRef} {a : AliasDecl} {cache : ResolutionCache} {e : Problem}
    (hr : ctx.index.resolve t.name scope = .ofAlias a)
    (h : (expand a t).result cache = .error e) :
    (ctx.classifyWith expand scope t).result cache = .error e := by
  obtain ⟨name, arguments, nullable⟩ := t
  rw [classifyWith, show ctx.index.resolve name scope = .ofAlias a from hr]
  dsimp only
  rw [result_bind, h]

/-- However many expansions are left, a type that does not settle uses them up.  The induction is on
their number. -/
theorem result_classifyAt_of_not_settles (left : Nat) :
    ∀ (t : TypeRef) (cache : ResolutionCache), ¬ ctx.index.Settles scope t →
      ∃ u, ctx.index.Meets scope t u ∧
        (ctx.classifyAt scope left t).result cache = .error (.endlessAlias u.display) := by
  induction left with
  | zero =>
    intro t cache h
    obtain ⟨a, hr⟩ := DeclarationIndex.exists_alias_of_not_settles h
    refine ⟨t, .refl, ?_⟩
    rw [classifyAt]
    exact result_classifyWith_of_alias hr rfl
  | succ left ih =>
    intro t cache h
    obtain ⟨a, hr⟩ := DeclarationIndex.exists_alias_of_not_settles h
    obtain ⟨u, hmeets, herror⟩ := ih (a.expand t) cache (DeclarationIndex.not_settles_expand h hr)
    refine ⟨u, .head ⟨a, hr, rfl⟩ hmeets, ?_⟩
    rw [classifyAt]
    exact result_classifyWith_of_alias hr herror

/-- **Classification ends, whatever the aliases.**  A step of it looks at nothing but the types that
it requires, which end on every way; so there is one solution of the recursion, and this is what
classification gives.  There are at most 32 expansions on a way.  And if following the head of a
type never comes to a name that is no alias, then there is a problem, whatever the cache: it names
one of the types that are met. -/
theorem classify_ends (ctx : Context) (scope : Option Scope) :
    (WellFounded fun next task => ∃ n, ctx.Requires scope task n next) ∧
    (∀ f g task, (∀ n next, ctx.Requires scope task n next → f next = g next) →
      ctx.classifyStep scope f task = ctx.classifyStep scope g task) ∧
    (∀ solution : Task → Resolution PropertyKind,
      (∀ task, solution task = ctx.classifyStep scope solution task) ↔
        solution = ctx.classifyTask scope) ∧
    (∀ t, ctx.classify scope t = ctx.classifyTask scope ⟨0, t⟩) ∧
    (∀ t expansions last, ctx.Route scope ⟨0, t⟩ expansions last → expansions ≤ 32) ∧
    (∀ t cache, ¬ ctx.index.Settles scope t → ∃ u, ctx.index.Meets scope t u ∧
      (ctx.classify scope t).result cache = .error (.endlessAlias u.display)) := by
  refine ⟨wellFounded_requires ctx scope, fun f g task h => classifyStep_congr h,
    fun solution => ⟨fun h => funext (eq_classifyTask h), ?_⟩, fun t => rfl, ?_, ?_⟩
  · rintro rfl
    exact classifyTask_eq
  · intro t expansions last hroute
    have hle := hroute.expansions_le (Nat.zero_le _)
    rwa [Nat.zero_add] at hle
  · intro t cache h
    exact result_classifyAt_of_not_settles maxAliasDepth t cache h

end Context

/-! ### Growing, and going round

`Grow` stands for itself, applied to a list of what it was applied to.  `Ping` and `Pong` stand for
each other. -/

namespace Sample

def grow : AliasDecl :=
  ⟨"t", "Grow", ["T"], applied "t.Grow" [applied "t.List" [.named "T"]], [], none⟩

def ping : AliasDecl :=
  ⟨"t", "Ping", [], .named "t.Pong", [], none⟩

def pong : AliasDecl :=
  ⟨"t", "Pong", [], .mk "t.Ping" [] true, [], none⟩

def endless : Context :=
  ⟨⟨[grow, ping, pong].map fun a => ⟨.ofAlias a, "t.json"⟩⟩, {}⟩

/-- The references to the three aliases. -/
def IsEndless (t : TypeRef) : Prop :=
  t.name = "t.Grow" ∨ t.name = "t.Ping" ∨ t.name = "t.Pong"

theorem not_settles_of_isEndless {t : TypeRef} (h : IsEndless t) :
    ¬ endless.index.Settles none t := by
  have hgrow : endless.index.resolve "t.Grow" none = .ofAlias grow := rfl
  have hping : endless.index.resolve "t.Ping" none = .ofAlias ping := rfl
  have hpong : endless.index.resolve "t.Pong" none = .ofAlias pong := rfl
  refine DeclarationIndex.not_settles_of_closed (P := IsEndless) ?_ ?_ h
  · rintro u (hu | hu | hu)
    · exact ⟨grow, hu ▸ hgrow⟩
    · exact ⟨ping, hu ▸ hping⟩
    · exact ⟨pong, hu ▸ hpong⟩
  · rintro u a (hu | hu | hu) hr
    · rw [hu, hgrow] at hr
      cases hr
      exact .inl rfl
    · rw [hu, hping] at hr
      cases hr
      exact .inr (.inr rfl)
    · rw [hu, hpong] at hr
      cases hr
      exact .inr (.inl rfl)

end Sample

theorem Context.classify_ends_endless :
    (∀ expansions last, Sample.endless.Route none ⟨0, Sample.applied "t.Grow" [.named "t.Int"]⟩
      expansions last → expansions ≤ 32) ∧
    (¬ Sample.endless.index.Settles none (Sample.applied "t.Grow" [.named "t.Int"]) ∧
      ∃ text, (Sample.endless.classify none (Sample.applied "t.Grow" [.named "t.Int"])).result {} =
        .error (.endlessAlias text)) ∧
    (¬ Sample.endless.index.Settles none (.named "t.Ping") ∧
      ∃ text, (Sample.endless.classify none (.named "t.Ping")).result {} =
        .error (.endlessAlias text)) := by
  obtain ⟨-, -, -, -, hroute, herror⟩ := Context.classify_ends Sample.endless none
  have hgrow := Sample.not_settles_of_isEndless (t := Sample.applied "t.Grow" [.named "t.Int"])
    (.inl rfl)
  have hping := Sample.not_settles_of_isEndless (t := .named "t.Ping") (.inr (.inl rfl))
  obtain ⟨u, -, hu⟩ := herror _ {} hgrow
  obtain ⟨v, -, hv⟩ := herror _ {} hping
  exact ⟨hroute _, ⟨hgrow, u.display, hu⟩, hping, v.display, hv⟩

end ModelForge
