/-
The resolution cache is invisible.

Questions about the declarations of an index share one cache. An entry is made in the middle
of an answer that may end in a problem later, and stays.  This file shows that nobody can
tell the difference:

* `ResolutionCache.Sound` — every entry is what its declaration gives without a cache;
* `ResolutionCache.Extends` — no entry of the earlier cache is lost or changed;
* `Resolution.Transparent` — on a sound cache a computation gives what it gives on the empty
  one, and it leaves a sound cache that extends the one it found.

Transparent computations are closed under sequencing (`Transparent.bind`), and the two that
touch the cache, `Context.failureType` and `Context.modelNames`, are transparent because they
enter nothing but the result of the uncached computation.  The statement about sessions of
questions is `Context.answers_askAll`.
-/
import ModelForge.Analysis.Classification

namespace ModelForge

/-- The index gives this class for the class's own name. -/
def DeclarationIndex.Declares (idx : DeclarationIndex) (c : ClassDecl) : Prop :=
  idx.class? c.qualifiedName = some c

theorem DeclarationIndex.declares_of_class? {idx : DeclarationIndex} {name : String}
    {c : ClassDecl} (h : idx.class? name = some c) : idx.Declares c := by
  rw [Declares, (mem_classes_of_class? h).2]
  exact h

theorem DeclarationIndex.declares_of_resolve {idx : DeclarationIndex} {name : String}
    {scope : Option Scope} {c : ClassDecl} (h : idx.resolve name scope = .ofClass c) :
    idx.Declares c :=
  declares_of_class? (class?_eq_some_of_resolve h)

/-! ### Entries -/

namespace ResolutionCache

/-- Every entry for a declared class is what `compute` gives for the class. -/
def EntriesSound {α : Type} (idx : DeclarationIndex) (compute : ClassDecl → Except Problem α)
    (entries : List (String × α)) : Prop :=
  ∀ {decl : ClassDecl} {a : α}, idx.Declares decl →
    entries.lookup decl.qualifiedName = some a → compute decl = .ok a

/-- What the earlier entries give for a name, the later ones give, too. -/
def Kept {α : Type} (earlier later : List (String × α)) : Prop :=
  ∀ {name : String} {a : α}, earlier.lookup name = some a → later.lookup name = some a

/-- Every entry for a declared class is what the class gives without a cache. -/
structure Sound (ctx : Context) (c : ResolutionCache) : Prop where
  failureTypes : EntriesSound ctx.index ctx.failureTypeOf c.failureTypes
  modelNames : EntriesSound ctx.index ctx.modelNamesOf c.modelNames

/-- No entry of the earlier cache is lost or changed in the later one. -/
structure Extends (later earlier : ResolutionCache) : Prop where
  failureTypes : Kept earlier.failureTypes later.failureTypes
  modelNames : Kept earlier.modelNames later.modelNames

theorem Extends.refl (c : ResolutionCache) : c.Extends c :=
  ⟨id, id⟩

theorem Extends.trans {a b c : ResolutionCache} (h : c.Extends b) (h' : b.Extends a) :
    c.Extends a :=
  ⟨fun he => h.failureTypes (h'.failureTypes he), fun he => h.modelNames (h'.modelNames he)⟩

theorem sound_empty (ctx : Context) : Sound ctx {} :=
  ⟨fun _ h => by simp at h, fun _ h => by simp at h⟩

@[simp] theorem failureTypes_counted (c : ResolutionCache) (hit : Bool) :
    (c.counted hit).failureTypes = c.failureTypes := by
  cases hit <;> rfl

@[simp] theorem modelNames_counted (c : ResolutionCache) (hit : Bool) :
    (c.counted hit).modelNames = c.modelNames := by
  cases hit <;> rfl

theorem Sound.counted {ctx : Context} {c : ResolutionCache} (h : c.Sound ctx) (hit : Bool) :
    (c.counted hit).Sound ctx where
  failureTypes := by
    rw [failureTypes_counted]
    exact h.failureTypes
  modelNames := by
    rw [modelNames_counted]
    exact h.modelNames

theorem extends_counted (c : ResolutionCache) (hit : Bool) : (c.counted hit).Extends c where
  failureTypes := by
    rw [failureTypes_counted]
    exact id
  modelNames := by
    rw [modelNames_counted]
    exact id

variable {α : Type}

/-- A new entry takes none away. -/
theorem kept_enter {name : String} {a : α} {entries : List (String × α)}
    (hnew : entries.lookup name = none) : Kept entries ((name, a) :: entries) := by
  intro key b hb
  have hne : key ≠ name := by
    rintro rfl
    rw [hnew] at hb
    cases hb
  rw [List.lookup_cons, beq_eq_false_iff_ne.2 hne]
  exact hb

/-- The result of a declared class may be entered under the class's name, which belongs to no
other declared class. -/
theorem entriesSound_enter {idx : DeclarationIndex} {compute : ClassDecl → Except Problem α}
    {entries : List (String × α)} {decl : ClassDecl} {a : α} (hd : idx.Declares decl)
    (ha : compute decl = .ok a) (h : EntriesSound idx compute entries) :
    EntriesSound idx compute ((decl.qualifiedName, a) :: entries) := by
  intro decl' a' hd' ha'
  by_cases hn : decl'.qualifiedName = decl.qualifiedName
  · -- the index declares one class of this name
    have heq : decl' = decl := by
      rw [DeclarationIndex.Declares, hn, hd] at hd'
      exact (Option.some.inj hd').symm
    rw [hn, List.lookup_cons_self] at ha'
    rw [heq, ha, Option.some.inj ha']
  · rw [List.lookup_cons, beq_eq_false_iff_ne.2 hn] at ha'
    exact h hd' ha'

end ResolutionCache

namespace Resolution

variable {α β : Type}

/-- The result of a computation on a cache. -/
def result (r : Resolution α) (c : ResolutionCache) : Except Problem α :=
  (r.run c).1

/-- What a computation makes of a cache. -/
def leaves (r : Resolution α) (c : ResolutionCache) : ResolutionCache :=
  (r.run c).2

/-- On a sound cache the computation gives what it gives on the empty one, and it leaves a
sound cache in which nothing has changed that was there. -/
structure Transparent (ctx : Context) (r : Resolution α) : Prop where
  result_eq : ∀ {c : ResolutionCache}, c.Sound ctx → r.result c = r.result {}
  sound : ∀ {c : ResolutionCache}, c.Sound ctx → (r.leaves c).Sound ctx
  extend : ∀ {c : ResolutionCache}, c.Sound ctx → (r.leaves c).Extends c

variable {ctx : Context}

/-! ### Sequencing -/

theorem run_bind (r : Resolution α) (f : α → Resolution β) (c : ResolutionCache) :
    (r >>= f).run c = match r.run c with
      | (.ok a, c') => (f a).run c'
      | (.error p, c') => (.error p, c') := by
  show ExceptT.bindCont f (r.run c).1 (r.run c).2 = _
  cases r.run c with
  | mk result c' =>
    cases result with
    | ok a => rfl
    | error p => rfl

theorem result_bind (r : Resolution α) (f : α → Resolution β) (c : ResolutionCache) :
    (r >>= f).result c = match r.result c with
      | .ok a => (f a).result (r.leaves c)
      | .error p => .error p := by
  rw [result, run_bind, result, leaves]
  rcases r.run c with ⟨_ | a, c'⟩
  · rfl
  · rfl

theorem leaves_bind (r : Resolution α) (f : α → Resolution β) (c : ResolutionCache) :
    (r >>= f).leaves c = match r.result c with
      | .ok a => (f a).leaves (r.leaves c)
      | .error _ => r.leaves c := by
  rw [leaves, run_bind, result, leaves]
  rcases r.run c with ⟨_ | a, c'⟩
  · rfl
  · rfl

theorem transparent_pure (a : α) : Transparent ctx (pure a : Resolution α) :=
  ⟨fun _ => rfl, id, fun _ => ResolutionCache.Extends.refl _⟩

theorem transparent_throw (p : Problem) : Transparent ctx (throw p : Resolution α) :=
  ⟨fun _ => rfl, id, fun _ => ResolutionCache.Extends.refl _⟩

/-- Transparent computations in sequence are transparent. -/
theorem Transparent.bind {r : Resolution α} {f : α → Resolution β} (h : Transparent ctx r)
    (hf : ∀ a, Transparent ctx (f a)) : Transparent ctx (r >>= f) where
  result_eq := by
    intro c hc
    rw [result_bind, result_bind, h.result_eq hc]
    cases r.result {} with
    | ok a =>
      -- both caches that are left are sound, and the second computation gives the same on both
      have h1 := (hf a).result_eq (h.sound hc)
      have h2 := (hf a).result_eq (h.sound (ResolutionCache.sound_empty ctx))
      exact h1.trans h2.symm
    | error p => rfl
  sound := by
    intro c hc
    rw [leaves_bind]
    cases r.result c with
    | ok a => exact (hf a).sound (h.sound hc)
    | error p => exact h.sound hc
  extend := by
    intro c hc
    rw [leaves_bind]
    cases r.result c with
    | ok a => exact ((hf a).extend (h.sound hc)).trans (h.extend hc)
    | error p => exact h.extend hc

theorem Transparent.map {r : Resolution α} (h : Transparent ctx r) (f : α → β) :
    Transparent ctx (f <$> r) :=
  h.bind fun a => transparent_pure (f a)

/-! ### The two computations that use the cache -/

/-- What asking the cache first comes to. -/
theorem run_cached (entries : ResolutionCache → List (String × α))
    (enter : String × α → ResolutionCache → ResolutionCache) (name : String)
    (compute : Except Problem α) (c : ResolutionCache) :
    (cached entries enter name compute).run c =
      match (entries c).lookup name with
      | some a => (.ok a, c.counted true)
      | none =>
        match compute with
        | .ok a => (.ok a, enter (name, a) (c.counted false))
        | .error p => (.error p, c.counted false) := by
  show (match (entries c).lookup name with
    | some a => (pure a : Resolution α)
    | none => cached.liftExcept compute >>= fun a => do
        modify (enter (name, a))
        return a).run (c.counted ((entries c).lookup name).isSome) = _
  -- the look-up is counted before anything else
  cases (entries c).lookup name with
  | some a => rfl
  | none =>
    cases compute with
    | ok a => rfl
    | error p => rfl

/-- Asking the cache first is transparent if an entry that is found is the computed result, and
if the entry that is made keeps a cache sound and takes nothing away from it. -/
theorem transparent_cached {entries : ResolutionCache → List (String × α)}
    {enter : String × α → ResolutionCache → ResolutionCache} {name : String}
    {compute : Except Problem α}
    (hfound : ∀ {c : ResolutionCache} {a : α}, c.Sound ctx →
      (entries c).lookup name = some a → compute = .ok a)
    (hentries : ∀ (c : ResolutionCache) (hit : Bool), entries (c.counted hit) = entries c)
    (henter : ∀ {c : ResolutionCache} {a : α}, c.Sound ctx → (entries c).lookup name = none →
      compute = .ok a → (enter (name, a) c).Sound ctx ∧ (enter (name, a) c).Extends c) :
    (∀ {c : ResolutionCache}, c.Sound ctx → (cached entries enter name compute).result c = compute) ∧
      Transparent ctx (cached entries enter name compute) := by
  have hresult : ∀ {c : ResolutionCache}, c.Sound ctx →
      (cached entries enter name compute).result c = compute := by
    intro c hc
    rw [result, run_cached]
    cases hl : (entries c).lookup name with
    | some a => exact (hfound hc hl).symm
    | none => cases compute with
      | ok a => rfl
      | error p => rfl
  have hleaves : ∀ {c : ResolutionCache}, c.Sound ctx →
      ((cached entries enter name compute).leaves c).Sound ctx ∧
        ((cached entries enter name compute).leaves c).Extends c := by
    intro c hc
    rw [leaves, run_cached]
    cases hl : (entries c).lookup name with
    | some a => exact ⟨hc.counted true, ResolutionCache.extends_counted c true⟩
    | none =>
      cases hcomp : compute with
      | ok a =>
        -- the entry is made in the cache that has counted the miss
        obtain ⟨hs, he⟩ := henter (hc.counted false) (by rw [hentries]; exact hl) hcomp
        exact ⟨hs, he.trans (ResolutionCache.extends_counted c false)⟩
      | error p => exact ⟨hc.counted false, ResolutionCache.extends_counted c false⟩
  refine ⟨hresult, ?_, fun hc => (hleaves hc).1, fun hc => (hleaves hc).2⟩
  intro c hc
  rw [hresult hc, hresult (ResolutionCache.sound_empty ctx)]

end Resolution

namespace Context

open Resolution ResolutionCache

variable {ctx : Context}

theorem failureType_spec {value : ClassDecl} (hv : ctx.index.Declares value) :
    (∀ {c : ResolutionCache}, c.Sound ctx →
      (ctx.failureType value).result c = ctx.failureTypeOf value) ∧
      Transparent ctx (ctx.failureType value) := by
  unfold failureType Resolution.failureType
  refine transparent_cached (fun hc hl => hc.failureTypes hv hl) failureTypes_counted ?_
  intro c t hc hnew ht
  exact ⟨⟨entriesSound_enter hv ht hc.failureTypes, hc.modelNames⟩, ⟨kept_enter hnew, id⟩⟩

theorem modelNames_spec {decl : ClassDecl} (hd : ctx.index.Declares decl) :
    (∀ {c : ResolutionCache}, c.Sound ctx →
      (ctx.modelNames decl).result c = ctx.modelNamesOf decl) ∧
      Transparent ctx (ctx.modelNames decl) := by
  unfold modelNames Resolution.modelNames
  refine transparent_cached (fun hc hl => hc.modelNames hd hl) modelNames_counted ?_
  intro c n hc hnew hn
  exact ⟨⟨hc.failureTypes, entriesSound_enter hd hn hc.modelNames⟩, ⟨id, kept_enter hnew⟩⟩

theorem transparent_validatedValue {c : ClassDecl} (hc : ctx.index.Declares c) (nullable : Bool) :
    Transparent ctx (ctx.validatedValue c nullable) := by
  unfold validatedValue
  split
  · exact transparent_pure none
  · split
    · exact transparent_throw _
    · exact (failureType_spec hc).2.bind fun _ => transparent_pure _

/-! ### Classification -/

mutual

/-- Classification is transparent if the expansion of aliases is. A name that is resolved to
a class is resolved to a declared one, so that the cache may be asked for it. -/
theorem transparent_classifyWith {expand : AliasDecl → TypeRef → Resolution PropertyKind}
    (hexpand : ∀ a reference, Transparent ctx (expand a reference)) (scope : Option Scope) :
    ∀ t : TypeRef, Transparent ctx (ctx.classifyWith expand scope t)
  | .mk name arguments nullable => by
    have harguments := transparent_classifyArguments hexpand scope arguments
    rw [classifyWith]
    split
    · exact harguments.bind fun _ => transparent_pure _
    · exact harguments.bind fun _ => transparent_pure _
    · -- a class: a model, a validated value or neither
      rename_i c hr
      have hc := DeclarationIndex.declares_of_resolve hr
      refine (modelNames_spec hc).2.bind fun names => ?_
      cases names with
      | some names => exact transparent_pure _
      | none =>
        refine (transparent_validatedValue hc nullable).bind fun value => ?_
        cases value with
        | some v => exact transparent_pure _
        | none => exact harguments.bind fun _ => transparent_pure _
    · -- an alias: the kind of what it expands to, under the alias's name where that is standard
      refine (hexpand _ _).bind fun kind => ?_
      cases kind with
      | standard => exact harguments.bind fun _ => transparent_pure _
      | _ => exact transparent_pure _

theorem transparent_classifyArgument {expand : AliasDecl → TypeRef → Resolution PropertyKind}
    (hexpand : ∀ a reference, Transparent ctx (expand a reference)) (scope : Option Scope) :
    ∀ a : TypeArgument, Transparent ctx (ctx.classifyArgument expand scope a)
  | .star => by
    rw [classifyArgument]
    exact transparent_pure none
  | .type _ t => by
    rw [classifyArgument]
    exact (transparent_classifyWith hexpand scope t).bind fun _ => transparent_pure _

theorem transparent_classifyArguments {expand : AliasDecl → TypeRef → Resolution PropertyKind}
    (hexpand : ∀ a reference, Transparent ctx (expand a reference)) (scope : Option Scope) :
    ∀ as : List TypeArgument, Transparent ctx (ctx.classifyArguments expand scope as)
  | [] => by
    rw [classifyArguments]
    exact transparent_pure []
  | a :: as => by
    rw [classifyArguments]
    exact (transparent_classifyArgument hexpand scope a).bind fun _ =>
      (transparent_classifyArguments hexpand scope as).bind fun _ => transparent_pure _

end

theorem transparent_classifyAt (scope : Option Scope) :
    ∀ (depth : Nat) (t : TypeRef), Transparent ctx (ctx.classifyAt scope depth t) := by
  intro depth
  induction depth with
  | zero =>
    intro t
    rw [classifyAt]
    exact transparent_classifyWith (fun _ _ => transparent_throw _) scope t
  | succ depth ih =>
    intro t
    rw [classifyAt]
    exact transparent_classifyWith (fun a reference => ih (a.expand reference)) scope t

end Context

/-! ### Sessions -/

/-- A question that is asked by way of the cache. -/
inductive Query
  /-- the kind of a type that is written in a scope, or outside of all classes -/
  | kind (scope : Option Scope) (type : TypeRef)
  /-- the failure type of a validated value -/
  | failureType (value : ClassDecl)
  /-- the names of the model that is generated for a class -/
  | modelNames (decl : ClassDecl)

/-- What a question is answered with, if it is. -/
inductive Answer
  | kind (kind : PropertyKind)
  | failureType (type : TypeName)
  | modelNames (names : Option ModelNames)

namespace Query

/-- The class that a question is about, if it is about one, is a class of the index. -/
def Concerns (idx : DeclarationIndex) : Query → Prop
  | kind .. => True
  | failureType c | modelNames c => idx.Declares c

/-- The computation that a question starts. -/
def ask (ctx : Context) : Query → Resolution Answer
  | kind scope type => .kind <$> ctx.classify scope type
  | failureType value => .failureType <$> ctx.failureType value
  | modelNames decl => .modelNames <$> ctx.modelNames decl

theorem transparent_ask {ctx : Context} {q : Query} (h : q.Concerns ctx.index) :
    Resolution.Transparent ctx (q.ask ctx) := by
  cases q with
  | kind scope type => exact (Context.transparent_classifyAt scope maxAliasDepth type).map _
  | failureType value => exact (Context.failureType_spec h).2.map _
  | modelNames decl => exact (Context.modelNames_spec h).2.map _

end Query

namespace Context

open ResolutionCache

/-- The questions asked one after another, all by way of one cache. A question that ends in a
problem is answered with the problem, and the next one finds the cache as it was left. -/
def askAll (ctx : Context) :
    List Query → ResolutionCache → List (Except Problem Answer) × ResolutionCache
  | [], c => ([], c)
  | q :: qs, c =>
    let (answers, last) := askAll ctx qs ((q.ask ctx).leaves c)
    ((q.ask ctx).result c :: answers, last)

/-- The cache after a session that found it empty. -/
def cacheAfter (ctx : Context) (qs : List Query) : ResolutionCache :=
  (ctx.askAll qs {}).2

variable {ctx : Context}

theorem askAll_append (qs qs' : List Query) (c : ResolutionCache) :
    ctx.askAll (qs ++ qs') c =
      ((ctx.askAll qs c).1 ++ (ctx.askAll qs' (ctx.askAll qs c).2).1,
        (ctx.askAll qs' (ctx.askAll qs c).2).2) := by
  induction qs generalizing c with
  | nil => rfl
  | cons q qs ih =>
    rw [List.cons_append, askAll, ih]
    rfl

/-- One step and then the rest: a session on a sound cache answers every question as it is
answered on the empty one, and leaves a sound cache that extends the one it found. -/
theorem askAll_sound {qs : List Query} (h : ∀ q ∈ qs, q.Concerns ctx.index) :
    ∀ {c : ResolutionCache}, c.Sound ctx →
      (ctx.askAll qs c).1 = qs.map (fun q => (q.ask ctx).result {}) ∧
        (ctx.askAll qs c).2.Sound ctx ∧ (ctx.askAll qs c).2.Extends c := by
  induction qs with
  | nil =>
    intro c hc
    exact ⟨rfl, hc, Extends.refl c⟩
  | cons q qs ih =>
    intro c hc
    have hq := Query.transparent_ask (h q List.mem_cons_self)
    obtain ⟨hanswers, hsound, hextends⟩ :=
      ih (fun q' hq' => h q' (List.mem_cons_of_mem q hq')) (hq.sound hc)
    refine ⟨?_, hsound, hextends.trans (hq.extend hc)⟩
    rw [askAll, List.map_cons, ← hanswers, ← hq.result_eq hc]

theorem sound_cacheAfter {qs : List Query} (h : ∀ q ∈ qs, q.Concerns ctx.index) :
    (ctx.cacheAfter qs).Sound ctx :=
  (askAll_sound h (sound_empty ctx)).2.1

/-- **The cache is transparent.**  In every session about an index, whatever is asked in
whatever order and with problems anywhere in between, each question is answered as it would
be with a new cache, and no entry is changed once it is there. -/
theorem answers_askAll (ctx : Context) (qs : List Query) (h : ∀ q ∈ qs, q.Concerns ctx.index) :
    (ctx.askAll qs {}).1 = qs.map (fun q => (q.ask ctx).result {}) ∧
      ∀ earlier later, qs = earlier ++ later →
        (ctx.cacheAfter qs).Extends (ctx.cacheAfter earlier) := by
  refine ⟨(askAll_sound h (sound_empty ctx)).1, ?_⟩
  -- the later questions find the cache that the earlier ones have left
  rintro earlier later rfl
  have hearlier : ∀ q ∈ earlier, q.Concerns ctx.index :=
    fun q hq => h q (List.mem_append_left later hq)
  have hlater : ∀ q ∈ later, q.Concerns ctx.index :=
    fun q hq => h q (List.mem_append_right earlier hq)
  rw [cacheAfter, askAll_append]
  exact (askAll_sound hlater (sound_cacheAfter hearlier)).2.2

end Context

/-! ### A library of validators

`Deep` reaches the validator interface by way of `Bottom`, `Middle` and `Top`, each of which
binds a part of the parameters; `Flat` lists it with the same failure; `Bare` has no
companion. -/

namespace Sample

/-- A type with types as arguments. -/
def applied (name : String) (arguments : List TypeRef) : TypeRef :=
  .mk name (arguments.map (.type .invariant)) false

/-- A class of the package `t`, of which only the supertypes count. -/
def declared (name : String) (typeParameters : List String) (superTypes : List TypeRef)
    (companion : Option CompanionDecl) : ClassDecl :=
  ⟨"t", name, .value, typeParameters, superTypes, [], [], companion, [], false, none⟩

/-- The validator interface, whose failure type is `t.Failure` of two types. -/
def validator (input first second : TypeRef) : TypeRef :=
  applied "modelsmith.core.ValueValidator"
    [input, applied "t.Failure" [first, second], .named "kotlin.String"]

def top : ClassDecl :=
  declared "Top" ["X", "Y", "Z"] [validator (.named "X") (.named "Y") (.named "Z")] none

def middle : ClassDecl :=
  declared "Middle" ["P", "Q"] [applied "t.Top" [.named "kotlin.Int", .named "Q", .named "P"]] none

def bottom : ClassDecl :=
  declared "Bottom" ["R"] [applied "t.Middle" [.named "kotlin.Long", .named "R"]] none

/-- A validated value with a companion that extends one type. -/
def value (name : String) (extended : TypeRef) : ClassDecl :=
  declared name [] [applied "modelsmith.core.ValueObject" [.named "kotlin.String"]]
    (some ⟨"Companion", [], [extended]⟩)

def deep : ClassDecl :=
  value "Deep" (applied "t.Bottom" [.named "kotlin.Boolean"])

def flat : ClassDecl :=
  value "Flat" (validator (.named "kotlin.Int") (.named "kotlin.Boolean") (.named "kotlin.Long"))

def bare : ClassDecl :=
  declared "Bare" [] [applied "modelsmith.core.ValueObject" [.named "kotlin.String"]] none

def context : Context :=
  ⟨⟨[top, middle, bottom, deep, flat, bare].map fun c => ⟨.ofClass c, "t.json"⟩⟩, {}⟩

/-- Questions about the library, of which the first and the third end in problems. -/
def session : List Query :=
  [.failureType bare, .failureType deep, .kind none (.named "t.Bare"), .modelNames deep,
    .kind none (applied "arrow.core.Option" [.named "t.Deep"]), .failureType flat]

theorem session_concerns : ∀ q ∈ session, q.Concerns context.index := by
  have hbare : context.index.Declares bare := rfl
  have hdeep : context.index.Declares deep := rfl
  have hflat : context.index.Declares flat := rfl
  simp only [session, List.mem_cons, List.not_mem_nil, or_false]
  rintro q (rfl | rfl | rfl | rfl | rfl | rfl)
  · exact hbare
  · exact hdeep
  · trivial
  · exact hdeep
  · trivial
  · exact hflat

end Sample

theorem Context.answers_askAll_sample :
    (∀ q ∈ Sample.session, q.Concerns Sample.context.index) ∧
      (Sample.context.askAll Sample.session {}).1 =
        Sample.session.map (fun q => (q.ask Sample.context).result {}) ∧
      ∀ earlier later, Sample.session = earlier ++ later →
        (Sample.context.cacheAfter Sample.session).Extends (Sample.context.cacheAfter earlier) :=
  ⟨Sample.session_concerns,
    Context.answers_askAll Sample.context Sample.session Sample.session_concerns⟩

end ModelForge
