/-
What a failure type means.

`Context.concrete` writes a type out from the far end of a chain of links: a type parameter is
chased down, one link at a time, until the companion is reached.  Its meaning is given here
the other way round, from the companion upwards:

* a `Level` is a scope together with what its type parameters stand for, by position;
* `Context.enter` goes one link up: the arguments that the link passes, read on the level
  below, are what the parameters of the class stand for;
* `Context.meaning` reads a reference on a level.

The two agree on every chain (`Context.toOption_concrete`).  With the search for the chain
(`ValidatorChain`) this says what the failure type of a validated value is, whatever has been
asked before: `Context.failureType_eq_ok_iff`.
-/
import ModelForge.Proofs.CacheTransparency
import ModelForge.Proofs.ValidatorChain

namespace ModelForge

/-- A scope, and by position what its type parameters stand for: nothing, where no argument is
passed or a star. -/
structure Level where
  scope : Scope
  bound : List (Option TypeName)

namespace Level

/-- What the type parameter at a position stands for. -/
def bound? (l : Level) (index : Nat) : Option TypeName :=
  (l.bound[index]?).join

/-- The level of a companion, whose own type parameters stand for nothing. -/
def ground (scope : Scope) : Level :=
  ⟨scope, []⟩

end Level

namespace Context

mutual

/-- What a reference means on a level, if all type parameters in it stand for something. A
parameter is nullable if its use or what it stands for is; arguments of its use do not
count. -/
def meaning (ctx : Context) (l : Level) : TypeRef → Option TypeName
  | .mk name arguments nullable =>
    match ctx.index.resolve name (some l.scope) with
    | .typeParameter index =>
      (l.bound? index).map fun t => t.withNullable (t.nullable || nullable)
    | _ =>
      (meanings ctx l arguments).map fun ts =>
        ((ctx.baseName (some l.scope) name).withNullable nullable).withArguments ts

/-- What an argument means. A star stays a star, `some none`. -/
def argumentMeaning (ctx : Context) (l : Level) : TypeArgument → Option (Option TypeName)
  | .star => some none
  | .type _ reference => (meaning ctx l reference).map some

/-- What the arguments mean. -/
def meanings (ctx : Context) (l : Level) : List TypeArgument → Option (List (Option TypeName))
  | [] => some []
  | a :: as =>
    match argumentMeaning ctx l a, meanings ctx l as with
    | some t, some ts => some (t :: ts)
    | _, _ => none

end

/-- What a type parameter stands for when this argument is passed for it. -/
def passed (ctx : Context) (l : Level) : TypeArgument → Option TypeName
  | .star => none
  | .type _ reference => ctx.meaning l reference

/-- The level at the end of a link, where the type parameters stand for the link's
arguments. -/
def enter (ctx : Context) (l : Level) (link : Link) : Level :=
  ⟨link.declaration.scope, link.reference.arguments.map (ctx.passed l)⟩

/-- The level at the end of a chain of links from a companion on. -/
def levelAfter (ctx : Context) (root : Scope) (links : List Link) : Level :=
  links.foldl ctx.enter (Level.ground root)

variable {ctx : Context}

/-! ### Reading a reference -/

section Results

variable {ε α β : Type}

theorem toOption_bind (x : Except ε α) (f : α → Except ε β) :
    (x >>= f).toOption = x.toOption.bind fun a => (f a).toOption := by
  cases x with
  | ok a => rfl
  | error e => rfl

theorem toOption_eq_some_iff {x : Except ε α} {a : α} : x.toOption = some a ↔ x = .ok a := by
  cases x with
  | ok b => simp [Except.toOption]
  | error e => simp [Except.toOption]

end Results

section Instantiate

variable {l : Level} {bound : String → Nat → Except Problem TypeName}

mutual

/-- Writing a reference out and reading it agree if what is bound to the type parameters
agrees. -/
theorem toOption_instantiate (hbound : ∀ name i, (bound name i).toOption = l.bound? i) :
    ∀ reference : TypeRef,
      (ctx.instantiate l.scope bound reference).toOption = ctx.meaning l reference
  | .mk name arguments nullable => by
    -- what both come to if the name is no type parameter
    have hdeclared : (do
        let ts ← ctx.instantiateList l.scope bound arguments
        return ((ctx.baseName (some l.scope) name).withNullable nullable).withArguments ts :
          Except Problem TypeName).toOption = (ctx.meanings l arguments).map fun ts =>
        ((ctx.baseName (some l.scope) name).withNullable nullable).withArguments ts := by
      rw [toOption_bind, toOption_instantiateList hbound arguments]
      cases ctx.meanings l arguments with
      | none => rfl
      | some ts => rfl
    rw [instantiate, meaning]
    cases ctx.index.resolve name (some l.scope) with
    | typeParameter index =>
      show (bound name index >>= _).toOption = (l.bound? index).map _
      rw [toOption_bind, hbound]
      cases l.bound? index with
      | none => rfl
      | some t => rfl
    | ofClass c => exact hdeclared
    | ofAlias a => exact hdeclared
    | external => exact hdeclared

theorem toOption_instantiateArgument (hbound : ∀ name i, (bound name i).toOption = l.bound? i) :
    ∀ a : TypeArgument,
      (ctx.instantiateArgument l.scope bound a).toOption = ctx.argumentMeaning l a
  | .star => rfl
  | .type _ reference => by
    rw [instantiateArgument, argumentMeaning, toOption_bind, toOption_instantiate hbound reference]
    cases ctx.meaning l reference with
    | none => rfl
    | some t => rfl

theorem toOption_instantiateList (hbound : ∀ name i, (bound name i).toOption = l.bound? i) :
    ∀ as : List TypeArgument,
      (ctx.instantiateList l.scope bound as).toOption = ctx.meanings l as
  | [] => rfl
  | a :: as => by
    rw [instantiateList, meanings, toOption_bind, toOption_instantiateArgument hbound a]
    cases ctx.argumentMeaning l a with
    | none => rfl
    | some t =>
      rw [Option.bind_some, toOption_bind, toOption_instantiateList hbound as]
      cases ctx.meanings l as with
      | none => rfl
      | some ts => rfl

end

end Instantiate

/-! ### Going up a chain -/

theorem levelAfter_append (root : Scope) (links : List Link) (link : Link) :
    ctx.levelAfter root (links ++ [link]) = ctx.enter (ctx.levelAfter root links) link := by
  rw [levelAfter, List.foldl_append]
  rfl

/-- The argument that a link passes for a parameter, by position: none, where the link passes
no arguments at all, too few, or a star. -/
theorem toOption_argumentFor (link : Link) (value parameter : String) (index : Nat) :
    (link.argumentFor value parameter index).toOption = link.reference.argument? index := by
  unfold Link.argumentFor TypeRef.argument?
  cases harguments : link.reference.arguments with
  | nil => rfl
  | cons a as =>
    rw [List.isEmpty_cons, if_neg Bool.false_ne_true]
    cases (a :: as)[index]? with
    | none => rfl
    | some argument =>
      cases argument with
      | star => rfl
      | type variance reference => rfl

theorem bound?_enter (l : Level) (link : Link) (index : Nat) :
    (ctx.enter l link).bound? index = (link.reference.argument? index).bind (ctx.meaning l) := by
  rw [Level.bound?, enter, List.getElem?_map, TypeRef.argument?]
  cases link.reference.arguments[index]? with
  | none => rfl
  | some argument =>
    cases argument with
    | star => rfl
    | type variance reference => rfl

/-- Chasing the type parameters of a reference down a chain comes to what the reference means
at the end of the chain. The induction is on the chain: one link less is one level down. -/
theorem toOption_concrete (value : String) (root : Scope) :
    ∀ (chain : List Link) (reference : TypeRef),
      (ctx.concrete value root chain reference).toOption =
        ctx.meaning (ctx.levelAfter root chain.reverse) reference := by
  intro chain
  induction chain with
  | nil =>
    intro reference
    rw [concrete]
    exact toOption_instantiate (l := Level.ground root) (fun _ _ => rfl) reference
  | cons link chain ih =>
    intro reference
    -- a parameter is chased to the argument of the last link, which is read one level below
    rw [concrete, List.reverse_cons, levelAfter_append]
    refine toOption_instantiate (l := ctx.enter (ctx.levelAfter root chain.reverse) link)
      (fun name i => ?_) reference
    rw [toOption_bind, toOption_argumentFor, bound?_enter]
    exact congrArg (Option.bind _) (funext ih)

/-! ### Writing a type out -/

theorem resolve_of_not_parameter {name : String} {scope : Scope}
    (h : ∀ index, ctx.index.resolve name (some scope) ≠ .typeParameter index) :
    ctx.index.resolve name none = ctx.index.resolve name (some scope) := by
  cases hp : scope.parameterIndex? name with
  | some index => exact absurd (by simp [DeclarationIndex.resolve, hp]) (h index)
  | none => simp [DeclarationIndex.resolve, hp]

theorem resolve_ne_typeParameter {name : String} {scope : Scope} (h : scope.typeParameters = [])
    (index : Nat) : ctx.index.resolve name (some scope) ≠ .typeParameter index := by
  have hp : scope.parameterIndex? name = none := by simp [Scope.parameterIndex?, h]
  simp only [DeclarationIndex.resolve, Option.bind_some, hp]
  split <;> simp

theorem baseName_of_not_parameter {name : String} {scope : Scope}
    (h : ∀ index, ctx.index.resolve name (some scope) ≠ .typeParameter index) :
    ctx.baseName (some scope) name = ctx.baseName none name := by
  rw [baseName, baseName, resolve_of_not_parameter h]

theorem meaning_of_not_parameter {l : Level} {name : String} {arguments : List TypeArgument}
    {nullable : Bool}
    (h : ∀ index, ctx.index.resolve name (some l.scope) ≠ .typeParameter index) :
    ctx.meaning l (.mk name arguments nullable) = (ctx.meanings l arguments).map fun ts =>
      ((ctx.baseName none name).withNullable nullable).withArguments ts := by
  rw [meaning, baseName_of_not_parameter h]
  cases hr : ctx.index.resolve name (some l.scope) with
  | typeParameter index => exact absurd hr (h index)
  | ofClass c => rfl
  | ofAlias a => rfl
  | external => rfl

mutual

/-- Where there are no type parameters, a reference means the type that it writes out. -/
theorem meaning_ground {scope : Scope} (h : scope.typeParameters = []) : ∀ reference : TypeRef,
    ctx.meaning (Level.ground scope) reference = some (ctx.typeNameOf none reference)
  | .mk name arguments nullable => by
    rw [meaning_of_not_parameter (l := Level.ground scope) (resolve_ne_typeParameter h),
      meanings_ground h arguments, typeNameOf]
    rfl

theorem argumentMeaning_ground {scope : Scope} (h : scope.typeParameters = []) :
    ∀ a : TypeArgument,
      ctx.argumentMeaning (Level.ground scope) a = some (ctx.typeNameOfArgument none a)
  | .star => rfl
  | .type _ reference => by
    rw [argumentMeaning, meaning_ground h reference, typeNameOfArgument]
    rfl

theorem meanings_ground {scope : Scope} (h : scope.typeParameters = []) :
    ∀ as : List TypeArgument,
      ctx.meanings (Level.ground scope) as = some (ctx.typeNamesOf none as)
  | [] => rfl
  | a :: as => by
    rw [meanings, argumentMeaning_ground h a, meanings_ground h as, typeNamesOf]

end

/-- The type is what some reference writes out that stands outside of all type parameters. -/
def Writable (ctx : Context) (t : TypeName) : Prop :=
  ∃ reference, ctx.typeNameOf none reference = t

theorem Writable.withNullable {t : TypeName} (h : ctx.Writable t) (nullable : Bool) :
    ctx.Writable (t.withNullable nullable) := by
  obtain ⟨⟨name, arguments, nullable'⟩, rfl⟩ := h
  refine ⟨.mk name arguments nullable, ?_⟩
  rw [typeNameOf, typeNameOf]
  rfl

mutual

/-- What a reference means can be written out without type parameters if what they stand for
can. -/
theorem writable_of_meaning {l : Level} (hbound : ∀ i t, l.bound? i = some t → ctx.Writable t) :
    ∀ (reference : TypeRef) {t : TypeName}, ctx.meaning l reference = some t → ctx.Writable t
  | .mk name arguments nullable, t, ht => by
    by_cases hp : ∃ index, ctx.index.resolve name (some l.scope) = .typeParameter index
    · -- the arguments of a parameter's use are ignored, and need not mean anything
      obtain ⟨index, hr⟩ := hp
      rw [meaning, hr] at ht
      obtain ⟨u, hu, rfl⟩ := Option.map_eq_some_iff.1 ht
      exact (hbound index u hu).withNullable _
    · rw [meaning_of_not_parameter (not_exists.1 hp)] at ht
      obtain ⟨ts, hts, rfl⟩ := Option.map_eq_some_iff.1 ht
      obtain ⟨arguments', rfl⟩ := writable_of_meanings hbound arguments hts
      exact ⟨.mk name arguments' nullable, by rw [typeNameOf]⟩

theorem writable_of_argumentMeaning {l : Level}
    (hbound : ∀ i t, l.bound? i = some t → ctx.Writable t) :
    ∀ (a : TypeArgument) {t : Option TypeName}, ctx.argumentMeaning l a = some t →
      ∃ a', ctx.typeNameOfArgument none a' = t
  | .star, t, ht => by
    rw [argumentMeaning] at ht
    exact ⟨.star, by rw [typeNameOfArgument, Option.some.inj ht]⟩
  | .type variance reference, t, ht => by
    rw [argumentMeaning] at ht
    obtain ⟨u, hu, rfl⟩ := Option.map_eq_some_iff.1 ht
    obtain ⟨reference', rfl⟩ := writable_of_meaning hbound reference hu
    exact ⟨.type variance reference', by rw [typeNameOfArgument]⟩

theorem writable_of_meanings {l : Level} (hbound : ∀ i t, l.bound? i = some t → ctx.Writable t) :
    ∀ (as : List TypeArgument) {ts : List (Option TypeName)}, ctx.meanings l as = some ts →
      ∃ as', ctx.typeNamesOf none as' = ts
  | [], ts, hts => by
    rw [meanings] at hts
    exact ⟨[], by rw [typeNamesOf, Option.some.inj hts]⟩
  | a :: as, ts, hts => by
    rw [meanings] at hts
    split at hts
    · rename_i u us hu hus
      obtain ⟨a', rfl⟩ := writable_of_argumentMeaning hbound a hu
      obtain ⟨as', rfl⟩ := writable_of_meanings hbound as hus
      exact ⟨a' :: as', by rw [typeNamesOf, Option.some.inj hts]⟩
    · cases hts

end

theorem writable_of_bound?_levelAfter (root : Scope) (chain : List Link) :
    ∀ {i : Nat} {t : TypeName}, (ctx.levelAfter root chain.reverse).bound? i = some t →
      ctx.Writable t := by
  induction chain with
  | nil =>
    intro i t h
    cases h
  | cons link chain ih =>
    intro i t h
    rw [List.reverse_cons, levelAfter_append, bound?_enter] at h
    obtain ⟨reference, -, ht⟩ := Option.bind_eq_some_iff.1 h
    exact writable_of_meaning (fun _ _ => ih) reference ht

/-! ### Failure types -/

theorem failureArgument_eq_ok_iff {validator failure : TypeRef} :
    ctx.failureArgument validator = .ok failure ↔
      ∃ input variance output, validator.arguments = [input, .type variance failure, output] := by
  unfold failureArgument
  split
  · rename_i input variance failure' output harguments
    simp [harguments]
  · rename_i input output harguments
    simp [harguments]
  · rename_i h _
    constructor
    · intro h'
      cases h'
    · rintro ⟨input, variance, output, harguments⟩
      exact absurd harguments (h input variance failure output)

/-- The failure type that the validator chain of a value gives: the first links from its
companion lead to a validator interface, and the second of its three arguments means the type
at the end of the links. -/
def FailsWith (ctx : Context) (value : ClassDecl) (failure : TypeName) : Prop :=
  ∃ root links validator input variance reference output,
    value.companionScope? = some root ∧ ctx.LeadsFirst root [] links validator ∧
      validator.arguments = [input, .type variance reference, output] ∧
        ctx.meaning (ctx.levelAfter root links) reference = some failure

theorem failureTypeOf_eq_ok_iff {value : ClassDecl} {failure : TypeName} :
    ctx.failureTypeOf value = .ok failure ↔ ctx.FailsWith value failure := by
  constructor
  · intro h
    unfold failureTypeOf at h
    split at h
    · cases h
    · rename_i root hroot
      split at h
      · cases h
      · -- the search keeps the last link on top, the levels are counted from the companion on
        rename_i chain validator hfind
        obtain ⟨links, rfl, hfirst⟩ := findValidator_eq_some_iff.1 hfind
        rw [← toOption_eq_some_iff, toOption_bind] at h
        obtain ⟨reference, harg, hmeaning⟩ := Option.bind_eq_some_iff.1 h
        obtain ⟨input, variance, output, harguments⟩ :=
          failureArgument_eq_ok_iff.1 (toOption_eq_some_iff.1 harg)
        rw [toOption_concrete, List.reverse_reverse] at hmeaning
        exact ⟨root, links, validator, input, variance, reference, output, hroot, hfirst,
          harguments, hmeaning⟩
  · rintro ⟨root, links, validator, input, variance, reference, output, hroot, hfirst, harguments,
      hmeaning⟩
    have hfind := findValidator_eq_some_iff.2 ⟨links, rfl, hfirst⟩
    have harg : ctx.failureArgument validator = .ok reference :=
      failureArgument_eq_ok_iff.2 ⟨input, variance, output, harguments⟩
    unfold failureTypeOf
    rw [hroot]
    simp only [hfind, harg]
    rw [← toOption_eq_some_iff]
    refine (toOption_concrete _ root links.reverse reference).trans ?_
    rw [List.reverse_reverse]
    exact hmeaning

theorem FailsWith.writable {value : ClassDecl} {failure : TypeName}
    (h : ctx.FailsWith value failure) : ctx.Writable failure := by
  obtain ⟨root, links, -, -, -, reference, -, -, -, -, hmeaning⟩ := h
  rw [← List.reverse_reverse links] at hmeaning
  exact writable_of_meaning (fun _ _ => writable_of_bound?_levelAfter root links.reverse)
    reference hmeaning

/-- A value whose companion lists the validator interface itself and has no type parameters. -/
theorem failsWith_of_listed {value : ClassDecl} {root : Scope} {validator reference : TypeRef}
    {input output : TypeArgument} {variance : Variance} (hroot : value.companionScope? = some root)
    (hclosed : root.typeParameters = [])
    (hlisted : root.superTypes.find? (ctx.isValidator root) = some validator)
    (harguments : validator.arguments = [input, .type variance reference, output]) :
    ctx.FailsWith value (ctx.typeNameOf none reference) :=
  ⟨root, [], validator, input, variance, reference, output, hroot, .listed hlisted, harguments,
    meaning_ground hclosed reference⟩

/-- **A failure type is the validator chain instantiated.**  Whatever has been asked before, a
declared value has the failure type that the first links from its companion to a validator
interface give, read from the companion upwards.  The type can be written out, and a value
that lists the validator interface itself, with the type written out, has the same one. -/
theorem failureType_eq_ok_iff (ctx : Context) (qs : List Query)
    (hqs : ∀ q ∈ qs, q.Concerns ctx.index) (value : ClassDecl) (hvalue : ctx.index.Declares value)
    (failure : TypeName) :
    ((ctx.failureType value).result (ctx.cacheAfter qs) = .ok failure ↔
      ctx.FailsWith value failure) ∧
    ((ctx.failureType value).result (ctx.cacheAfter qs) = .ok failure →
      (∃ reference, ctx.typeNameOf none reference = failure) ∧
      ∀ flat root validator input variance reference output, ctx.index.Declares flat →
        flat.companionScope? = some root → root.typeParameters = [] →
        root.superTypes.find? (ctx.isValidator root) = some validator →
        validator.arguments = [input, .type variance reference, output] →
        ctx.typeNameOf none reference = failure →
        (ctx.failureType flat).result (ctx.cacheAfter qs) =
          (ctx.failureType value).result (ctx.cacheAfter qs)) := by
  have hresult : ∀ {decl : ClassDecl}, ctx.index.Declares decl →
      (ctx.failureType decl).result (ctx.cacheAfter qs) = ctx.failureTypeOf decl :=
    fun hd => (failureType_spec hd).1 (sound_cacheAfter hqs)
  rw [hresult hvalue]
  refine ⟨failureTypeOf_eq_ok_iff, fun h => ⟨(failureTypeOf_eq_ok_iff.1 h).writable, ?_⟩⟩
  intro flat root validator input variance reference output hflat hroot hclosed hlisted harguments
    hwritten
  rw [hresult hflat, h, failureTypeOf_eq_ok_iff, ← hwritten]
  exact failsWith_of_listed hroot hclosed hlisted harguments

end Context

namespace Sample

/-- The failure type of the library's values, written out. -/
def failure : TypeName :=
  .mk "t" ["Failure"] [some (.simple "kotlin" "Boolean"), some (.simple "kotlin" "Long")] false

/-- The chain of the library, from the companion upwards. -/
theorem leadsFirst_deep :
    context.LeadsFirst ⟨"t.Deep.Companion", [], [applied "t.Bottom" [.named "kotlin.Boolean"]]⟩ []
      [⟨applied "t.Bottom" [.named "kotlin.Boolean"], bottom⟩,
        ⟨applied "t.Middle" [.named "kotlin.Long", .named "R"], middle⟩,
        ⟨applied "t.Top" [.named "kotlin.Int", .named "Q", .named "P"], top⟩]
      (validator (.named "X") (.named "Y") (.named "Z")) := by
  refine .inherited rfl (List.nil_append _).symm nofun rfl (by decide) ?_
  refine .inherited rfl (List.nil_append _).symm nofun rfl (by decide) ?_
  refine .inherited rfl (List.nil_append _).symm nofun rfl (by decide) ?_
  exact .listed rfl

theorem failsWith_deep : context.FailsWith deep failure :=
  ⟨_, _, _, _, _, _, _, rfl, leadsFirst_deep, rfl, rfl⟩

end Sample

theorem Context.failureType_eq_ok_iff_deep :
    (∀ q ∈ Sample.session, q.Concerns Sample.context.index) ∧
      Sample.context.index.Declares Sample.deep ∧ Sample.context.index.Declares Sample.flat ∧
      (Sample.context.failureType Sample.deep).result (Sample.context.cacheAfter Sample.session) =
        .ok Sample.failure ∧
      (Sample.context.failureType Sample.flat).result (Sample.context.cacheAfter Sample.session) =
        .ok Sample.failure := by
  have h := Context.failureType_eq_ok_iff Sample.context Sample.session Sample.session_concerns
    Sample.deep rfl Sample.failure
  have hdeep := h.1.2 Sample.failsWith_deep
  have hflat := (h.2 hdeep).2 Sample.flat _ _ _ _ _ _ rfl rfl rfl rfl rfl rfl
  exact ⟨Sample.session_concerns, rfl, rfl, hdeep, hflat.trans hdeep⟩

end ModelForge
