/-
A property is stored at the type that it is declared with.

Classification takes a type apart: into a class with arguments, a validated value, a nested
model, or a container with flags for the inner and the outer nullability.  A generated class
puts the type of its field together again, with containers that it names itself.  Between the
two nothing is lost.

* `TypeRef.written` — a reference written out, by the classes that its names stand for;
* `Context.storedName` — the class that a name stands for in generated code: the model of a
  template in place of the template;
* `TypeName.displayNel` — the written form of a type, with the shorter name for the non-empty list;
* `PropertyKind.displayNel_ofType` — a container shows the same as a class with one argument.

The main statement is `Context.displayNel_of_classify`.
-/
import ModelForge.Proofs.TypeParameters

namespace ModelForge

/-! ### Types that are written out -/

namespace TypeRef

mutual

/-- The type of a reference, where `base` gives the class that a name stands for. -/
def written (base : String → TypeName) : TypeRef → TypeName
  | mk name arguments nullable =>
    ((base name).withNullable nullable).withArguments (writtenList base arguments)

/-- The type of an argument, `none` for a star. -/
def writtenArgument (base : String → TypeName) : TypeArgument → Option TypeName
  | .star => none
  | .type _ ref => some (written base ref)

/-- The types of the arguments. -/
def writtenList (base : String → TypeName) : List TypeArgument → List (Option TypeName)
  | [] => []
  | a :: as => writtenArgument base a :: writtenList base as

end

theorem written_nil {base : String → TypeName} {name : String} (h : (base name).arguments = [])
    (nullable : Bool) : written base (mk name [] nullable) = (base name).withNullable nullable := by
  rw [written, writtenList]
  cases hbase : base name
  rw [hbase, TypeName.arguments_mk] at h
  rw [h]
  rfl

end TypeRef

namespace TypeName

/-- The class, the non-empty list under its shorter name. -/
def nelClass (t : TypeName) : TypeName :=
  if t.canonicalName = "arrow.core.NonEmptyList" then
    (Generation.arrow "Nel").withNullable t.nullable
  else t

mutual

/-- The type, with the shorter name for the non-empty list. -/
def withNel : TypeName → TypeName
  | mk package simpleNames arguments nullable =>
    (nelClass (mk package simpleNames [] nullable)).withArguments (withNelList arguments)

/-- The argument, with the shorter name for the non-empty list. -/
def withNelArgument : Option TypeName → Option TypeName
  | none => none
  | some t => some (withNel t)

/-- The arguments, with the shorter name for the non-empty list. -/
def withNelList : List (Option TypeName) → List (Option TypeName)
  | [] => []
  | a :: as => withNelArgument a :: withNelList as

end

/-- The written form of a type, with the shorter name for the non-empty list. -/
def displayNel (t : TypeName) : String :=
  t.withNel.display

/-- The written form of an argument, with the shorter name for the non-empty list. -/
def displayArgumentNel (a : Option TypeName) : String :=
  displayArgument (withNelArgument a)

theorem canonicalName_nelClass (t : TypeName) : t.nelClass.canonicalName =
    if t.canonicalName = "arrow.core.NonEmptyList" then "arrow.core.Nel" else t.canonicalName := by
  unfold nelClass
  split
  · show TypeName.canonicalName (Generation.arrow "Nel") = _
    decide
  · rfl

@[simp] theorem nullable_nelClass (t : TypeName) : t.nelClass.nullable = t.nullable := by
  unfold nelClass
  split <;> rfl

theorem displayNel_withArguments (t : TypeName) (arguments : List (Option TypeName)) :
    (t.withArguments arguments).displayNel =
      t.nelClass.canonicalName ++ displayList (withNelList arguments) ++
        (if t.nullable then "?" else "") := by
  have hclass : (mk t.package t.simpleNames [] t.nullable).nelClass.canonicalName =
      t.nelClass.canonicalName := by
    rw [canonicalName_nelClass, canonicalName_nelClass]
    rfl
  rw [displayNel, withArguments, withNel, withArguments, display, nullable_nelClass, ← hclass]
  rfl

/-- What the written form of an argument list depends on. -/
theorem displayList_congr {as bs : List (Option TypeName)}
    (h : as.map displayArgument = bs.map displayArgument) : displayList as = displayList bs := by
  have hrest : ∀ {as bs : List (Option TypeName)},
      as.map displayArgument = bs.map displayArgument → displayRest as = displayRest bs := by
    intro as
    induction as with
    | nil =>
      intro bs h
      have hbs : bs = [] := by simpa using h.symm
      rw [hbs]
    | cons a as ih =>
      intro bs h
      rcases bs with _ | ⟨b, bs⟩
      · simp at h
      · obtain ⟨ha, has⟩ := List.cons.inj h
        rw [displayRest, displayRest, ha, ih has]
  rcases as with _ | ⟨a, as⟩
  · have hbs : bs = [] := by simpa using h.symm
    rw [hbs]
  · rcases bs with _ | ⟨b, bs⟩
    · simp at h
    · obtain ⟨ha, has⟩ := List.cons.inj h
      rw [displayList, displayList, ha, hrest has]

theorem map_displayArgument_withNelList (as : List (Option TypeName)) :
    (withNelList as).map displayArgument = as.map displayArgumentNel := by
  induction as with
  | nil => rfl
  | cons a as ih => rw [withNelList, List.map_cons, List.map_cons, ih, displayArgumentNel]

/-- The written form depends on the class, on nullability and on that of each argument. -/
theorem displayNel_congr {s t : TypeName}
    (hclass : s.nelClass.canonicalName = t.nelClass.canonicalName)
    (hnullable : s.nullable = t.nullable) {as bs : List (Option TypeName)}
    (h : as.map displayArgumentNel = bs.map displayArgumentNel) :
    (s.withArguments as).displayNel = (t.withArguments bs).displayNel := by
  have harguments : displayList (withNelList as) = displayList (withNelList bs) := by
    refine displayList_congr ?_
    rw [map_displayArgument_withNelList, map_displayArgument_withNelList, h]
  rw [displayNel_withArguments, displayNel_withArguments, hclass, hnullable, harguments]

end TypeName

/-! ### Containers -/

/-- The containers have the names that generated code calls them by. -/
structure Markers.HasDefaultContainers (m : Markers) : Prop where
  option : m.option = ({} : Markers).option
  list : m.list = ({} : Markers).list
  nonEmptyList : m.nonEmptyList = ({} : Markers).nonEmptyList
  aliases : m.nonEmptyListAliases = ({} : Markers).nonEmptyListAliases

/-- The class by which generated code calls a container. -/
def Container.type : Container → TypeName
  | option => Generation.arrow "Option"
  | list => .simple "kotlin.collections" "List"
  | nonEmptyList => Generation.arrow "Nel"

/-- A container is called by its own name, apart from the two names of the non-empty list. -/
theorem nelClass_of_container? {m : Markers} (hm : m.HasDefaultContainers) {type : TypeName}
    {container : Container} (h : m.container? type.canonicalName = some container) :
    (container.type.withNullable type.nullable).nelClass.canonicalName =
      type.nelClass.canonicalName := by
  have hcontainer : (container.type.withNullable type.nullable).canonicalName =
      container.type.canonicalName := rfl
  rw [TypeName.canonicalName_nelClass, TypeName.canonicalName_nelClass, hcontainer]
  generalize type.canonicalName = name at h ⊢
  unfold Markers.container? at h
  rw [hm.option, hm.list] at h
  by_cases hoption : name = ({} : Markers).option
  · rw [if_pos hoption] at h
    obtain rfl := Option.some.inj h
    rw [hoption]
    decide
  rw [if_neg hoption] at h
  by_cases hlist : name = ({} : Markers).list
  · rw [if_pos hlist] at h
    obtain rfl := Option.some.inj h
    rw [hlist]
    decide
  rw [if_neg hlist] at h
  by_cases hnel : m.isNonEmptyList name = true
  · rw [if_pos hnel] at h
    obtain rfl := Option.some.inj h
    simp only [Markers.isNonEmptyList, hm.nonEmptyList, hm.aliases, List.contains_cons,
      List.contains_nil, Bool.or_false, Bool.or_eq_true, beq_iff_eq] at hnel
    rcases hnel with rfl | rfl <;> decide
  · rw [if_neg hnel] at h
    simp at h

namespace PropertyKind

open Generation

theorem fieldType_standard (mode : Mode) {type : TypeName} (h : type.arguments = [])
    (kinds : List (Option PropertyKind)) :
    fieldType mode (standard type kinds) = type.withArguments (fieldArguments mode kinds) := by
  cases kinds with
  | nil =>
    cases type
    simp only [TypeName.arguments_mk] at h
    rw [fieldType, fieldArguments, h]
    rfl
  | cons a as => rw [fieldType, fieldArguments]

/-- A container is stored as its class, applied to the type of its content. -/
theorem fieldType_inContainer? (mode : Mode) {container : Container} {inner kind : PropertyKind}
    {nullable : Bool} (h : inContainer? container inner nullable = some kind) :
    fieldType mode kind =
      (container.type.withNullable nullable).withArguments [some (fieldType mode inner)] := by
  unfold inContainer? at h
  split at h <;> cases h <;> rfl

/-- A container shows the same as a class with one argument. -/
theorem displayNel_ofType {m : Markers} (hm : m.HasDefaultContainers) {type : TypeName}
    (hnil : type.arguments = []) (kinds : List (Option PropertyKind)) :
    (fieldType .model (ofType m type kinds)).displayNel =
      (type.withArguments (fieldArguments .model kinds)).displayNel := by
  have hstandard := congrArg TypeName.displayNel (fieldType_standard .model hnil kinds)
  unfold ofType
  split
  · rename_i container inner hcontainer
    cases hkind : inContainer? container inner type.nullable with
    | none => exact hstandard
    | some kind =>
      show (fieldType .model kind).displayNel = _
      rw [fieldType_inContainer? .model hkind]
      exact TypeName.displayNel_congr (nelClass_of_container? hm hcontainer) rfl rfl
  · exact hstandard

end PropertyKind

/-! ### Classification -/

namespace Context

open Generation Resolution PropertyKind

variable {ctx : Context} {scope : Option Scope}

/-- A model is generated for the class, or it is one of value objects. -/
def IsModelOrValue (ctx : Context) (c : ClassDecl) : Prop :=
  ctx.modelNamesOf c ≠ .ok none ∨ ∃ t ∈ c.superTypes, t.name = ctx.markers.valueObject

/-- The model that is generated for a class with the marker of model templates. -/
def templateModel? (ctx : Context) (c : ClassDecl) : Option TypeName :=
  match c.annotated? ctx.markers.modelTemplate with
  | some a => (a.identifier "name").toOption.map (TypeName.simple c.package)
  | none => none

/-- The class that a name stands for in generated code: for a template its model. -/
def storedName (ctx : Context) (scope : Option Scope) (name : String) : TypeName :=
  match ctx.index.resolve name scope with
  | .ofClass c => (ctx.templateModel? c).getD (ctx.baseName scope name)
  | _ => ctx.baseName scope name

end Context

namespace TypeRef

theorem headsOfArgument_subset {a : TypeArgument} {as : List TypeArgument} (h : a ∈ as) :
    headsOfArgument a ⊆ headsOfList as := by
  induction as with
  | nil => simp at h
  | cons b as ih =>
    rw [headsOfList]
    rcases List.mem_cons.1 h with rfl | h
    · exact List.subset_append_left _ _
    · exact List.subset_append_of_subset_right _ (ih h)

theorem headsOfList_subset (t : TypeRef) : headsOfList t.arguments ⊆ t.heads := by
  obtain ⟨name, _ | ⟨a, as⟩, nullable⟩ := t
  · exact List.nil_subset _
  · exact List.subset_cons_self _ _

end TypeRef

namespace Context

open Generation Resolution PropertyKind

variable {ctx : Context} {scope : Option Scope}

/-- The reference names no alias, and passes nothing to a class that a model is generated for
or that is one of value objects. -/
structure Keeps (ctx : Context) (scope : Option Scope) (t : TypeRef) : Prop where
  noAlias : ∀ name ∈ t.mentions, ∀ a, ctx.index.resolve name scope ≠ .ofAlias a
  noArguments : ∀ name ∈ t.heads, ∀ c, ctx.index.resolve name scope = .ofClass c →
    ¬ ctx.IsModelOrValue c

mutual

theorem typeNameOf_eq_written : ∀ t : TypeRef,
    ctx.typeNameOf scope t = t.written (ctx.baseName scope)
  | .mk name arguments nullable => by
    rw [typeNameOf, TypeRef.written, typeNamesOf_eq_written arguments]

theorem typeNameOfArgument_eq_written : ∀ a : TypeArgument,
    ctx.typeNameOfArgument scope a = TypeRef.writtenArgument (ctx.baseName scope) a
  | .star => by rw [typeNameOfArgument, TypeRef.writtenArgument]
  | .type _ t => by rw [typeNameOfArgument, TypeRef.writtenArgument, typeNameOf_eq_written t]

theorem typeNamesOf_eq_written : ∀ as : List TypeArgument,
    ctx.typeNamesOf scope as = TypeRef.writtenList (ctx.baseName scope) as
  | [] => by rw [typeNamesOf, TypeRef.writtenList]
  | a :: as => by
    rw [typeNamesOf, TypeRef.writtenList, typeNameOfArgument_eq_written a,
      typeNamesOf_eq_written as]

end

theorem storedName_of_resolve {name : String} {c : ClassDecl}
    (hr : ctx.index.resolve name scope = .ofClass c) :
    ctx.storedName scope name = (ctx.templateModel? c).getD (.ofClass c) := by
  simp only [storedName, baseName, hr]

/-- Generated code calls a declared class by its model, if one is generated. -/
theorem storedName_of_modelNamesOf {name : String} {c : ClassDecl} {names : Option ModelNames}
    (hr : ctx.index.resolve name scope = .ofClass c) (h : ctx.modelNamesOf c = .ok names) :
    ctx.storedName scope name = (names.map (·.model)).getD (.ofClass c) := by
  rw [storedName_of_resolve hr, templateModel?]
  unfold modelNamesOf at h
  cases ha : c.annotated? ctx.markers.modelTemplate with
  | some a =>
    simp only [ha] at h ⊢
    cases hbase : a.identifier "name" with
    | ok base =>
      rw [hbase] at h
      obtain rfl := Except.ok.inj h
      rfl
    | error e =>
      rw [hbase] at h
      simp [bind, Except.bind] at h
  | none =>
    simp only [ha] at h ⊢
    split at h <;> obtain rfl := Except.ok.inj h <;> rfl

theorem arguments_storedName {name : String} {c : ClassDecl}
    (hr : ctx.index.resolve name scope = .ofClass c) :
    (ctx.storedName scope name).arguments = [] := by
  rw [storedName_of_resolve hr]
  unfold templateModel?
  split
  · cases Annotation.identifier _ "name" <;> rfl
  · rfl

/-- A validated value wraps the class, and the class is one of value objects. -/
theorem yields_wrapper {c : ClassDecl} (hc : ctx.index.Declares c) (nullable : Bool) :
    Yields ctx (ctx.validatedValue c nullable) fun v? => ∀ v, v? = some v →
      v.wrapperType = (TypeName.ofClass c).withNullable nullable ∧
        ∃ t ∈ c.superTypes, t.name = ctx.markers.valueObject := by
  unfold validatedValue
  split
  · exact yields_pure nofun
  · rename_i marker hmarker
    have hobject : ∃ t ∈ c.superTypes, t.name = ctx.markers.valueObject :=
      ⟨marker, List.mem_of_find?_eq_some hmarker, by simpa using List.find?_some hmarker⟩
    split
    · exact yields_throw
    · have hfailure := (failureType_spec hc).2.yields fun _ _ => trivial
      refine hfailure.bind fun failure _ => yields_pure fun v hv => ?_
      obtain rfl := Option.some.inj hv
      exact ⟨rfl, hobject⟩

/-- The kind is stored at the type that a reference is written out to. -/
def StoresAs (ctx : Context) (scope : Option Scope) (t : TypeRef) (kind : PropertyKind) : Prop :=
  (fieldType .model kind).displayNel = (t.written (ctx.storedName scope)).displayNel

theorem Keeps.argument {name : String} {arguments : List TypeArgument} {nullable : Bool}
    (h : ctx.Keeps scope (.mk name arguments nullable)) {variance : Variance} {t : TypeRef}
    (ht : .type variance t ∈ arguments) : ctx.Keeps scope t := by
  have hmentions : t.mentions ⊆ (TypeRef.mk name arguments nullable).mentions :=
    List.Subset.trans (TypeRef.mentionsOfArgument_subset ht)
      (TypeRef.mk name arguments nullable).mentionsOfList_subset
  have hheads : t.heads ⊆ (TypeRef.mk name arguments nullable).heads :=
    List.Subset.trans (TypeRef.headsOfArgument_subset ht)
      (TypeRef.mk name arguments nullable).headsOfList_subset
  exact ⟨fun n hn => h.noAlias n (hmentions hn), fun n hn => h.noArguments n (hheads hn)⟩

/-- Nothing is passed to a model or to a value. -/
theorem Keeps.arguments_nil {name : String} {arguments : List TypeArgument} {nullable : Bool}
    (h : ctx.Keeps scope (.mk name arguments nullable)) {c : ClassDecl}
    (hr : ctx.index.resolve name scope = .ofClass c) (hc : ctx.IsModelOrValue c) :
    arguments = [] := by
  rcases arguments with _ | ⟨a, as⟩
  · rfl
  · exact absurd hc (h.noArguments name List.mem_cons_self c hr)

mutual

/-- A reference that names no alias is classified to a kind that is stored as it is written. -/
theorem yields_storesAs (hm : ctx.markers.HasDefaultContainers)
    (expand : AliasDecl → TypeRef → Resolution PropertyKind) :
    ∀ t : TypeRef, ctx.Keeps scope t →
      Yields ctx (ctx.classifyWith expand scope t) (ctx.StoresAs scope t)
  | .mk name arguments nullable, ht => by
    have hname := ht.noAlias name (TypeRef.name_mem_mentions _)
    -- a class or an external name, with the arguments as they are written
    have hofType : ∀ type : TypeName, type.arguments = [] →
        type = (ctx.storedName scope name).withNullable nullable → Yields ctx (do
          let kinds ← ctx.classifyArguments expand scope arguments
          return PropertyKind.ofType ctx.markers type kinds)
        (ctx.StoresAs scope (.mk name arguments nullable)) := by
      intro type hnil htype
      have harguments := yields_storesList hm expand arguments fun _ _ h => ht.argument h
      refine harguments.bind fun kinds hkinds => yields_pure ?_
      rw [StoresAs, displayNel_ofType hm hnil, TypeRef.written, ← htype]
      exact TypeName.displayNel_congr rfl rfl hkinds
    rw [classifyWith]
    split
    · rename_i hr
      refine hofType _ rfl ?_
      rw [storedName, hr, baseName, hr]
    · rename_i hr
      refine hofType _ rfl ?_
      rw [storedName, hr, baseName, hr]
    · rename_i c hr
      have hc := DeclarationIndex.declares_of_resolve hr
      refine (yields_modelNames hc).bind fun names hnames => ?_
      have hstored := storedName_of_modelNamesOf hr hnames
      cases names with
      | some names =>
        obtain rfl : arguments = [] := ht.arguments_nil hr (.inl (by simp [hnames]))
        have hmodel : names.model = ctx.storedName scope name := hstored.symm
        refine yields_pure (congrArg TypeName.displayNel ?_)
        show names.model.withNullable nullable = _
        rw [hmodel, TypeRef.written_nil (arguments_storedName hr)]
      | none =>
        refine (yields_wrapper hc nullable).bind fun v? hv => ?_
        cases v? with
        | some v =>
          obtain ⟨hwrapper, hobject⟩ := hv v rfl
          obtain rfl : arguments = [] := ht.arguments_nil hr (.inr hobject)
          have hclass : .ofClass c = ctx.storedName scope name := hstored.symm
          refine yields_pure (congrArg TypeName.displayNel ?_)
          rw [fieldType, hwrapper, hclass, TypeRef.written_nil (arguments_storedName hr)]
        | none =>
          refine hofType _ rfl ?_
          rw [hstored]
          rfl
    · rename_i a hr
      exact absurd hr (hname a)

theorem yields_storesArgument (hm : ctx.markers.HasDefaultContainers)
    (expand : AliasDecl → TypeRef → Resolution PropertyKind) :
    ∀ a : TypeArgument, (∀ variance t, a = .type variance t → ctx.Keeps scope t) →
      Yields ctx (ctx.classifyArgument expand scope a) fun kind =>
        TypeName.displayArgumentNel (fieldArgument .model kind) =
          TypeName.displayArgumentNel (TypeRef.writtenArgument (ctx.storedName scope) a)
  | .star, _ => by
    rw [classifyArgument]
    exact yields_pure rfl
  | .type _ t, ht => by
    rw [classifyArgument]
    exact (yields_storesAs hm expand t (ht _ t rfl)).bind fun kind hkind => yields_pure hkind

theorem yields_storesList (hm : ctx.markers.HasDefaultContainers)
    (expand : AliasDecl → TypeRef → Resolution PropertyKind) :
    ∀ as : List TypeArgument, (∀ variance t, .type variance t ∈ as → ctx.Keeps scope t) →
      Yields ctx (ctx.classifyArguments expand scope as) fun kinds =>
        (fieldArguments .model kinds).map TypeName.displayArgumentNel =
          (TypeRef.writtenList (ctx.storedName scope) as).map TypeName.displayArgumentNel
  | [], _ => by
    rw [classifyArguments]
    exact yields_pure rfl
  | a :: as, h => by
    have ha : ∀ variance t, a = .type variance t → ctx.Keeps scope t := by
      rintro variance t rfl
      exact h variance t List.mem_cons_self
    have has : ∀ variance t, .type variance t ∈ as → ctx.Keeps scope t := fun variance t ht =>
      h variance t (List.mem_cons_of_mem _ ht)
    rw [classifyArguments]
    refine (yields_storesArgument hm expand a ha).bind fun kind hkind => ?_
    refine (yields_storesList hm expand as has).bind fun kinds hkinds => yields_pure ?_
    rw [fieldArguments, TypeRef.writtenList, List.map_cons, List.map_cons, hkind, hkinds]

end

/-- **A property is stored at the type that it is declared with.**  The type that a reference is
written out to and the one that its classification is stored at differ in two things: a template
gives way to its model, and the non-empty list has a shorter name.  No argument, star, nullability
or nesting is lost on the way. -/
theorem displayNel_of_classify {t : TypeRef} {cache : ResolutionCache} {kind : PropertyKind}
    (hm : ctx.markers.HasDefaultContainers) (ht : ctx.Keeps scope t) (hcache : cache.Sound ctx)
    (h : (ctx.classify scope t).result cache = .ok kind) :
    ctx.typeNameOf scope t = t.written (ctx.baseName scope) ∧
      (fieldType .model kind).displayNel = (t.written (ctx.storedName scope)).displayNel := by
  have hyields : Yields ctx (ctx.classify scope t) (ctx.StoresAs scope t) :=
    yields_classifyAt_of_with (fun expand => yields_storesAs hm expand t ht) maxAliasDepth
  exact ⟨typeNameOf_eq_written t, hyields.holds hcache h⟩

end Context

/-! ### A column

Containers of a nested model and of a validated value, inside external classes. -/

namespace Sample

def printing : Context :=
  ⟨⟨context.index.entries ++
    [⟨.ofClass (templateOf "LineTemplate" "Line" [("deep", .named "t.Deep")]), "t.json"⟩]⟩, {}⟩

def column : TypeRef :=
  applied "kotlin.Pair"
    [.mk "arrow.core.Option" [.type .invariant (.mk "t.LineTemplate" [] true)] true,
      applied "arrow.core.NonEmptyList"
        [.mk "kotlin.Triple" [.star, .type .covariant (.named "t.Deep"),
          .type .invariant (.mk "kotlin.Int" [] true)] false]]

theorem keeps_column : printing.Keeps none column := by
  refine ⟨?_, ?_⟩
  · intro name hname
    simp only [column, applied, TypeRef.named, List.map_cons, List.map_nil, TypeRef.mentions,
      TypeRef.mentionsOfList, TypeRef.mentionsOfArgument, List.nil_append, List.append_nil,
      List.cons_append, List.mem_cons, List.not_mem_nil, or_false] at hname
    rcases hname with rfl | rfl | rfl | rfl | rfl | rfl | rfl <;> exact nofun
  · intro name hname
    simp only [column, applied, TypeRef.named, List.map_cons, List.map_nil, TypeRef.heads,
      TypeRef.headsOfList, TypeRef.headsOfArgument, List.nil_append, List.append_nil,
      List.cons_append, List.mem_cons, List.not_mem_nil, or_false] at hname
    rcases hname with rfl | rfl | rfl | rfl <;> exact nofun

end Sample

theorem Context.displayNel_of_classify_column :
    Sample.printing.Keeps none Sample.column ∧
    ∃ kind, (Sample.printing.classify none Sample.column).result {} = .ok kind ∧
      (Generation.fieldType .model kind).displayNel =
        "kotlin.Pair<arrow.core.Option<t.Line?>?, " ++
          "arrow.core.Nel<kotlin.Triple<*, t.Deep, kotlin.Int?>>>" := by
  refine ⟨Sample.keeps_column, ?_⟩
  cases h : (Sample.printing.classify none Sample.column).result {} with
  | error problem =>
    have hok : ((Sample.printing.classify none Sample.column).result {}).toBool = true := by
      decide +kernel
    rw [h] at hok
    simp [Except.toBool] at hok
  | ok kind =>
    have hempty := ResolutionCache.sound_empty Sample.printing
    obtain ⟨-, hstored⟩ :=
      displayNel_of_classify ⟨rfl, rfl, rfl, rfl⟩ Sample.keeps_column hempty h
    refine ⟨kind, rfl, hstored.trans ?_⟩
    decide +kernel

end ModelForge
