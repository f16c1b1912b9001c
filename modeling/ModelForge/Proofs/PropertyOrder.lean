/-
The shape of a list of properties.

Names are kept apart and in order by three different means: what is inherited is scanned for
names that are there, what is declared takes the place of what it overrides, and what is
composed must be new.  The list that comes out is described here without them:

* `OwnedProperty.firstEncounters` — of several properties with one name the first;
* `OwnedProperty.Merges` — properties that are merged one by one into a list;
* `Context.ListsDeclared` — the declared properties of a class, from a visit of its
  super-interfaces and its own properties;
* `Context.PropertyShape` — the properties of a target: the declared ones, classified, and then
  the composed fields of a template.

The main statement is `Context.propertyShape_of_build`.
-/
import ModelForge.Proofs.AnalyzedModels
import ModelForge.Proofs.ClassificationProblems
import ModelForge.Proofs.ComposedFields
import ModelForge.Proofs.DeclaredTypes
import ModelForge.Proofs.VisitOrder

namespace ModelForge

/-! ### Inherited and own properties -/

namespace OwnedProperty

/-- The names of properties. -/
def names (ps : List OwnedProperty) : List String :=
  ps.map (·.property.name)

/-- The properties whose names have not been seen, each the first of its name. -/
def firstEncounters (seen : List String) : List OwnedProperty → List OwnedProperty
  | [] => []
  | p :: ps =>
    if p.property.name ∈ seen then firstEncounters seen ps
    else p :: firstEncounters (p.property.name :: seen) ps

/-- A property is put into a list: in the place of the one that has its name, or at the end if
there is none. -/
inductive Places (p : OwnedProperty) : List OwnedProperty → List OwnedProperty → Prop
  | replace {before after : List OwnedProperty} {q : OwnedProperty}
    (hname : q.property.name = p.property.name) (hbefore : p.property.name ∉ names before)
    (hafter : p.property.name ∉ names after) :
    Places p (before ++ q :: after) (before ++ p :: after)
  | append {ps : List OwnedProperty} (hnew : p.property.name ∉ names ps) : Places p ps (ps ++ [p])

/-- Properties are put into a list one by one. -/
inductive Merges : List OwnedProperty → List OwnedProperty → List OwnedProperty → Prop
  | nil {ps : List OwnedProperty} : Merges ps [] ps
  | cons {ps middle last own : List OwnedProperty} {p : OwnedProperty} (hp : Places p ps middle)
    (hrest : Merges middle own last) : Merges ps (p :: own) last

theorem mem_names {ps : List OwnedProperty} {name : String} :
    name ∈ names ps ↔ ∃ p ∈ ps, p.property.name = name :=
  List.mem_map

theorem names_append (ps qs : List OwnedProperty) : names (ps ++ qs) = names ps ++ names qs :=
  List.map_append

theorem names_cons (p : OwnedProperty) (ps : List OwnedProperty) :
    names (p :: ps) = p.property.name :: names ps := rfl

/-- Only the set of names that have been seen matters. -/
theorem firstEncounters_congr {seen seen' : List String} (h : ∀ name, name ∈ seen ↔ name ∈ seen')
    (ps : List OwnedProperty) : firstEncounters seen ps = firstEncounters seen' ps := by
  induction ps generalizing seen seen' with
  | nil => rfl
  | cons p ps ih =>
    have hcons : ∀ name, name ∈ p.property.name :: seen ↔ name ∈ p.property.name :: seen' := by
      intro name
      rw [List.mem_cons, List.mem_cons, h]
    rw [firstEncounters, firstEncounters, ih h, ih hcons]
    exact if_congr (h _) rfl rfl

theorem foldl_keepFirst (ps : List OwnedProperty) : ∀ kept : List OwnedProperty,
    ps.foldl keepFirst kept = kept ++ firstEncounters (names kept) ps := by
  induction ps with
  | nil => exact fun kept => (List.append_nil kept).symm
  | cons p ps ih =>
    intro kept
    have hany : (kept.any fun q => q.property.name == p.property.name) = true ↔
        p.property.name ∈ names kept := by
      rw [List.any_eq_true, mem_names]
      simp only [beq_iff_eq]
    rw [List.foldl_cons, keepFirst, firstEncounters]
    by_cases hseen : p.property.name ∈ names kept
    · rw [if_pos (hany.2 hseen), if_pos hseen, ih]
    · have hnames : ∀ name, name ∈ names (kept ++ [p]) ↔ name ∈ p.property.name :: names kept := by
        intro name
        rw [names_append, names_cons, List.mem_append, List.mem_cons, List.mem_cons, or_comm]
        simp [names]
      rw [if_neg (mt hany.1 hseen), if_neg hseen, ih, firstEncounters_congr hnames,
        List.append_assoc, List.singleton_append]

theorem nodup_firstEncounters (ps : List OwnedProperty) : ∀ seen : List String,
    (names (firstEncounters seen ps)).Nodup ∧
      ∀ name ∈ names (firstEncounters seen ps), name ∉ seen := by
  induction ps with
  | nil => exact fun seen => ⟨.nil, nofun⟩
  | cons p ps ih =>
    intro seen
    rw [firstEncounters]
    split
    · exact ih seen
    · rename_i hnew
      obtain ⟨hnodup, hapart⟩ := ih (p.property.name :: seen)
      rw [names_cons, List.nodup_cons, List.forall_mem_cons]
      refine ⟨⟨fun hmem => hapart _ hmem List.mem_cons_self, hnodup⟩, hnew, fun name hname => ?_⟩
      exact fun hseen => hapart name hname (List.mem_cons_of_mem _ hseen)

/-- Overriding puts a property into a list without repeated names. -/
theorem places_override (p : OwnedProperty) {ps : List OwnedProperty} (h : (names ps).Nodup) :
    Places p ps (override ps p) := by
  induction ps with
  | nil => exact .append List.not_mem_nil
  | cons q ps ih =>
    rw [names_cons, List.nodup_cons] at h
    rw [override]
    by_cases hname : q.property.name = p.property.name
    · rw [if_pos hname]
      have hafter : p.property.name ∉ names ps := by
        rw [← hname]
        exact h.1
      exact @Places.replace p [] ps q hname List.not_mem_nil hafter
    · rw [if_neg hname]
      have hplaced := ih h.2
      generalize override ps p = qs at hplaced
      cases hplaced with
      | @replace before after r hr hbefore hafter =>
        have hbefore' : p.property.name ∉ names (q :: before) := by
          rw [names_cons, List.mem_cons, not_or]
          exact ⟨Ne.symm hname, hbefore⟩
        rw [← List.cons_append, ← List.cons_append]
        exact .replace hr hbefore' hafter
      | append hnew =>
        refine .append ?_
        rw [names_cons, List.mem_cons, not_or]
        exact ⟨Ne.symm hname, hnew⟩

/-- A property that is put into a list repeats no name. -/
theorem Places.nodup {p : OwnedProperty} {ps qs : List OwnedProperty} (h : Places p ps qs)
    (hps : (names ps).Nodup) : (names qs).Nodup := by
  cases h with
  | replace hname =>
    rw [names_append, names_cons] at hps ⊢
    rwa [← hname]
  | append hnew =>
    rw [names_append]
    refine hps.append (List.nodup_singleton _) fun name hname hp => hnew ?_
    obtain rfl : name = p.property.name := List.mem_singleton.1 hp
    exact hname

theorem merges_foldl_override (own : List OwnedProperty) : ∀ ps : List OwnedProperty,
    (names ps).Nodup → Merges ps own (own.foldl override ps) := by
  induction own with
  | nil => exact fun ps _ => .nil
  | cons p own ih =>
    intro ps hps
    have hplaced := places_override p hps
    exact .cons hplaced (ih _ (hplaced.nodup hps))

theorem Merges.nodup {ps own last : List OwnedProperty} (h : Merges ps own last)
    (hps : (names ps).Nodup) : (names last).Nodup := by
  induction h with
  | nil => exact hps
  | cons hp _ ih => exact ih (hp.nodup hps)

end OwnedProperty

namespace Context

open OwnedProperty

variable {ctx : Context} {c : ClassDecl}

/-- The declared properties of a class. An interface starts from the properties of its
super-interfaces in the order of a visit, of those with one name the first; other classes start
from nothing. Then the class's own properties are merged in. -/
structure ListsDeclared (ctx : Context) (c : ClassDecl) (ds : List OwnedProperty) : Prop where
  inherits : ∃ supers : List ClassDecl,
    (c.kind = .interface → ∃ last, ctx.Visits [] (ctx.parents c) supers last) ∧
    (c.kind ≠ .interface → supers = []) ∧
    Merges (firstEncounters [] (supers.flatMap ofClass)) (ofClass c) ds

theorem listsDeclared (ctx : Context) (c : ClassDecl) :
    ctx.ListsDeclared c (ctx.declaredProperties c) := by
  by_cases hkind : c.kind = .interface
  · refine ⟨ctx.superInterfaces c, fun _ => visits_superInterfaces ctx c, absurd hkind, ?_⟩
    rw [declaredProperties, inheritedProperties, if_pos hkind, foldl_keepFirst]
    exact merges_foldl_override _ _ (nodup_firstEncounters _ []).1
  · refine ⟨[], fun h => absurd h hkind, fun _ => rfl, ?_⟩
    rw [declaredProperties, inheritedProperties, if_neg hkind]
    exact merges_foldl_override _ _ .nil

theorem ListsDeclared.nodup {ds : List OwnedProperty} (h : ctx.ListsDeclared c ds) :
    (names ds).Nodup := by
  obtain ⟨supers, -, -, hmerges⟩ := h.inherits
  exact hmerges.nodup (nodup_firstEncounters _ []).1

/-! ### Classified properties -/

/-- The classified form of a declared property. -/
structure IsDeclared (ctx : Context) (c : ClassDecl) (d : OwnedProperty) (p : Property) : Prop where
  name : p.name = d.property.name
  kind : (ctx.classify (some d.owner.scope) d.property.type).result {} = .ok p.kind
  external : p.external = d.property.isAnnotated ctx.markers.external
  origin : p.origin = if d.owner.qualifiedName = c.qualifiedName then .declared
    else .inherited d.owner.qualifiedName
  location : p.location = d.property.location

/-- The classified form of a composed field. -/
structure IsComposed (ctx : Context) (c : ClassDecl) (f : ComposedField) (p : Property) :
    Prop where
  name : p.name = f.field.name
  kind : (ctx.classify none f.field.type).result {} = .ok p.kind
  external : p.external = f.field.ignore
  origin : p.origin = .composed f.root
  location : p.location = c.location

/-- What is composed for a target: nothing for a validatable class, for a template the
expansion of its annotations. -/
inductive Composes (ctx : Context) (c : ClassDecl) : TargetMark → List Property → Prop
  | validatable : Composes ctx c .validatable []
  | template {use : Annotation} {fields : List ComposedField} {composed : List Property}
    (hfields : ctx.expandComposition c.qualifiedName c.annotations = .ok fields)
    (hcomposed : List.Forall₂ (ctx.IsComposed c) fields composed) :
    Composes ctx c (.template use) composed

/-- The properties of a target: no name twice, the declared ones first, and then what is
composed. -/
structure PropertyShape (ctx : Context) (c : ClassDecl) (mark : TargetMark)
    (properties : List Property) : Prop where
  nodup : (properties.map (·.name)).Nodup
  parts : ∃ (ds : List OwnedProperty) (declared composed : List Property),
    ctx.ListsDeclared c ds ∧ List.Forall₂ (ctx.IsDeclared c) ds declared ∧
      ctx.Composes c mark composed ∧ properties = declared ++ composed

/-- The properties of a target. -/
def build (ctx : Context) (c : ClassDecl) : TargetMark → Analysis (List Property)
  | .template _ => ctx.buildTemplate c
  | .validatable => Analysis.resolve (ctx.buildDeclared c)

open Resolution

theorem yields_classify (scope : Option Scope) (t : TypeRef) :
    Yields ctx (ctx.classify scope t) fun kind => (ctx.classify scope t).result {} = .ok kind :=
  (transparent_classifyAt scope maxAliasDepth t).yields fun _ h => h

theorem yields_isDeclared (c : ClassDecl) (d : OwnedProperty) :
    Yields ctx (ctx.classifyDeclared c d) (ctx.IsDeclared c d) :=
  (yields_classify _ _).bind fun _ hkind => yields_pure ⟨rfl, hkind, rfl, rfl, rfl⟩

theorem yields_allDeclared (c : ClassDecl) (ds : List OwnedProperty) :
    Yields ctx (ctx.classifyAll c ds) (List.Forall₂ (ctx.IsDeclared c) ds) := by
  induction ds with
  | nil => exact yields_pure .nil
  | cons d ds ih =>
    refine (yields_isDeclared c d).bind fun p hp => ?_
    exact ih.bind fun ps hps => yields_pure (.cons hp hps)

theorem yields_declared (c : ClassDecl) :
    Yields ctx (ctx.buildDeclared c)
      (List.Forall₂ (ctx.IsDeclared c) (ctx.declaredProperties c)) := by
  show Yields ctx (if (ctx.declaredProperties c).isEmpty then throw (.noProperties c.qualifiedName)
    else ctx.classifyAll c (ctx.declaredProperties c)) _
  split
  · exact yields_throw
  · exact yields_allDeclared c _

theorem nodup_append_property {properties : List Property} {p : Property}
    (h : (properties.map (·.name)).Nodup) (hnew : p.name ∉ properties.map (·.name)) :
    ((properties ++ [p]).map (·.name)).Nodup := by
  rw [List.map_append, List.map_singleton]
  refine h.append (List.nodup_singleton _) fun name hname hp => hnew ?_
  rwa [← List.mem_singleton.1 hp]

/-- A composed field is added only where its name is new. -/
theorem yields_composed (c : ClassDecl) (fields : List ComposedField) :
    ∀ {properties : List Property}, (properties.map (·.name)).Nodup →
      Yields ctx (ctx.addComposed c properties fields) fun out =>
        (out.map (·.name)).Nodup ∧ ∃ composed, out = properties ++ composed ∧
          List.Forall₂ (ctx.IsComposed c) fields composed := by
  induction fields with
  | nil =>
    intro properties hnodup
    exact yields_pure ⟨hnodup, [], (List.append_nil _).symm, .nil⟩
  | cons f fields ih =>
    intro properties hnodup
    unfold addComposed
    split
    · exact yields_throw.bind fun _ (h : False) => h.elim
    · rename_i hany
      have hnew : f.field.name ∉ properties.map (·.name) := by
        intro hmem
        obtain ⟨p, hp, hname⟩ := List.mem_map.1 hmem
        exact hany (List.any_eq_true.2 ⟨p, hp, beq_iff_eq.2 hname⟩)
      refine (yields_classify none f.field.type).bind fun kind hkind => ?_
      obtain ⟨hsound, hholds⟩ := ih (nodup_append_property (p := ⟨f.field.name, kind,
        f.field.ignore, .composed f.root, c.location⟩) hnodup hnew)
      refine ⟨hsound, fun hc h => ?_⟩
      obtain ⟨hout, composed, rfl, hcomposed⟩ := hholds hc h
      exact ⟨hout, _ :: composed, List.append_assoc _ _ _,
        .cons ⟨rfl, hkind, rfl, rfl, rfl⟩ hcomposed⟩

theorem names_of_forall₂ {ds : List OwnedProperty} {ps : List Property}
    (h : List.Forall₂ (ctx.IsDeclared c) ds ps) : ps.map (·.name) = names ds :=
  map_eq_of_forall₂ h fun _ _ hp => hp.name

theorem nodup_of_forall₂ {ps : List Property}
    (h : List.Forall₂ (ctx.IsDeclared c) (ctx.declaredProperties c) ps) :
    (ps.map (·.name)).Nodup := by
  rw [names_of_forall₂ h]
  exact (listsDeclared ctx c).nodup

/-- Properties that are built are the declared ones, one by one, and then what is composed, and
no name is there twice. -/
theorem parts_of_build {p : Progress} (hp : p.cache.Sound ctx) {mark : TargetMark}
    {properties : List Property} (h : (ctx.build c mark).result p = .ok properties) :
    (properties.map (·.name)).Nodup ∧ ∃ declared composed,
      List.Forall₂ (ctx.IsDeclared c) (ctx.declaredProperties c) declared ∧
        ctx.Composes c mark composed ∧ properties = declared ++ composed := by
  cases mark with
  | validatable =>
    have hdeclared := (yields_declared c).holds hp h
    exact ⟨nodup_of_forall₂ hdeclared, properties, [], hdeclared, .validatable,
      (List.append_nil _).symm⟩
  | template use =>
    -- the composed fields are added on the cache that the declared properties have left
    obtain ⟨declared, hdeclared, h⟩ := Analysis.result_bind_eq_ok_iff.1 h
    obtain ⟨_, -, h⟩ := Analysis.result_bind_eq_ok_iff.1 h
    obtain ⟨fields, hfields, h⟩ := Analysis.result_bind_eq_ok_iff.1 h
    rw [Analysis.result_of] at hfields
    have hsound := (Analysis.steady_of (ctx.expandComposition c.qualifiedName c.annotations)).sound
      ((Analysis.steady_warnAll (ctx.compositionWarnings c.annotations)).sound
        ((Analysis.steady_resolve (transparent_buildDeclared c)).sound hp))
    have hdeclared := (yields_declared c).holds hp hdeclared
    obtain ⟨hnodup, composed, rfl, hcomposed⟩ :=
      (yields_composed c fields (nodup_of_forall₂ hdeclared)).holds hsound h
    exact ⟨hnodup, declared, composed, hdeclared, .template hfields hcomposed, rfl⟩

/-- The properties of a target have the shape. -/
theorem propertyShape {p : Progress} (hp : p.cache.Sound ctx) {mark : TargetMark}
    {properties : List Property} (h : (ctx.build c mark).result p = .ok properties) :
    ctx.PropertyShape c mark properties := by
  obtain ⟨hnodup, declared, composed, hdeclared, hcomposed, heq⟩ := parts_of_build hp h
  exact ⟨hnodup, ctx.declaredProperties c, declared, composed, listsDeclared ctx c, hdeclared,
    hcomposed, heq⟩

end Context

/-! ### The check of a model -/

namespace Model

variable {m : Model}

theorem firstRepeated_eq_none {names : List String} : ∀ {seen : List String}, names.Nodup →
    (∀ name ∈ names, name ∉ seen) → firstRepeated seen names = none := by
  induction names with
  | nil => exact fun _ _ => rfl
  | cons name names ih =>
    intro seen hnodup hapart
    rw [List.nodup_cons] at hnodup
    obtain ⟨hname, hnames⟩ := List.forall_mem_cons.1 hapart
    rw [firstRepeated, if_neg hname]
    refine ih hnodup.2 fun other hother hmem => ?_
    rcases List.mem_cons.1 hmem with rfl | hmem
    · exact hnodup.1 hother
    · exact hnames other hother hmem

theorem result_warnAll (ws : List Warning) (p : Progress) :
    (Analysis.warnAll ws).result p = .ok () := by
  induction ws generalizing p with
  | nil => rfl
  | cons w ws ih =>
    show (Analysis.warn w >>= fun _ => Analysis.warnAll ws).result p = _
    rw [Analysis.result_bind]
    exact ih _

/-- Templates are refused for their names only. -/
theorem checkTemplates_eq_error {e : Problem} (ts : List ValidationTemplate) :
    ∀ {functions : List String} {p : Progress},
      (m.checkTemplates functions ts).result p = .error e → ∃ fault, e = .generation fault := by
  induction ts with
  | nil => exact fun h => nomatch h
  | cons t ts ih =>
    intro functions p h
    unfold checkTemplates at h
    split at h
    · cases h
      exact ⟨_, rfl⟩
    · rw [Analysis.result_bind, result_warnAll] at h
      exact ih h

/-- A model whose properties have different names is refused for its templates only. -/
theorem check_eq_error {e : Problem} {p : Progress} (hnodup : (m.properties.map (·.name)).Nodup)
    (h : m.check.result p = .error e) : ∃ fault, e = .generation fault := by
  unfold check at h
  rw [firstRepeated_eq_none hnodup fun _ _ => List.not_mem_nil] at h
  exact checkTemplates_eq_error m.templates h

end Model

/-! ### Clashes of names -/

namespace Composition

/-- Fields are refused where two for one name do not agree. -/
theorem merge_eq_error {declaration : String} {e : Problem} {fields : List ComposedField} :
    ∀ {kept : List ComposedField}, merge declaration kept fields = .error e →
      ∃ f ∈ fields, ∃ g ∈ kept ++ fields, g.field.name = f.field.name ∧ g.field ≠ f.field ∧
        e = .duplicateField declaration f.field.name := by
  induction fields with
  | nil => exact fun h => nomatch h
  | cons f fields ih =>
    intro kept h
    rw [merge] at h
    split at h
    · obtain ⟨f', hf', g, hg, hclash⟩ := ih h
      refine ⟨f', List.mem_cons_of_mem _ hf', g, ?_, hclash⟩
      rwa [List.append_assoc, List.singleton_append] at hg
    · rename_i k hk
      split at h
      · obtain ⟨f', hf', g, hg, hclash⟩ := ih h
        refine ⟨f', List.mem_cons_of_mem _ hf', g, ?_, hclash⟩
        rcases List.mem_append.1 hg with hg | hg
        · exact List.mem_append_left _ hg
        · exact List.mem_append_right _ (List.mem_cons_of_mem _ hg)
      · rename_i hne
        cases h
        have hname : k.field.name = f.field.name := by simpa using List.find?_some hk
        exact ⟨f, List.mem_cons_self, k, List.mem_append_left _ (List.mem_of_find?_eq_some hk),
          hname, hne, rfl⟩

theorem endsIn_readFields (events : List (String × CompositionEvent)) :
    EndsIn (readFields events) := by
  induction events with
  | nil => exact endsIn_ok _
  | cons e events ih =>
    obtain ⟨root, event⟩ := e
    cases event with
    | cycle repeated path => exact ih
    | directive a => exact (endsIn_decode a).bind fun _ => ih.bind fun _ => endsIn_ok _

end Composition

namespace Context

open OwnedProperty Resolution

variable {ctx : Context} {c : ClassDecl}

theorem endsIn_classifyAll (c : ClassDecl) (ds : List OwnedProperty) :
    (ctx.classifyAll c ds).EndsIn := by
  induction ds with
  | nil => exact endsIn_pure _
  | cons d ds ih =>
    have hdeclared : (ctx.classifyDeclared c d).EndsIn :=
      (endsIn_classify _ _).bind fun _ => endsIn_pure _
    exact hdeclared.bind fun _ => ih.bind fun _ => endsIn_pure _

/-- Declared properties do not clash. -/
theorem buildDeclared_ne_duplicateField {cache : ResolutionCache} {d f : String} :
    (ctx.buildDeclared c).result cache ≠ .error (.duplicateField d f) := by
  intro h
  have hall : (ctx.classifyAll c (ctx.declaredProperties c)).EndsIn := endsIn_classifyAll _ _
  rw [buildDeclared] at h
  split at h
  · cases h
  · cases hall cache _ h

/-- Two directives for the name of a field do not agree, if the expansion is refused for this
name. -/
theorem clash_of_expandComposition {declaration d f : String} {annotations : List Annotation}
    (h : ctx.expandComposition declaration annotations = .error (.duplicateField d f)) :
    d = declaration ∧ ∃ g g', ctx.Adds annotations g ∧ ctx.Adds annotations g' ∧ g.name = f ∧
      g'.name = f ∧ g ≠ g' := by
  unfold expandComposition at h
  cases hread : Composition.readFields (ctx.compositionEvents annotations) with
  | error e =>
    rw [hread] at h
    cases h
    cases Composition.endsIn_readFields _ _ hread
  | ok fields =>
    rw [hread] at h
    obtain ⟨g, hg, g', hg', hname, hne, heq⟩ := Composition.merge_eq_error h
    obtain ⟨-, rfl⟩ := (Composition.readFields_eq_ok_iff _ _).1 hread
    obtain ⟨_, hmeets⟩ := inOrder_fields.mem_iff.1 hg
    obtain ⟨_, hmeets'⟩ := inOrder_fields.mem_iff.1 hg'
    cases heq
    exact ⟨rfl, g.field, g'.field, hmeets.adds, hmeets'.adds, rfl, hname, Ne.symm hne⟩

/-- A composed field is refused where its name is that of a property that was there before. -/
theorem clash_of_addComposed {d f : String} (fields : List ComposedField) :
    ∀ {properties : List Property} {cache : ResolutionCache},
      (fields.map (·.field.name)).Nodup →
      (ctx.addComposed c properties fields).result cache = .error (.duplicateField d f) →
        d = c.qualifiedName ∧ (∃ g ∈ fields, g.field.name = f) ∧ f ∈ properties.map (·.name) := by
  induction fields with
  | nil => exact fun _ h => nomatch h
  | cons g fields ih =>
    intro properties cache hnodup h
    rw [List.map_cons, List.nodup_cons] at hnodup
    unfold addComposed at h
    split at h
    · rename_i hany
      cases h
      obtain ⟨p, hp, hname⟩ := List.any_eq_true.1 hany
      refine ⟨rfl, ⟨g, List.mem_cons_self, rfl⟩, ?_⟩
      rw [← beq_iff_eq.1 hname]
      exact List.mem_map_of_mem hp
    · rw [result_bind] at h
      have hclassify : (ctx.classify none g.field.type).EndsIn := endsIn_classify _ _
      cases hkind : (ctx.classify none g.field.type).result cache with
      | error e =>
        rw [hkind] at h
        cases h
        cases hclassify cache _ hkind
      | ok kind =>
        rw [hkind] at h
        obtain ⟨hd, ⟨g', hg', hname⟩, hmem⟩ := ih hnodup.2 h
        refine ⟨hd, ⟨g', List.mem_cons_of_mem _ hg', hname⟩, ?_⟩
        rw [List.map_append, List.mem_append] at hmem
        rcases hmem with hmem | hmem
        · exact hmem
        · -- the fields have different names, so that `g` is not the one that clashes
          have hg : f = g.field.name := List.mem_singleton.1 hmem
          rw [← hname] at hg
          exact absurd (hg ▸ List.mem_map_of_mem hg') hnodup.1

/-- The name is that of a field that a directive adds to a template, and also that of a declared
property or of a different field that a directive adds. -/
def Clashes (ctx : Context) (c : ClassDecl) (mark : TargetMark) (name : String) : Prop :=
  ∃ use field, mark = .template use ∧ ctx.Adds c.annotations field ∧ field.name = name ∧
    ((∃ ds, ctx.ListsDeclared c ds ∧ name ∈ names ds) ∨
      ∃ other, ctx.Adds c.annotations other ∧ other.name = name ∧ field ≠ other)

theorem clashes_of_build {p : Progress} (hp : p.cache.Sound ctx) {mark : TargetMark} {d f : String}
    (h : (ctx.build c mark).result p = .error (.duplicateField d f)) :
    d = c.qualifiedName ∧ ctx.Clashes c mark f := by
  cases mark with
  | validatable => exact absurd h buildDeclared_ne_duplicateField
  | template use =>
    rw [build, buildTemplate, Analysis.result_bind] at h
    cases hdeclared : (Analysis.resolve (ctx.buildDeclared c)).result p with
    | error e =>
      rw [hdeclared] at h
      cases h
      exact absurd hdeclared buildDeclared_ne_duplicateField
    | ok declared =>
      rw [hdeclared] at h
      dsimp only at h
      rw [Analysis.result_bind, Model.result_warnAll] at h
      dsimp only at h
      rw [Analysis.result_bind, Analysis.result_of] at h
      cases hfields : ctx.expandComposition c.qualifiedName c.annotations with
      | error e =>
        rw [hfields] at h
        cases h
        obtain ⟨hd, g, g', hg, hg', hname, hname', hne⟩ := clash_of_expandComposition hfields
        exact ⟨hd, use, g, rfl, hg, hname, .inr ⟨g', hg', hname', hne⟩⟩
      | ok fields =>
        rw [hfields] at h
        have hexpansion := (expansion_of_eq_ok hfields).2
        obtain ⟨hd, ⟨g, hg, hname⟩, hmem⟩ := clash_of_addComposed fields hexpansion.nodup h
        rw [names_of_forall₂ ((yields_declared c).holds hp hdeclared)] at hmem
        exact ⟨hd, use, g.field, rfl, (hexpansion.mem_iff _).1 (List.mem_map_of_mem hg), hname,
          .inl ⟨_, listsDeclared ctx c, hmem⟩⟩

/-- The properties of a model that is analyzed are built on an empty cache. -/
theorem build_of_modelOf {p : Progress} (hp : p.cache.Sound ctx) {t : Target} {m : Model}
    (h : (ctx.modelOf t).result p = .ok m) :
    (ctx.build t.decl t.mark).result {} = .ok m.properties := by
  rw [(steady_modelOf t).result_eq hp] at h
  obtain ⟨c, mark⟩ := t
  cases mark with
  | template use =>
    obtain ⟨-, -, hproperties⟩ := analyzeTemplate_eq_ok h
    exact hproperties
  | validatable =>
    obtain ⟨-, -, hproperties⟩ := analyzeValidatable_eq_ok h
    exact hproperties

/-- The properties of a model that is analyzed. -/
theorem propertyShape_of_modelOf {p : Progress} (hp : p.cache.Sound ctx) {t : Target} {m : Model}
    (h : (ctx.modelOf t).result p = .ok m) : ctx.PropertyShape t.decl t.mark m.properties :=
  propertyShape (Analysis.sound_start ctx) (build_of_modelOf hp h)

/-- **The shape of a list of properties.**  Whatever has been gathered before, properties that
are built have different names and are the declared ones, in the order of a visit of the
super-interfaces with overriding ones in place, followed by what is composed.  So no analyzed
model is refused for the name of a property, and a target is refused for the name of a field
only where a composed field clashes with a declared property or with a different composed
field. -/
theorem propertyShape_of_build (ctx : Context) {p : Progress} (hp : p.cache.Sound ctx) :
    (∀ c mark properties, (ctx.build c mark).result p = .ok properties →
      ctx.PropertyShape c mark properties) ∧
    (∀ t m, (ctx.modelOf t).result p = .ok m →
      ∀ p' d f, m.check.result p' ≠ .error (.duplicateField d f)) ∧
    ∀ c mark d f, (ctx.build c mark).result p = .error (.duplicateField d f) →
      d = c.qualifiedName ∧ ctx.Clashes c mark f := by
  refine ⟨fun c mark properties h => propertyShape hp h, fun t m h p' d f hcheck => ?_,
    fun c mark d f h => clashes_of_build hp h⟩
  obtain ⟨_, hfault⟩ := Model.check_eq_error (propertyShape_of_modelOf hp h).nodup hcheck
  cases hfault

end Context

/-! ### A cycle

`Left` and `Right` extend each other, and both extend `Base`; the template extends `Right`,
overrides a property of `Base` and adds one. -/

namespace Sample

/-- An interface of the package `t`. -/
def interfaceOf (name : String) (superTypes : List String) (properties : List String) : ClassDecl :=
  ⟨"t", name, .interface, [], superTypes.map .named, [],
    properties.map fun property => ⟨property, .named "kotlin.Int", [], none⟩, none, [], false, none⟩

def ringTemplate : ClassDecl :=
  { interfaceOf "RingTemplate" ["t.Right", "t.Left"] ["own", "base"] with
    annotations := [adding "added"] }

def ring : Context :=
  ⟨⟨[interfaceOf "Base" [] ["base", "left"], interfaceOf "Left" ["t.Base", "t.Right"] ["left"],
    interfaceOf "Right" ["t.Left", "t.Base"] ["right", "left"], ringTemplate].map
      fun c => ⟨.ofClass c, "t.json"⟩⟩, {}⟩

end Sample

theorem Context.propertyShape_of_build_ring :
    ({} : Progress).cache.Sound Sample.ring ∧
    ∀ use, ∃ properties, (Sample.ring.build Sample.ringTemplate (.template use)).result {} =
        .ok properties ∧
      properties.map (·.name) = ["base", "left", "right", "own", "added"] ∧
      Sample.ring.PropertyShape Sample.ringTemplate (.template use) properties := by
  have hsound := Analysis.sound_start Sample.ring
  have hnames : ((Sample.ring.buildTemplate Sample.ringTemplate).result {}).map
      (·.map (·.name)) = .ok ["base", "left", "right", "own", "added"] := by
    decide +kernel
  refine ⟨hsound, fun use => ?_⟩
  cases h : (Sample.ring.buildTemplate Sample.ringTemplate).result {} with
  | error e =>
    rw [h] at hnames
    cases hnames
  | ok properties =>
    rw [h] at hnames
    exact ⟨properties, h, Except.ok.inj hnames,
      (Context.propertyShape_of_build Sample.ring hsound).1 _ (.template use) properties h⟩

end ModelForge
