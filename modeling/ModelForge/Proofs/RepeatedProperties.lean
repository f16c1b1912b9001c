/-
Declarations that repeat a property.

Nothing refuses a class that writes two properties of one name.  In a list that is merged into
another one, the later of the two takes the place of the earlier one, as if it were overridden, and
in a list that is inherited from, the later one is passed over:

* `OwnedProperty.foldl_override` — merging a list is merging what is left of it when it is merged
  into nothing;
* `Context.build_settled` — so a class is built as the class that writes the last definition of
  each name in the place of the first one, and nothing else;
* `OwnedProperty.Merges.last` and `OwnedProperty.first_of_firstEncounters` — of several definitions
  in one class the last is the class's own, and the first is inherited.

The main statement is `Context.definitions_of_build`; `Context.repetition_accepted` is a template
with a repeated property that extends an interface with another one.
-/
import Mathlib.Data.List.Induction
import ModelForge.Proofs.InheritedOverrides

namespace ModelForge

/-! ### Merging repeated properties -/

namespace OwnedProperty

variable {p q r : OwnedProperty} {ps qs own : List OwnedProperty}

theorem override_override_of_eq (h : p.property.name = q.property.name) :
    override (override ps p) q = override ps q := by
  induction ps with
  | nil => simp [override, h]
  | cons s ps ih =>
    by_cases hs : s.property.name = p.property.name
    · simp [override, hs, h]
    · have hs' : s.property.name ≠ q.property.name := h ▸ hs
      simp [override, hs, hs', ih]

/-- A property that is put in the place of another may be put there before or after a property of a
different name. -/
theorem override_comm (h : q.property.name ∈ names ps) (hne : p.property.name ≠ q.property.name) :
    override (override ps p) q = override (override ps q) p := by
  induction ps with
  | nil => cases h
  | cons s ps ih =>
    by_cases hq : s.property.name = q.property.name
    · have hp : s.property.name ≠ p.property.name := hq ▸ hne.symm
      simp [override, hq, hne.symm]
    · have hmem : q.property.name ∈ names ps := List.mem_of_ne_of_mem (Ne.symm hq) h
      by_cases hp : s.property.name = p.property.name
      · simp [override, hp, hne]
      · simp [override, hp, hq, ih hmem]

theorem mem_names_override {name : String} :
    name ∈ names (override ps p) ↔ name = p.property.name ∨ name ∈ names ps := by
  induction ps with
  | nil => simp [override, names]
  | cons q ps ih =>
    rw [override]
    split
    · rename_i heq
      rw [names_cons, names_cons, List.mem_cons, List.mem_cons, heq]
      tauto
    · rw [names_cons, names_cons, List.mem_cons, List.mem_cons, ih]
      tauto

/-- A property that is put in the place of another may be put there before others are merged in. -/
theorem override_foldl (own : List OwnedProperty) : ∀ {ps : List OwnedProperty},
    p.property.name ∈ names ps → p.property.name ∉ names own →
      override (own.foldl override ps) p = own.foldl override (override ps p) := by
  induction own with
  | nil => exact fun _ _ => rfl
  | cons q own ih =>
    intro ps hmem hnew
    rw [names_cons, List.mem_cons, not_or] at hnew
    rw [List.foldl_cons, List.foldl_cons, ih (mem_names_override.2 (.inr hmem)) hnew.2,
      override_comm hmem (Ne.symm hnew.1)]

/-- What is put into a list is put into what the list is merged into. -/
theorem foldl_override_override (hown : (names own).Nodup) :
    (override own p).foldl override ps = override (own.foldl override ps) p := by
  have hplaced := places_override p hown
  generalize override own p = own' at hplaced
  cases hplaced with
  | @replace before after q hname _ hafter =>
    have hmem : p.property.name ∈ names (override (before.foldl override ps) q) :=
      mem_names_override.2 (.inl hname.symm)
    rw [List.foldl_append, List.foldl_append, List.foldl_cons, List.foldl_cons,
      override_foldl after hmem hafter, override_override_of_eq hname]
  | append => rw [List.foldl_append, List.foldl_cons, List.foldl_nil]

/-- A list is merged as what is left of it when it is merged into nothing. -/
theorem foldl_override (own ps : List OwnedProperty) :
    own.foldl override ps = (own.foldl override []).foldl override ps := by
  induction own using List.reverseRecOn with
  | nil => rfl
  | append_singleton own p ih =>
    have hnodup : (names (own.foldl override [])).Nodup :=
      (merges_foldl_override own [] .nil).nodup .nil
    rw [List.foldl_append, List.foldl_append, List.foldl_cons, List.foldl_cons, List.foldl_nil,
      List.foldl_nil, foldl_override_override hnodup, ih]

/-- Two properties are written alike: they are the same property, in classes that differ at most in
what is written there. -/
structure Alike (d d' : OwnedProperty) : Prop where
  property : d.property = d'.property
  scope : d.owner.scope = d'.owner.scope
  owner : d.owner.qualifiedName = d'.owner.qualifiedName

theorem Alike.refl (d : OwnedProperty) : Alike d d :=
  ⟨rfl, rfl, rfl⟩

theorem alike_override {p p' : OwnedProperty} (hp : Alike p p') {ps ps' : List OwnedProperty}
    (h : List.Forall₂ Alike ps ps') : List.Forall₂ Alike (override ps p) (override ps' p') := by
  induction h with
  | nil => exact .cons hp .nil
  | @cons q q' ps ps' hq hps ih =>
    rw [override, override, ← hq.property, ← hp.property]
    split
    · exact .cons hp hps
    · exact .cons hq ih

theorem alike_foldl_override {own own' : List OwnedProperty} (hown : List.Forall₂ Alike own own') :
    ∀ {ps ps' : List OwnedProperty}, List.Forall₂ Alike ps ps' →
      List.Forall₂ Alike (own.foldl override ps) (own'.foldl override ps') := by
  induction hown with
  | nil => exact fun h => h
  | cons hp _ ih => exact fun h => ih (alike_override hp h)

/-- What is merged into nothing is some of what has been written. -/
theorem mem_of_mem_foldl_override {d : OwnedProperty} (h : d ∈ own.foldl override []) :
    d ∈ own := by
  rcases (merges_foldl_override own [] .nil).mem h with hown | ⟨hnil, -⟩
  · exact hown
  · cases hnil

end OwnedProperty

open OwnedProperty

/-- The class with each name written once: the last definition in the place of the first one. -/
def ClassDecl.settled (c : ClassDecl) : ClassDecl :=
  { c with properties := ((ofClass c).foldl override []).map (·.property) }

namespace ClassDecl

variable {c : ClassDecl}

theorem alike_settled (c : ClassDecl) :
    List.Forall₂ Alike ((ofClass c).foldl override []) (ofClass c.settled) := by
  show List.Forall₂ Alike _ (List.map _ (List.map _ _))
  rw [List.map_map, List.forall₂_map_right_iff, List.forall₂_same]
  intro d hd
  obtain ⟨rfl, -⟩ := mem_ofClass.1 (mem_of_mem_foldl_override hd)
  exact ⟨rfl, rfl, rfl⟩

/-- The class that is left repeats nothing. -/
theorem nodup_settled (c : ClassDecl) : (c.settled.properties.map (·.name)).Nodup := by
  have hnodup : (names ((ofClass c).foldl override [])).Nodup :=
    (merges_foldl_override (ofClass c) [] .nil).nodup .nil
  show (List.map _ (List.map _ _)).Nodup
  rwa [List.map_map]

end ClassDecl

namespace Context

variable {ctx : Context} {c : ClassDecl}

theorem superInterfaces_settled (ctx : Context) (c : ClassDecl) :
    ctx.superInterfaces c.settled = ctx.superInterfaces c := by
  rw [superInterfaces, superInterfaces]
  cases ctx.index.classes.length with
  | zero => rfl
  | succ n => rfl

/-- Of a class that repeats properties, the same ones are declared as of the class without the
repetitions. -/
theorem alike_declaredProperties (ctx : Context) (c : ClassDecl) :
    List.Forall₂ Alike (ctx.declaredProperties c) (ctx.declaredProperties c.settled) := by
  have hinherited : ctx.inheritedProperties c.settled = ctx.inheritedProperties c := by
    rw [inheritedProperties, inheritedProperties, superInterfaces_settled]
    rfl
  rw [declaredProperties, declaredProperties, hinherited, foldl_override (ofClass c)]
  exact alike_foldl_override c.alike_settled (List.forall₂_same.2 fun d _ => .refl d)

theorem classifyAll_settled {ds ds' : List OwnedProperty} (h : List.Forall₂ Alike ds ds') :
    ctx.classifyAll c.settled ds' = ctx.classifyAll c ds := by
  induction h with
  | nil => rfl
  | @cons d d' ds ds' hd _ ih =>
    have hdeclared : ctx.classifyDeclared c.settled d' = ctx.classifyDeclared c d := by
      rw [classifyDeclared, classifyDeclared, hd.property, hd.scope, hd.owner]
      rfl
    rw [classifyAll, classifyAll, hdeclared, ih]

theorem buildDeclared_settled (ctx : Context) (c : ClassDecl) :
    ctx.buildDeclared c.settled = ctx.buildDeclared c := by
  have halike := alike_declaredProperties ctx c
  have hempty : (ctx.declaredProperties c.settled).isEmpty =
      (ctx.declaredProperties c).isEmpty := by
    rw [Bool.eq_iff_iff, List.isEmpty_iff_length_eq_zero, List.isEmpty_iff_length_eq_zero,
      halike.length_eq]
  rw [buildDeclared, buildDeclared, hempty, classifyAll_settled halike]
  rfl

theorem addComposed_settled (ctx : Context) (c : ClassDecl) (fields : List ComposedField) :
    ∀ properties : List Property,
      ctx.addComposed c.settled properties fields = ctx.addComposed c properties fields := by
  induction fields with
  | nil => exact fun _ => rfl
  | cons f fields ih =>
    intro properties
    unfold addComposed
    simp only [ih]
    rfl

/-- A class that repeats properties is built as the class without the repetitions. -/
theorem build_settled (ctx : Context) (c : ClassDecl) (mark : TargetMark) :
    ctx.build c.settled mark = ctx.build c mark := by
  cases mark with
  | validatable => exact congrArg Analysis.resolve (buildDeclared_settled ctx c)
  | template use =>
    show ctx.buildTemplate c.settled = ctx.buildTemplate c
    rw [buildTemplate, buildTemplate, buildDeclared_settled]
    simp only [addComposed_settled]
    rfl

end Context

/-! ### Which definition counts -/

/-- The definition is the first one of its name in the list. -/
def PropertyDecl.IsFirst (d : PropertyDecl) (ps : List PropertyDecl) : Prop :=
  ∃ before after, ps = before ++ d :: after ∧ ∀ e ∈ before, e.name ≠ d.name

/-- The definition is the last one of its name in the list. -/
def PropertyDecl.IsLast (d : PropertyDecl) (ps : List PropertyDecl) : Prop :=
  ∃ before after, ps = before ++ d :: after ∧ ∀ e ∈ after, e.name ≠ d.name

namespace OwnedProperty

/-- What is merged into a list is the last of its name. -/
theorem Merges.last {d : OwnedProperty} {ps own last : List OwnedProperty} (h : Merges ps own last)
    (hd : d ∈ last) (hname : d.property.name ∈ names own) :
    ∃ before after, own = before ++ d :: after ∧ d.property.name ∉ names after := by
  induction h with
  | nil => cases hname
  | @cons ps middle last own p hp hrest ih =>
    by_cases hlater : d.property.name ∈ names own
    · obtain ⟨before, after, rfl, hafter⟩ := ih hd hlater
      exact ⟨p :: before, after, rfl, hafter⟩
    · have hsame : d.property.name = p.property.name := by
        rcases List.mem_cons.1 hname with hsame | hmem
        · exact hsame
        · exact absurd hmem hlater
      rcases hrest.mem hd with hown | ⟨hmiddle, -⟩
      · exact absurd (mem_names.2 ⟨d, hown, rfl⟩) hlater
      · rcases hp.mem hmiddle with rfl | ⟨-, hne⟩
        · exact ⟨[], own, rfl, hlater⟩
        · exact absurd hsame hne

/-- What is kept of a list is the first of its name. -/
theorem first_of_firstEncounters {d : OwnedProperty} {ps : List OwnedProperty} :
    ∀ {seen : List String}, d ∈ firstEncounters seen ps →
      ∃ before after, ps = before ++ d :: after ∧ d.property.name ∉ names before := by
  induction ps with
  | nil => exact fun h => nomatch h
  | cons p ps ih =>
    intro seen h
    have hnew : ∀ {seen' : List String}, d ∈ firstEncounters seen' ps → d.property.name ∉ seen' :=
      fun hd => (nodup_firstEncounters ps _).2 _ (mem_names.2 ⟨d, hd, rfl⟩)
    have hlater : ∀ {seen' : List String}, d ∈ firstEncounters seen' ps → p.property.name ∈ seen' →
        ∃ before after, p :: ps = before ++ d :: after ∧ d.property.name ∉ names before := by
      intro seen' hd hp
      obtain ⟨before, after, rfl, hbefore⟩ := ih hd
      refine ⟨p :: before, after, rfl, ?_⟩
      rw [names_cons, List.mem_cons, not_or]
      exact ⟨fun heq => hnew hd (heq ▸ hp), hbefore⟩
    rw [firstEncounters] at h
    split at h
    · rename_i hseen
      exact hlater h hseen
    · rcases List.mem_cons.1 h with rfl | h
      · exact ⟨[], ps, rfl, List.not_mem_nil⟩
      · exact hlater h List.mem_cons_self

theorem map_property_ofClass (c : ClassDecl) : (ofClass c).map (·.property) = c.properties := by
  rw [ofClass, List.map_map]
  exact List.map_id _

theorem properties_of_split {d : OwnedProperty} {c : ClassDecl} {before after : List OwnedProperty}
    (hsplit : ofClass c = before ++ d :: after) :
    c.properties = before.map (·.property) ++ d.property :: after.map (·.property) := by
  rw [← map_property_ofClass, hsplit, List.map_append, List.map_cons]

theorem forall_name_ne {name : String} {ps : List OwnedProperty} (h : name ∉ names ps) :
    ∀ e ∈ ps.map (·.property), e.name ≠ name :=
  List.forall_mem_map.2 fun e he heq => h (mem_names.2 ⟨e, he, heq⟩)

/-- What is kept of the properties of several classes is the first of its name in its class. -/
theorem isFirst_of_firstEncounters {d : OwnedProperty} {cs : List ClassDecl} :
    ∀ {seen : List String}, d ∈ firstEncounters seen (cs.flatMap ofClass) →
      d.property.IsFirst d.owner.properties := by
  induction cs with
  | nil => exact fun h => nomatch h
  | cons c cs ih =>
    intro seen h
    rw [List.flatMap_cons, firstEncounters_append, List.mem_append] at h
    rcases h with h | h
    · obtain ⟨rfl, -⟩ := mem_ofClass.1 (mem_of_firstEncounters h)
      obtain ⟨before, after, hsplit, hbefore⟩ := first_of_firstEncounters h
      exact ⟨_, _, properties_of_split hsplit, forall_name_ne hbefore⟩
    · exact ih h

end OwnedProperty

namespace Context

variable {ctx : Context} {c : ClassDecl}

/-- A declared property is the last definition in the class itself, or the first one in the
interface that supplies it. -/
theorem isLast_or_isFirst {d : OwnedProperty} (h : d ∈ ctx.declaredProperties c) :
    (c.HasOwn d.property.name → d.owner = c ∧ d.property.IsLast c.properties) ∧
    (¬ c.HasOwn d.property.name →
      ctx.Supplies c d.owner d.property.name ∧ d.property.IsFirst d.owner.properties) := by
  obtain ⟨supers, -, -, hmerges⟩ := merges_declaredProperties ctx c
  constructor
  · intro hown
    have hname := mem_names_ofClass.2 hown
    obtain ⟨before, after, hsplit, hafter⟩ := hmerges.last h hname
    have hmem : d ∈ ofClass c := hsplit ▸ List.mem_append_right _ List.mem_cons_self
    exact ⟨(mem_ofClass.1 hmem).1, _, _, properties_of_split hsplit, forall_name_ne hafter⟩
  · intro hnew
    rcases hmerges.mem h with hown | ⟨hinherited, -⟩
    · exact absurd (mem_names_ofClass.1 (mem_names.2 ⟨d, hown, rfl⟩)) hnew
    · obtain ⟨hproperty, rfl | ⟨-, -, hsupplies⟩⟩ := own_or_supplies h
      · exact absurd ⟨d.property, hproperty, rfl⟩ hnew
      · exact ⟨hsupplies, isFirst_of_firstEncounters hinherited⟩

/-- A name is supplied by one interface. -/
theorem Supplies.unique {x y : ClassDecl} {name : String} (hx : ctx.Supplies c x name)
    (hy : ctx.Supplies c y name) : x = y := by
  obtain ⟨before, after, horder, hbefore⟩ := hx.first
  obtain ⟨before', after', horder', hbefore'⟩ := hy.first
  rw [horder'] at horder
  rcases List.append_eq_append_iff.1 horder with ⟨between, rfl, hrest⟩ | ⟨between, rfl, hrest⟩
  · cases between with
    | nil => exact (List.cons.inj hrest).1.symm
    | cons z between =>
      obtain rfl := (List.cons.inj hrest).1
      exact absurd hy.hasOwn (hbefore y (by simp))
  · cases between with
    | nil => exact (List.cons.inj hrest).1
    | cons z between =>
      obtain rfl := (List.cons.inj hrest).1
      exact absurd hx.hasOwn (hbefore' x (by simp))

/-- Of the properties that are built, exactly one has the name of the definition, and it is what the
definition is classified as. -/
structure MadeOf (ctx : Context) (c : ClassDecl) (properties : List Property) (d : OwnedProperty) :
    Prop where
  unique : ∃! q, q ∈ properties ∧ q.name = d.property.name
  isDeclared : ∀ q ∈ properties, q.name = d.property.name → ctx.IsDeclared c d q

/-- What is built of the declared properties is made of them. -/
theorem madeOf_of_build {p : Progress} (hp : p.cache.Sound ctx) {mark : TargetMark}
    {properties : List Property} (h : (ctx.build c mark).result p = .ok properties)
    {d : OwnedProperty} (hd : d ∈ ctx.declaredProperties c) : ctx.MadeOf c properties d := by
  obtain ⟨hnodup, declared, composed, hdeclared, -, rfl⟩ := parts_of_build hp h
  obtain ⟨q, hq, hisDeclared⟩ := exists_of_mem_forall₂ hdeclared.flip d hd
  have hmem : q ∈ declared ++ composed := List.mem_append_left _ hq
  have honly : ∀ q' ∈ declared ++ composed, q'.name = d.property.name → q' = q :=
    fun q' hq' hname => List.inj_on_of_nodup_map hnodup hq' hmem (hname.trans hisDeclared.name.symm)
  refine ⟨⟨q, ⟨hmem, hisDeclared.name⟩, fun q' hq' => honly q' hq'.1 hq'.2⟩, fun q' hq' hname => ?_⟩
  rw [honly q' hq' hname]
  exact hisDeclared

/-- **Which of several definitions counts.**  A class is built as the class that writes each of its
names once, with the last definition in the place of the first one: so it does not fail because it
repeats a name.  Of the properties that are built one has a name that the class writes, and it is
made of the last definition in the class; and one has a name that it inherits, and it is made of the
first definition in the interface that supplies it.  If a build is refused for the name of a field,
a directive has added this field. -/
theorem definitions_of_build (ctx : Context) {p : Progress} (hp : p.cache.Sound ctx)
    (c : ClassDecl) (mark : TargetMark) :
    ((c.settled.properties.map (·.name)).Nodup ∧ ctx.build c.settled mark = ctx.build c mark) ∧
    (∀ properties, (ctx.build c mark).result p = .ok properties →
      (∀ name, c.HasOwn name → ∃ d : PropertyDecl, d.name = name ∧ d.IsLast c.properties ∧
        ctx.MadeOf c properties ⟨d, c⟩) ∧
      (c.kind = .interface → ∀ name x, ¬ c.HasOwn name → ctx.Supplies c x name →
        ∃ d : PropertyDecl, d.name = name ∧ d.IsFirst x.properties ∧
          ctx.MadeOf c properties ⟨d, x⟩)) ∧
    ∀ declaration name, (ctx.build c mark).result p = .error (.duplicateField declaration name) →
      ∃ use field, mark = .template use ∧ ctx.Adds c.annotations field ∧ field.name = name := by
  refine ⟨⟨c.nodup_settled, build_settled ctx c mark⟩, fun properties h => ⟨?_, ?_⟩,
    fun declaration name h => ?_⟩
  · intro name hown
    obtain ⟨d, hd, rfl⟩ := mem_names.1 (mem_names_declaredProperties (.inl rfl) hown)
    obtain ⟨howner, hlast⟩ := (isLast_or_isFirst hd).1 hown
    have hmade := madeOf_of_build hp h hd
    obtain ⟨property, owner⟩ := d
    obtain rfl : owner = c := howner
    exact ⟨property, rfl, hlast, hmade⟩
  · intro hkind name x hnew hsupplies
    obtain ⟨d, hd, rfl⟩ := mem_names.1
      (mem_names_declaredProperties (.inr ⟨hkind, hsupplies.extends⟩) hsupplies.hasOwn)
    obtain ⟨hsupplies', hfirst⟩ := (isLast_or_isFirst hd).2 hnew
    have hmade := madeOf_of_build hp h hd
    obtain ⟨property, owner⟩ := d
    obtain rfl : owner = x := hsupplies'.unique hsupplies
    exact ⟨property, rfl, hfirst, hmade⟩
  · obtain ⟨-, use, field, hmark, hadds, hname, -⟩ := clashes_of_build hp h
    exact ⟨use, field, hmark, hadds, hname⟩

end Context

/-! ### A card

The template writes its age twice, and the interface that it extends writes its name twice. -/

namespace Sample

def captioned : ClassDecl :=
  { interfaceOf "Captioned" [] [] with
    properties :=
      [⟨"name", .named "kotlin.String", [], none⟩, ⟨"name", .named "t.Deep", [], none⟩] }

def cardTemplate : ClassDecl :=
  { templateOf "CardTemplate" "Card" [("age", .named "kotlin.Int"), ("age", .named "t.Deep")] with
    superTypes := [.named "t.Captioned"] }

def cards : Context :=
  ⟨⟨context.index.entries ++ [captioned, cardTemplate].map fun c => ⟨.ofClass c, "t.json"⟩⟩, {}⟩

def card : Target :=
  ⟨cardTemplate, .template (.mk "modelsmith.annotation.ModelTemplate" [("name", .string "Card")])⟩

theorem parents_cardTemplate : cards.parents cardTemplate = [captioned] := by
  rfl

/-- The properties of a model with their types. -/
def typedProperties (m : Model) : List (String × String) :=
  m.properties.map fun q => (q.name, (Generation.fieldType .model q.kind).display)

end Sample

theorem Context.definitions_of_build_card :
    ({} : Progress).cache.Sound Sample.cards ∧
    ∃ properties, (Sample.cards.build Sample.cardTemplate Sample.card.mark).result {} =
        .ok properties ∧
      Sample.cardTemplate.HasOwn "age" ∧ ∃ d : PropertyDecl, d.name = "age" ∧
        d.IsLast Sample.cardTemplate.properties ∧
        Sample.cards.MadeOf Sample.cardTemplate properties ⟨d, Sample.cardTemplate⟩ := by
  have hsound := Analysis.sound_start Sample.cards
  have hnames : ((Sample.cards.build Sample.cardTemplate Sample.card.mark).result {}).map
      (·.map (·.name)) = .ok ["name", "age"] := by
    decide +kernel
  obtain ⟨properties, h, -⟩ := Json.map_eq_ok_iff.1 hnames
  have hown : Sample.cardTemplate.HasOwn "age" := ⟨_, List.mem_cons_self, rfl⟩
  obtain ⟨-, hbuilt, -⟩ :=
    Context.definitions_of_build Sample.cards hsound Sample.cardTemplate Sample.card.mark
  exact ⟨hsound, properties, h, hown, (hbuilt properties h).1 "age" hown⟩

/-- The template repeats a name, and so does an interface that it extends; it is accepted, and of
the definitions of the age the last is taken, of those of the name the first. -/
theorem Context.repetition_accepted :
    Sample.cardTemplate.properties.map (·.name) = ["age", "age"] ∧
    Sample.captioned.properties.map (·.name) = ["name", "name"] ∧
    Sample.cards.Extends Sample.cardTemplate Sample.captioned ∧
    ∃ m, Sample.cards.modelAlone Sample.card = .ok m ∧
      Sample.typedProperties m = [("name", "kotlin.String"), ("age", "t.Deep")] := by
  have htyped : (Sample.cards.modelAlone Sample.card).map Sample.typedProperties =
      .ok [("name", "kotlin.String"), ("age", "t.Deep")] := by
    decide +kernel
  have hextends : Sample.cards.Extends Sample.cardTemplate Sample.captioned :=
    extends_of_mem_parents (by simp [Sample.parents_cardTemplate])
  exact ⟨rfl, rfl, hextends, Json.map_eq_ok_iff.1 htyped⟩

end ModelForge
