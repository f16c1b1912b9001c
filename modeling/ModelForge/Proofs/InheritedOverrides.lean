/-
Whose definition of a property is inherited.

Several interfaces may declare a property of one name, and one that extends another overrides
what the other declares.  A class's own properties take the place of what they override.  Among
the interfaces that it extends the first one of a visit counts, and a visit finishes an interface
after those that it extends itself:

* `Context.Extends` — an interface is reached through the supertypes of a class, and
  `Context.Acyclic` — no class reaches itself;
* `Context.Visits.pairwise` — without cycles, what has been finished extends nothing that is
  finished later;
* `Context.Supplies` — the interface that a class has a property from, which is the first one
  that declares it, so that none that it extends declares it.

The main statement is `Context.supplies_of_build`.  So an override counts in the class itself
only: `Context.override_lost` is a template for which the override in an intermediate interface
is passed over.
-/
import ModelForge.Proofs.Decoding
import ModelForge.Proofs.PropertyOrder

namespace ModelForge

/-! ### The order of a visit -/

namespace Context

variable {ctx : Context} {c x y z : ClassDecl}

/-- An interface is one that a class lists as supertype, or one that such an interface extends. -/
def Extends (ctx : Context) (child ancestor : ClassDecl) : Prop :=
  Relation.TransGen (fun child parent => parent ∈ ctx.parents child) child ancestor

/-- No class extends itself. -/
def Acyclic (ctx : Context) : Prop :=
  ∀ c, ¬ ctx.Extends c c

theorem extends_of_mem_parents (h : y ∈ ctx.parents x) : ctx.Extends x y :=
  .single h

theorem Extends.trans (h : ctx.Extends x y) (h' : ctx.Extends y z) : ctx.Extends x z :=
  Relation.TransGen.trans h h'

/-- The way up starts with a parent. -/
theorem Extends.parent (h : ctx.Extends x y) :
    ∃ parent ∈ ctx.parents x, y = parent ∨ ctx.Extends parent y := by
  obtain ⟨parent, hparent, hy⟩ := Relation.TransGen.head'_iff.1 h
  exact ⟨parent, hparent, Relation.reflTransGen_iff_eq_or_transGen.1 hy⟩

/-- Whatever is extended is a declared class. -/
theorem Extends.class? (h : ctx.Extends x y) : ctx.index.class? y.qualifiedName = some y := by
  cases h with
  | single hparent | tail _ hparent => exact class?_of_mem_parents hparent

/-- A class that extends itself is declared, so that it is enough to look at the declared
classes. -/
theorem acyclic_of_classes
    (h : ∀ c ∈ ctx.index.classes, c.qualifiedName ∉
      (ctx.superInterfaces c).map (·.qualifiedName)) : ctx.Acyclic := by
  intro c hcycle
  refine h c (DeclarationIndex.mem_classes_of_class? hcycle.class?).1 ?_
  exact List.mem_map_of_mem (mem_superInterfaces_iff.2 hcycle)

/-- The declared class of a name is the only one. -/
theorem eq_of_class? (hx : ctx.index.class? x.qualifiedName = some x)
    (hy : ctx.index.class? y.qualifiedName = some y) (h : x.qualifiedName = y.qualifiedName) :
    x = y := by
  rw [h, hy] at hx
  exact (Option.some.inj hx).symm

/-- A class that has been entered in the end was entered before or is finished. -/
theorem Visits.mem_of_last {entered last : List String} {parents order : List ClassDecl}
    (h : ctx.Visits entered parents order last)
    (hparents : ∀ parent ∈ parents, ctx.index.class? parent.qualifiedName = some parent)
    (hz : ctx.index.class? z.qualifiedName = some z) (hlast : z.qualifiedName ∈ last) :
    z.qualifiedName ∈ entered ∨ z ∈ order := by
  refine ((h.mem_last_iff _).1 hlast).imp_right fun hmem => ?_
  obtain ⟨z', hz', hname⟩ := List.mem_map.1 hmem
  have hclass := h.forall_mem hparents (fun _ _ _ => class?_of_mem_parents) z' hz'
  rwa [← eq_of_class? hclass hz hname]

/-- A class is open, and then it extends all that is still to be visited, or it is done, and then
all that it extends has been entered. -/
def OpenOrDone (ctx : Context) (entered : List String) (parents : List ClassDecl)
    (z : ClassDecl) : Prop :=
  (∀ parent ∈ parents, ctx.Extends z parent) ∨ ∀ y, ctx.Extends z y → y.qualifiedName ∈ entered

/-- An interface that is entered is done when its own parents have been visited: what it extends
is not open, for then it would extend itself. -/
theorem Visits.done_of_enter (hacyclic : ctx.Acyclic) {entered middle : List String}
    {parent : ClassDecl} {parents inner : List ClassDecl}
    (hparent : ctx.index.class? parent.qualifiedName = some parent)
    (h : ctx.Visits (parent.qualifiedName :: entered) (ctx.parents parent) inner middle)
    (hentered : ∀ z, ctx.index.class? z.qualifiedName = some z → z.qualifiedName ∈ entered →
      ctx.OpenOrDone entered (parent :: parents) z)
    (hinner : ∀ x ∈ inner, ∀ y, ctx.Extends x y → y.qualifiedName ∈ middle) :
    ∀ y, ctx.Extends parent y → y.qualifiedName ∈ middle := by
  intro y hy
  obtain ⟨q, hq, rfl | hstep⟩ := hy.parent
  · exact h.closed.1 y hq
  · have hclass := class?_of_mem_parents hq
    have hcycle : ¬ ctx.Extends q parent := fun hopen =>
      hacyclic q (hopen.trans (extends_of_mem_parents hq))
    rcases h.mem_of_last (fun _ => class?_of_mem_parents) hclass (h.closed.1 q hq) with hmem | hmem
    · rcases List.mem_cons.1 hmem with heq | hmem
      · obtain rfl := eq_of_class? hclass hparent heq
        exact absurd (extends_of_mem_parents hq) hcycle
      · rcases hentered q hclass hmem with hopen | hdone
        · exact absurd (hopen parent List.mem_cons_self) hcycle
        · exact (h.mem_last_iff _).2 (.inl (List.mem_cons_of_mem _ (hdone y hstep)))
    · exact hinner q hmem y hstep

/-- Without cycles, what a visit finishes extends only what has been entered, and nothing that is
finished later. -/
theorem Visits.pairwise (hacyclic : ctx.Acyclic) {entered last : List String}
    {parents order : List ClassDecl} (h : ctx.Visits entered parents order last)
    (hparents : ∀ parent ∈ parents, ctx.index.class? parent.qualifiedName = some parent)
    (hentered : ∀ z, ctx.index.class? z.qualifiedName = some z → z.qualifiedName ∈ entered →
      ctx.OpenOrDone entered parents z) :
    (∀ x ∈ order, ∀ y, ctx.Extends x y → y.qualifiedName ∈ last) ∧
      order.Pairwise fun x y => ¬ ctx.Extends x y := by
  induction h with
  | nil => exact ⟨nofun, .nil⟩
  | seen hseen _ ih =>
    refine ih (fun p hp => hparents p (List.mem_cons_of_mem _ hp)) fun z hz hmem => ?_
    exact (hentered z hz hmem).imp_left fun hopen p hp => hopen p (List.mem_cons_of_mem _ hp)
  | @enter entered middle last parent parents inner order hnew hinner hrest ihInner ihRest =>
    obtain ⟨hparent, hothers⟩ := List.forall_mem_cons.1 hparents
    -- on the way through its own parents, the parent is one of those that are open
    obtain ⟨hinnerDone, hinnerOrder⟩ := ihInner (fun _ => class?_of_mem_parents) fun z hz hmem => by
      rcases List.mem_cons.1 hmem with heq | hmem
      · obtain rfl := eq_of_class? hz hparent heq
        exact .inl fun _ => extends_of_mem_parents
      · refine (hentered z hz hmem).imp (fun hopen p hp => ?_) fun hdone y hy => ?_
        · exact (hopen parent List.mem_cons_self).trans (extends_of_mem_parents hp)
        · exact List.mem_cons_of_mem _ (hdone y hy)
    have hparentDone := hinner.done_of_enter hacyclic hparent hentered hinnerDone
    -- afterwards it is done
    obtain ⟨hrestDone, hrestOrder⟩ := ihRest hothers fun z hz hmem => by
      rcases hinner.mem_of_last (fun _ => class?_of_mem_parents) hz hmem with hmem | hmem
      · rcases List.mem_cons.1 hmem with heq | hmem
        · obtain rfl := eq_of_class? hz hparent heq
          exact .inr hparentDone
        · refine (hentered z hz hmem).imp (fun hopen p hp => ?_) fun hdone y hy => ?_
          · exact hopen p (List.mem_cons_of_mem _ hp)
          · exact (hinner.mem_last_iff _).2 (.inl (List.mem_cons_of_mem _ (hdone y hy)))
      · exact .inr (hinnerDone z hmem)
    have hkept : ∀ name ∈ middle, name ∈ last := fun name hname =>
      (hrest.mem_last_iff name).2 (.inl hname)
    have hlater : ∀ y ∈ order, y.qualifiedName ∉ middle := hrest.nodup.2
    have hbases : ∀ z ∈ inner, ctx.Extends parent z :=
      hinner.forall_mem (fun _ => extends_of_mem_parents)
        fun _ hz _ hp => hz.trans (extends_of_mem_parents hp)
    refine ⟨fun x hx y hy => ?_, ?_⟩
    · rcases List.mem_append.1 hx with hx | hx
      · exact hkept _ (hinnerDone x hx y hy)
      · rcases List.mem_cons.1 hx with rfl | hx
        · exact hkept _ (hparentDone y hy)
        · exact hrestDone x hx y hy
    · refine List.pairwise_append.2 ⟨hinnerOrder, List.pairwise_cons.2 ⟨?_, hrestOrder⟩, ?_⟩
      · exact fun y hy hextends => hlater y hy (hparentDone y hextends)
      · intro x hx y hy hextends
        rcases List.mem_cons.1 hy with rfl | hy
        · exact hacyclic _ ((hbases x hx).trans hextends)
        · exact hlater y hy (hinnerDone x hx y hextends)

/-- Without cycles, every super-interface comes after those that it extends. -/
theorem superInterfaces_pairwise (hacyclic : ctx.Acyclic) (c : ClassDecl) :
    (ctx.superInterfaces c).Pairwise fun x y => ¬ ctx.Extends x y := by
  obtain ⟨_, hvisits⟩ := visits_superInterfaces ctx c
  exact (hvisits.pairwise hacyclic (fun _ => class?_of_mem_parents) nofun).2

end Context

/-! ### The first of a name -/

/-- A class writes a property of this name itself. -/
def ClassDecl.HasOwn (c : ClassDecl) (name : String) : Prop :=
  ∃ p ∈ c.properties, p.name = name

namespace OwnedProperty

theorem mem_ofClass {d : OwnedProperty} {c : ClassDecl} :
    d ∈ ofClass c ↔ d.owner = c ∧ d.property ∈ c.properties := by
  constructor
  · intro h
    obtain ⟨property, hproperty, rfl⟩ := List.mem_map.1 h
    exact ⟨rfl, hproperty⟩
  · rintro ⟨rfl, hproperty⟩
    exact List.mem_map.2 ⟨d.property, hproperty, rfl⟩

theorem mem_names_ofClass {c : ClassDecl} {name : String} :
    name ∈ names (ofClass c) ↔ c.HasOwn name := by
  simp [names, ofClass, ClassDecl.HasOwn]

theorem firstEncounters_append (ps qs : List OwnedProperty) : ∀ seen : List String,
    firstEncounters seen (ps ++ qs) =
      firstEncounters seen ps ++ firstEncounters (names ps ++ seen) qs := by
  induction ps with
  | nil => exact fun _ => rfl
  | cons p ps ih =>
    intro seen
    rw [List.cons_append, firstEncounters, firstEncounters, names_cons]
    by_cases hseen : p.property.name ∈ seen
    · rw [if_pos hseen, if_pos hseen, ih]
      congr 1
      refine firstEncounters_congr (fun name => ?_) qs
      simp only [List.cons_append, List.mem_cons, List.mem_append]
      grind
    · rw [if_neg hseen, if_neg hseen, ih, List.cons_append]
      congr 2
      refine firstEncounters_congr (fun name => ?_) qs
      simp only [List.cons_append, List.mem_cons, List.mem_append]
      grind

theorem names_firstEncounters {name : String} {ps : List OwnedProperty} : ∀ {seen : List String},
    name ∈ names ps → name ∉ seen → name ∈ names (firstEncounters seen ps) := by
  induction ps with
  | nil => exact fun h _ => h
  | cons p ps ih =>
    intro seen hname hnew
    rw [firstEncounters]
    by_cases hp : name = p.property.name
    · subst hp
      rw [if_neg hnew]
      exact List.mem_cons_self
    · have hrest : name ∈ names ps := List.mem_of_ne_of_mem hp hname
      split
      · exact ih hrest hnew
      · refine List.mem_cons_of_mem _ (ih hrest fun hmem => ?_)
        exact (List.mem_cons.1 hmem).elim hp hnew

theorem mem_of_firstEncounters {d : OwnedProperty} {ps : List OwnedProperty} :
    ∀ {seen : List String}, d ∈ firstEncounters seen ps → d ∈ ps := by
  induction ps with
  | nil => exact fun h => h
  | cons p ps ih =>
    intro seen h
    rw [firstEncounters] at h
    split at h
    · exact List.mem_cons_of_mem _ (ih h)
    · rcases List.mem_cons.1 h with rfl | h
      · exact List.mem_cons_self
      · exact List.mem_cons_of_mem _ (ih h)

/-- Of the properties of several classes, the first of a name is written in the first class that
has one of this name. -/
theorem split_of_firstEncounters {d : OwnedProperty} {cs : List ClassDecl} :
    ∀ {seen : List String}, d ∈ firstEncounters seen (cs.flatMap ofClass) →
      d.property ∈ d.owner.properties ∧ ∃ before after, cs = before ++ d.owner :: after ∧
        ∀ x ∈ before, ¬ x.HasOwn d.property.name := by
  induction cs with
  | nil => exact fun h => nomatch h
  | cons c cs ih =>
    intro seen h
    rw [List.flatMap_cons, firstEncounters_append, List.mem_append] at h
    rcases h with h | h
    · obtain ⟨rfl, hproperty⟩ := mem_ofClass.1 (mem_of_firstEncounters h)
      exact ⟨hproperty, [], cs, rfl, nofun⟩
    · have hnew := (nodup_firstEncounters _ _).2 _ (mem_names.2 ⟨d, h, rfl⟩)
      have hc : ¬ c.HasOwn d.property.name := fun hown =>
        hnew (List.mem_append_left _ (mem_names_ofClass.2 hown))
      obtain ⟨hproperty, before, after, rfl, hbefore⟩ := ih h
      exact ⟨hproperty, c :: before, after, rfl, List.forall_mem_cons.2 ⟨hc, hbefore⟩⟩

/-- A property that is put into a list takes the place of one of its name, and only of that. -/
theorem Places.mem {p d : OwnedProperty} {ps qs : List OwnedProperty} (h : Places p ps qs)
    (hd : d ∈ qs) : d = p ∨ d ∈ ps ∧ d.property.name ≠ p.property.name := by
  have hne : ∀ {ds : List OwnedProperty}, p.property.name ∉ names ds → d ∈ ds →
      d.property.name ≠ p.property.name := fun hnew hd heq => hnew (heq ▸ mem_names.2 ⟨d, hd, rfl⟩)
  cases h with
  | replace _ hbefore hafter =>
    rcases List.mem_append.1 hd with hd | hd
    · exact .inr ⟨List.mem_append_left _ hd, hne hbefore hd⟩
    · rcases List.mem_cons.1 hd with rfl | hd
      · exact .inl rfl
      · exact .inr ⟨List.mem_append_right _ (List.mem_cons_of_mem _ hd), hne hafter hd⟩
  | append hnew =>
    rcases List.mem_append.1 hd with hd | hd
    · exact .inr ⟨hd, hne hnew hd⟩
    · exact .inl (List.mem_singleton.1 hd)

theorem Places.names_subset {p : OwnedProperty} {ps qs : List OwnedProperty}
    (h : Places p ps qs) : p.property.name ∈ names qs ∧ names ps ⊆ names qs := by
  cases h with
  | replace hname => simp [names, hname]
  | append => simp [names]

/-- What is merged into a list overrides what has its name. -/
theorem Merges.mem {d : OwnedProperty} {ps own last : List OwnedProperty}
    (h : Merges ps own last) (hd : d ∈ last) :
    d ∈ own ∨ d ∈ ps ∧ d.property.name ∉ names own := by
  induction h with
  | nil => exact .inr ⟨hd, List.not_mem_nil⟩
  | cons hp _ ih =>
    rcases ih hd with hown | ⟨hmiddle, hnew⟩
    · exact .inl (List.mem_cons_of_mem _ hown)
    · rcases hp.mem hmiddle with rfl | ⟨hps, hne⟩
      · exact .inl List.mem_cons_self
      · refine .inr ⟨hps, ?_⟩
        rw [names_cons, List.mem_cons, not_or]
        exact ⟨hne, hnew⟩

/-- No name is lost where properties are merged. -/
theorem Merges.names_subset {ps own last : List OwnedProperty} (h : Merges ps own last) :
    names ps ⊆ names last ∧ names own ⊆ names last := by
  induction h with
  | nil => exact ⟨List.Subset.refl _, List.nil_subset _⟩
  | cons hp _ ih =>
    obtain ⟨hmiddle, hown⟩ := ih
    obtain ⟨hname, hps⟩ := hp.names_subset
    exact ⟨fun name h => hmiddle (hps h), List.cons_subset.2 ⟨hmiddle hname, hown⟩⟩

end OwnedProperty

/-! ### The interface that supplies a property -/

namespace Context

open OwnedProperty

variable {ctx : Context} {c : ClassDecl}

/-- The interface that a class inherits the property of a name from: the first super-interface of a
visit that writes a property of this name. -/
structure Supplies (ctx : Context) (c owner : ClassDecl) (name : String) : Prop where
  hasOwn : owner.HasOwn name
  first : ∃ before after, ctx.superInterfaces c = before ++ owner :: after ∧
    ∀ x ∈ before, ¬ x.HasOwn name

theorem Supplies.extends {owner : ClassDecl} {name : String} (h : ctx.Supplies c owner name) :
    ctx.Extends c owner := by
  obtain ⟨before, after, horder, -⟩ := h.first
  refine mem_superInterfaces_iff.1 ?_
  rw [horder]
  exact List.mem_append_right _ List.mem_cons_self

/-- Without cycles, what the supplying interface overrides is not there: all that it extends comes
before it. -/
theorem Supplies.not_hasOwn_of_extends {owner base : ClassDecl} {name : String}
    (h : ctx.Supplies c owner name) (hacyclic : ctx.Acyclic) (hbase : ctx.Extends owner base) :
    ¬ base.HasOwn name := by
  obtain ⟨before, after, horder, hfirst⟩ := h.first
  have hmem := mem_superInterfaces_iff.2 (h.extends.trans hbase)
  have hpairwise := superInterfaces_pairwise hacyclic c
  rw [horder] at hmem hpairwise
  rcases List.mem_append.1 hmem with hmem | hmem
  · exact hfirst base hmem
  · rcases List.mem_cons.1 hmem with rfl | hmem
    · exact absurd hbase (hacyclic base)
    · have hlater := (List.pairwise_append.1 hpairwise).2.1
      exact absurd hbase (List.rel_of_pairwise_cons hlater hmem)

/-- The declared properties are the first ones of the super-interfaces, overridden by the class's
own; only an interface has super-interfaces. -/
theorem merges_declaredProperties (ctx : Context) (c : ClassDecl) :
    ∃ supers, (c.kind = .interface → supers = ctx.superInterfaces c) ∧
      (c.kind ≠ .interface → supers = []) ∧
      Merges (firstEncounters [] (supers.flatMap ofClass)) (ofClass c)
        (ctx.declaredProperties c) := by
  obtain ⟨supers, hinterface, hother, hmerges⟩ := (listsDeclared ctx c).inherits
  refine ⟨supers, fun hkind => ?_, hother, hmerges⟩
  obtain ⟨_, hvisits⟩ := hinterface hkind
  obtain ⟨_, hvisits'⟩ := visits_superInterfaces ctx c
  exact (hvisits.unique hvisits').1

/-- A declared property is the class's own, or the class does not write one of its name and an
interface supplies it. -/
theorem own_or_supplies {d : OwnedProperty} (h : d ∈ ctx.declaredProperties c) :
    d.property ∈ d.owner.properties ∧ (d.owner = c ∨ c.kind = .interface ∧
      ¬ c.HasOwn d.property.name ∧ ctx.Supplies c d.owner d.property.name) := by
  obtain ⟨supers, hinterface, hother, hmerges⟩ := merges_declaredProperties ctx c
  rcases hmerges.mem h with hown | ⟨hinherited, hnew⟩
  · obtain ⟨rfl, hproperty⟩ := mem_ofClass.1 hown
    exact ⟨hproperty, .inl rfl⟩
  · obtain ⟨hproperty, before, after, hsupers, hbefore⟩ := split_of_firstEncounters hinherited
    have hkind : c.kind = .interface := by
      by_contra hkind
      rw [hother hkind] at hsupers
      simp at hsupers
    rw [hinterface hkind] at hsupers
    exact ⟨hproperty, .inr ⟨hkind, mt mem_names_ofClass.2 hnew,
      ⟨d.property, hproperty, rfl⟩, before, after, hsupers, hbefore⟩⟩

/-- No name that the class or one of its super-interfaces writes is lost. -/
theorem mem_names_declaredProperties {x : ClassDecl} {name : String}
    (hx : x = c ∨ c.kind = .interface ∧ ctx.Extends c x) (hname : x.HasOwn name) :
    name ∈ names (ctx.declaredProperties c) := by
  obtain ⟨supers, hinterface, -, hmerges⟩ := merges_declaredProperties ctx c
  obtain ⟨hinherited, hown⟩ := hmerges.names_subset
  rcases hx with rfl | ⟨hkind, hextends⟩
  · exact hown (mem_names_ofClass.2 hname)
  · refine hinherited (names_firstEncounters ?_ List.not_mem_nil)
    obtain ⟨p, hp, rfl⟩ := hname
    rw [hinterface hkind]
    exact mem_names.2 ⟨⟨p, x⟩,
      List.mem_flatMap.2 ⟨x, mem_superInterfaces_iff.2 hextends, mem_ofClass.2 ⟨rfl, hp⟩⟩, rfl⟩

/-- **The least derived definition is inherited.**  In a hierarchy without cycles, every property
that is built for a target is composed, or it is written in the target, or the target does not
write one of its name and it is the one that a super-interface writes: of the interfaces that write
one the first of a visit, and none that this interface extends writes one.  So an interface that
overrides a property of another one never supplies it.  No name is lost. -/
theorem supplies_of_build (hacyclic : ctx.Acyclic) {p : Progress} (hp : p.cache.Sound ctx)
    {mark : TargetMark} {properties : List Property}
    (h : (ctx.build c mark).result p = .ok properties) :
    (∀ q ∈ properties, (∃ root, q.origin = .composed root) ∨ ∃ d : OwnedProperty,
      d.property ∈ d.owner.properties ∧ ctx.IsDeclared c d q ∧
        (d.owner = c ∨ ¬ c.HasOwn q.name ∧ ctx.Supplies c d.owner q.name ∧
          ∀ base, ctx.Extends d.owner base → ¬ base.HasOwn q.name)) ∧
    ∀ x, x = c ∨ c.kind = .interface ∧ ctx.Extends c x →
      ∀ name, x.HasOwn name → ∃ q ∈ properties, q.name = name := by
  obtain ⟨-, declared, composed, hdeclared, hcomposed, rfl⟩ := parts_of_build hp h
  refine ⟨fun q hq => ?_, fun x hx name hname => ?_⟩
  · rcases List.mem_append.1 hq with hq | hq
    · obtain ⟨d, hd, hisDeclared⟩ := exists_of_mem_forall₂ hdeclared q hq
      obtain ⟨hproperty, hown | ⟨-, hnew, hsupplies⟩⟩ := own_or_supplies hd
      · exact .inr ⟨d, hproperty, hisDeclared, .inl hown⟩
      · rw [← hisDeclared.name] at hnew hsupplies
        exact .inr ⟨d, hproperty, hisDeclared, .inr ⟨hnew, hsupplies, fun _ hbase =>
          hsupplies.not_hasOwn_of_extends hacyclic hbase⟩⟩
    · cases hcomposed with
      | validatable => cases hq
      | template _ hcomposed =>
        obtain ⟨f, -, hisComposed⟩ := exists_of_mem_forall₂ hcomposed q hq
        exact .inl ⟨f.root, hisComposed.origin⟩
  · have hmem := mem_names_declaredProperties hx hname
    rw [← names_of_forall₂ hdeclared] at hmem
    obtain ⟨q, hq, rfl⟩ := List.mem_map.1 hmem
    exact ⟨q, List.mem_append_left _ hq, rfl⟩

end Context

/-! ### A title that is passed over

`Titled` extends `Named` and gives its property another type; the template extends `Titled`. -/

namespace Sample

def named : ClassDecl :=
  interfaceOf "Named" [] ["name"]

def titled : ClassDecl :=
  { interfaceOf "Titled" ["t.Named"] [] with
    properties := [⟨"name", .named "kotlin.String", [], none⟩] }

def personTemplate : ClassDecl :=
  { templateOf "PersonTemplate" "Person" [("age", .named "kotlin.Int")] with
    superTypes := [.named "t.Titled"] }

def titles : Context :=
  ⟨⟨[named, titled, personTemplate].map fun c => ⟨.ofClass c, "t.json"⟩⟩, {}⟩

theorem acyclic_titles : titles.Acyclic :=
  Context.acyclic_of_classes (by decide +kernel)

theorem parents_personTemplate : titles.parents personTemplate = [titled] := by
  rfl

theorem parents_titled : titles.parents titled = [named] := by
  rfl

theorem built_titles :
    ∃ properties, (titles.buildTemplate personTemplate).result {} = .ok properties ∧
      properties.map (fun q => (q.name, q.origin)) =
        [("name", .inherited "t.Named"), ("age", .declared)] := by
  have horigins : ((titles.buildTemplate personTemplate).result {}).map
      (·.map fun q => (q.name, q.origin)) =
        .ok [("name", .inherited "t.Named"), ("age", .declared)] := by
    decide +kernel
  exact Json.map_eq_ok_iff.1 horigins

end Sample

theorem Context.supplies_of_build_titles :
    Sample.titles.Acyclic ∧ ({} : Progress).cache.Sound Sample.titles ∧
    ∀ use, ∃ properties, (Sample.titles.build Sample.personTemplate (.template use)).result {} =
        .ok properties ∧
      ∀ q ∈ properties, (∃ root, q.origin = .composed root) ∨ ∃ d : OwnedProperty,
        d.property ∈ d.owner.properties ∧ Sample.titles.IsDeclared Sample.personTemplate d q ∧
          (d.owner = Sample.personTemplate ∨ ¬ Sample.personTemplate.HasOwn q.name ∧
            Sample.titles.Supplies Sample.personTemplate d.owner q.name ∧
            ∀ base, Sample.titles.Extends d.owner base → ¬ base.HasOwn q.name) := by
  have hsound := Analysis.sound_start Sample.titles
  refine ⟨Sample.acyclic_titles, hsound, fun use => ?_⟩
  obtain ⟨properties, h, -⟩ := Sample.built_titles
  have hbuild : (Sample.titles.build Sample.personTemplate (.template use)).result {} =
      .ok properties := h
  exact ⟨properties, hbuild, (Context.supplies_of_build Sample.acyclic_titles hsound hbuild).1⟩

/-- The definition that is inherited is not the most derived one. -/
theorem Context.override_lost :
    Sample.titles.Acyclic ∧ ¬ Sample.personTemplate.HasOwn "name" ∧
    Sample.titles.Extends Sample.personTemplate Sample.titled ∧
    Sample.titles.Extends Sample.titled Sample.named ∧ Sample.titled.HasOwn "name" ∧
    ∀ use, ∃ properties, (Sample.titles.build Sample.personTemplate (.template use)).result {} =
        .ok properties ∧
      ∃ q ∈ properties, q.name = "name" ∧ q.origin = .inherited Sample.named.qualifiedName := by
  have hnew : ¬ Sample.personTemplate.HasOwn "name" := by
    simp [ClassDecl.HasOwn, Sample.personTemplate, Sample.templateOf]
  have htemplate : Sample.titles.Extends Sample.personTemplate Sample.titled :=
    extends_of_mem_parents (by simp [Sample.parents_personTemplate])
  have htitled : Sample.titles.Extends Sample.titled Sample.named :=
    extends_of_mem_parents (by simp [Sample.parents_titled])
  refine ⟨Sample.acyclic_titles, hnew, htemplate, htitled, ⟨_, List.mem_singleton_self _, rfl⟩,
    fun use => ?_⟩
  obtain ⟨properties, h, horigins⟩ := Sample.built_titles
  have hmem : ("name", PropertyOrigin.inherited "t.Named") ∈
      properties.map fun q => (q.name, q.origin) := by
    rw [horigins]
    exact List.mem_cons_self
  obtain ⟨q, hq, heq⟩ := List.mem_map.1 hmem
  exact ⟨properties, h, q, hq, congrArg Prod.fst heq, congrArg Prod.snd heq⟩

end ModelForge
