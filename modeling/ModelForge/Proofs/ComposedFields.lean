/-
The fields that annotations add.

`Context.expandComposition` gives a declaration the fields of the directives that its
annotations reach.  What it gives is said here by reachability alone:

* `Context.Adds` — a reachable directive is for the field;
* `Context.FirstMetAt` — the first position, depth first, at which a directive for the field is
  met;
* `Context.Expansion` — each added field once, in the order of first positions, and each
  with the first annotation that adds it;
* `Context.Reorders` — the annotations of the classes in another order.

The main statement is `Context.expandComposition_eq_ok`.
-/
import Mathlib.Data.List.Forall2
import Mathlib.Data.List.Nodup
import ModelForge.Proofs.AnnotationWalk

namespace ModelForge

namespace Composition

/-! ### Reading the directives -/

/-- The field of an event, if it is a directive that can be read. -/
def readField (root : String) : CompositionEvent → Option ComposedField
  | .directive a =>
    match FieldDirective.decode a with
    | .ok field => some ⟨field, root⟩
    | .error _ => none
  | .cycle .. => none

theorem readField_eq_some_iff {root : String} {event : CompositionEvent} {f : ComposedField} :
    readField root event = some f ↔
      ∃ a, event = .directive a ∧ FieldDirective.decode a = .ok f.field ∧ f.root = root := by
  constructor
  · intro h
    cases event with
    | directive a =>
      cases hdecode : FieldDirective.decode a with
      | ok field =>
        rw [readField, hdecode] at h
        obtain rfl := Option.some.inj h
        exact ⟨a, rfl, hdecode, rfl⟩
      | error p =>
        rw [readField, hdecode] at h
        cases h
    | cycle => cases h
  · rintro ⟨a, rfl, hdecode, rfl⟩
    rw [readField, hdecode]

theorem readField_of_decode (root : String) {a : Annotation} {field : FieldDirective}
    (h : FieldDirective.decode a = .ok field) :
    readField root (.directive a) = some ⟨field, root⟩ :=
  readField_eq_some_iff.2 ⟨a, rfl, h, rfl⟩

/-- Fields are read from events if and only if every directive among them can be read. -/
theorem readFields_eq_ok_iff (events : List (String × CompositionEvent))
    (fields : List ComposedField) :
    readFields events = .ok fields ↔
      (∀ root a, (root, .directive a) ∈ events → ∃ field, FieldDirective.decode a = .ok field) ∧
        fields = events.filterMap fun e => readField e.1 e.2 := by
  induction events generalizing fields with
  | nil =>
    rw [readFields, List.filterMap_nil, Except.ok.injEq]
    exact ⟨fun h => ⟨nofun, h.symm⟩, fun h => h.2.symm⟩
  | cons e events ih =>
    obtain ⟨root, event⟩ := e
    cases event with
    | cycle repeated path =>
      rw [readFields, ih fields]
      simp [readField]
    | directive a =>
      cases hdecode : FieldDirective.decode a with
      | error p =>
        rw [readFields, hdecode]
        constructor
        · intro h
          cases h
        · rintro ⟨h, -⟩
          obtain ⟨field, hfield⟩ := h root a List.mem_cons_self
          rw [hdecode] at hfield
          cases hfield
      | ok field =>
        have hfields : ((root, CompositionEvent.directive a) :: events).filterMap
            (fun e => readField e.1 e.2) =
              ⟨field, root⟩ :: events.filterMap (fun e => readField e.1 e.2) :=
          List.filterMap_cons_some (readField_of_decode root hdecode)
        have hdecodes : (∀ root' a', (root', .directive a') ∈ (root, .directive a) :: events →
            ∃ field, FieldDirective.decode a' = .ok field) ↔
              ∀ root' a', (root', .directive a') ∈ events →
                ∃ field, FieldDirective.decode a' = .ok field := by
          refine ⟨fun h root' a' hmem => h root' a' (List.mem_cons_of_mem _ hmem), ?_⟩
          intro h root' a' hmem
          rcases List.mem_cons.1 hmem with heq | hmem
          · cases heq
            exact ⟨field, hdecode⟩
          · exact h root' a' hmem
        rw [readFields, hdecode, hfields, hdecodes]
        cases hlater : readFields events with
        | error p =>
          constructor
          · intro h
            cases h
          · rintro ⟨h, -⟩
            rw [(ih _).2 ⟨h, rfl⟩] at hlater
            cases hlater
        | ok later =>
          obtain ⟨h, rfl⟩ := (ih later).1 hlater
          exact ⟨fun heq => ⟨h, (Except.ok.inj heq).symm⟩, fun heq => congrArg _ heq.2.symm⟩

/-! ### Leaving out repeated fields -/

/-- What is kept of a list of fields, each with its position, when others have been kept
before. -/
structure Keeps (kept : List ComposedField) (placed new : List (List Nat × ComposedField)) :
    Prop where
  /-- nothing is reordered -/
  sublist : new.Sublist placed
  /-- the names of all that is kept are different -/
  nodup : ((kept ++ new.map Prod.snd).map (·.field.name)).Nodup
  /-- what is left out has been kept before, or it is kept at a position that is no later -/
  covered : ∀ x ∈ placed, (∃ k ∈ kept, k.field = x.2.field) ∨
    ∃ y ∈ new, y.2.field = x.2.field ∧ ¬ Before x.1 y.1

variable {declaration : String} {kept fields : List ComposedField} {f : ComposedField}

theorem merge_cons_new (h : f.field.name ∉ kept.map (·.field.name)) :
    merge declaration kept (f :: fields) = merge declaration (kept ++ [f]) fields := by
  have hfind : (kept.find? fun k => k.field.name == f.field.name) = none := by
    refine List.find?_eq_none.2 fun k hk heq => h ?_
    rw [← eq_of_beq heq]
    exact List.mem_map_of_mem hk
  rw [merge, hfind]

theorem nodup_names_append (hkept : (kept.map (·.field.name)).Nodup)
    (h : f.field.name ∉ kept.map (·.field.name)) :
    ((kept ++ [f]).map (·.field.name)).Nodup := by
  rw [List.map_append, List.map_singleton]
  refine hkept.append (List.nodup_singleton _) fun name hname hf => h ?_
  rwa [← List.mem_singleton.1 hf]

theorem merge_cons_of_mem {k : ComposedField} (hk : k ∈ kept)
    (hname : k.field.name = f.field.name) (hkept : (kept.map (·.field.name)).Nodup) :
    merge declaration kept (f :: fields) =
      if k.field = f.field then merge declaration kept fields
      else .error (.duplicateField declaration f.field.name) := by
  have hfind : (kept.find? fun k => k.field.name == f.field.name) = some k := by
    cases hfound : kept.find? fun k => k.field.name == f.field.name with
    | none =>
      have hne := List.find?_eq_none.1 hfound k hk
      exact absurd (beq_iff_eq.2 hname) hne
    | some k' =>
      have hname' : k'.field.name = f.field.name := by simpa using List.find?_some hfound
      have hk' := List.mem_of_find?_eq_some hfound
      exact congrArg some (List.inj_on_of_nodup_map hkept hk' hk (hname'.trans hname.symm))
  rw [merge, hfind]

theorem keeps_of_merge (placed : List (List Nat × ComposedField))
    (kept out : List ComposedField) (hsorted : placed.Pairwise (fun x y => Before x.1 y.1))
    (hkept : (kept.map (·.field.name)).Nodup)
    (h : merge declaration kept (placed.map Prod.snd) = .ok out) :
    ∃ new, out = kept ++ new.map Prod.snd ∧ Keeps kept placed new := by
  induction placed generalizing kept with
  | nil =>
    rw [List.map_nil, merge] at h
    cases h
    exact ⟨[], (List.append_nil _).symm, .slnil, by simpa using hkept, nofun⟩
  | cons x placed ih =>
    obtain ⟨position, f⟩ := x
    rw [List.pairwise_cons] at hsorted
    rw [List.map_cons] at h
    by_cases hnew : f.field.name ∈ kept.map (·.field.name)
    · -- a field of this name has been kept; it is the same one, or there is no result
      obtain ⟨k, hk, hname⟩ := List.mem_map.1 hnew
      rw [merge_cons_of_mem hk hname hkept] at h
      split at h
      · rename_i hfield
        obtain ⟨new, hout, hkeeps⟩ := ih kept hsorted.2 hkept h
        refine ⟨new, hout, hkeeps.sublist.cons _, hkeeps.nodup, fun y hy => ?_⟩
        rcases List.mem_cons.1 hy with rfl | hy
        · exact .inl ⟨k, hk, hfield⟩
        · exact hkeeps.covered y hy
      · cases h
    · rw [merge_cons_new hnew] at h
      have hkept' := nodup_names_append hkept hnew
      obtain ⟨new, rfl, hkeeps⟩ := ih (kept ++ [f]) hsorted.2 hkept' h
      refine ⟨(position, f) :: new, by simp, hkeeps.sublist.cons_cons _, ?_, fun y hy => ?_⟩
      · have hnodup := hkeeps.nodup
        rw [List.append_assoc] at hnodup
        exact hnodup
      · rcases List.mem_cons.1 hy with rfl | hmem
        · exact .inr ⟨(position, f), List.mem_cons_self, rfl, not_before_self _⟩
        · -- what is the same as `f` comes after it, because the positions increase
          rcases hkeeps.covered y hmem with ⟨k, hk, hfield⟩ | ⟨z, hz, hfield, hnot⟩
          · rcases List.mem_append.1 hk with hk | hk
            · exact .inl ⟨k, hk, hfield⟩
            · obtain rfl := List.mem_singleton.1 hk
              exact .inr ⟨(position, k), List.mem_cons_self, hfield, (hsorted.1 y hmem).not_before⟩
          · exact .inr ⟨z, List.mem_cons_of_mem _ hz, hfield, hnot⟩

/-- Fields that agree are put together without a problem. -/
theorem exists_merge_eq_ok (hkept : (kept.map (·.field.name)).Nodup)
    (hagree : ∀ f ∈ kept ++ fields, ∀ g ∈ kept ++ fields,
      f.field.name = g.field.name → f.field = g.field) :
    ∃ out, merge declaration kept fields = .ok out := by
  induction fields generalizing kept with
  | nil => exact ⟨kept, rfl⟩
  | cons f fields ih =>
    by_cases hnew : f.field.name ∈ kept.map (·.field.name)
    · obtain ⟨k, hk, hname⟩ := List.mem_map.1 hnew
      have hfield : k.field = f.field :=
        hagree k (List.mem_append_left _ hk) f (by simp) hname
      rw [merge_cons_of_mem hk hname hkept, if_pos hfield]
      have hsub : ∀ g ∈ kept ++ fields, g ∈ kept ++ f :: fields := by
        intro g hg
        rcases List.mem_append.1 hg with hg | hg
        · exact List.mem_append_left _ hg
        · exact List.mem_append_right _ (List.mem_cons_of_mem _ hg)
      exact ih hkept fun g hg g' hg' => hagree g (hsub g hg) g' (hsub g' hg')
    · rw [merge_cons_new hnew]
      refine ih (nodup_names_append hkept hnew) ?_
      rwa [List.append_assoc]

end Composition

namespace Context

variable {ctx : Context} {annotations : List Annotation} {declaration : String}

/-! ### The fields and their positions -/

/-- A reachable directive is for the field. -/
def Adds (ctx : Context) (annotations : List Annotation) (field : FieldDirective) : Prop :=
  ∃ d, ctx.Reachable annotations d ∧ ctx.AddsField d ∧ FieldDirective.decode d = .ok field

/-- A directive for the field is met at a position. The position starts with the place of the
annotation that the walk starts from, and this is named with the field. -/
def MeetsFieldAt (ctx : Context) (annotations : List Annotation) (position : List Nat)
    (f : ComposedField) : Prop :=
  ∃ i a rest d, position = i :: rest ∧ annotations[i]? = some a ∧
    ctx.MeetsAt [] a rest (.directive d) ∧ FieldDirective.decode d = .ok f.field ∧ f.root = a.type

/-- The position is the first one at which a directive for the field is met. -/
structure FirstMetAt (ctx : Context) (annotations : List Annotation) (position : List Nat)
    (f : ComposedField) : Prop where
  meets : ctx.MeetsFieldAt annotations position f
  first : ∀ {other : List Nat} {g : ComposedField},
    ctx.MeetsFieldAt annotations other g → g.field = f.field →
      ¬ Before other position

/-- The fields that are read from the walk, in the order of their positions. -/
theorem inOrder_fields :
    InOrder (ctx.MeetsFieldAt annotations) ((ctx.compositionEvents annotations).filterMap
      fun e => Composition.readField e.1 e.2) := by
  have hfields : (ctx.compositionEvents annotations).filterMap
      (fun e => Composition.readField e.1 e.2) =
        annotations.flatMap fun a =>
          (ctx.walkComposition [] a).filterMap (Composition.readField a.type) := by
    rw [compositionEvents, List.filterMap_flatMap]
    refine congrArg (fun f => annotations.flatMap f) (funext fun a => ?_)
    rw [List.filterMap_map]
    rfl
  rw [hfields]
  refine (InOrder.flatMap fun a _ => (inOrder_walkComposition [] a).filterMap _).congr ?_
  intro position f
  constructor
  · rintro ⟨i, a, rest, hposition, ha, event, hmeets, hread⟩
    obtain ⟨d, rfl, hdecode, hroot⟩ := Composition.readField_eq_some_iff.1 hread
    exact ⟨i, a, rest, d, hposition, ha, hmeets, hdecode, hroot⟩
  · rintro ⟨i, a, rest, d, hposition, ha, hmeets, hdecode, hroot⟩
    exact ⟨i, a, rest, hposition, ha, .directive d, hmeets,
      Composition.readField_eq_some_iff.2 ⟨d, rfl, hdecode, hroot⟩⟩

/-- The fields that are met at the positions that start with a place are those that the
annotation at this place adds. -/
theorem adds_singleton_iff {i : Nat} {a : Annotation} (ha : annotations[i]? = some a)
    {field : FieldDirective} :
    ctx.Adds [a] field ↔
      ∃ rest, ctx.MeetsFieldAt annotations (i :: rest) ⟨field, a.type⟩ := by
  constructor
  · rintro ⟨d, hreach, hd, hdecode⟩
    obtain ⟨rest, hmeets⟩ := exists_meetsAt_directive.2 ⟨hreach, hd⟩
    exact ⟨rest, i, a, rest, d, rfl, ha, hmeets, hdecode, rfl⟩
  · rintro ⟨rest, i', a', rest', d, hposition, ha', hmeets, hdecode, -⟩
    obtain ⟨rfl, rfl⟩ := List.cons.inj hposition
    rw [ha] at ha'
    obtain rfl := Option.some.inj ha'
    obtain ⟨hreach, hd⟩ := exists_meetsAt_directive.1 ⟨rest, hmeets⟩
    exact ⟨d, hreach, hd, hdecode⟩

/-- A list adds what its annotations add, one by one. -/
theorem adds_iff_exists_mem {field : FieldDirective} :
    ctx.Adds annotations field ↔ ∃ a ∈ annotations, ctx.Adds [a] field := by
  constructor
  · rintro ⟨d, hreach, hd, hdecode⟩
    obtain ⟨a, hmem, ha⟩ := reachable_iff_exists_mem.1 hreach
    exact ⟨a, hmem, d, ha, hd, hdecode⟩
  · rintro ⟨a, hmem, d, ha, hd, hdecode⟩
    exact ⟨d, reachable_iff_exists_mem.2 ⟨a, hmem, ha⟩, hd, hdecode⟩

/-! ### The expansion -/

/-- What the annotations of a declaration are expanded to. -/
structure Expansion (ctx : Context) (annotations : List Annotation)
    (fields : List ComposedField) : Prop where
  /-- no field is there twice, not even with another type or flag -/
  nodup : (fields.map (·.field.name)).Nodup
  /-- the fields are those of the reachable directives -/
  mem_iff : ∀ field, field ∈ fields.map (·.field) ↔ ctx.Adds annotations field
  /-- they stand in the order in which they are met first -/
  ordered : ∃ positions : List (List Nat),
    List.Forall₂ (ctx.FirstMetAt annotations) positions fields ∧ positions.Pairwise Before
  /-- each is named after the first annotation that adds it -/
  root : ∀ f ∈ fields, ∃ (i : Nat) (a : Annotation), annotations[i]? = some a ∧ f.root = a.type ∧
    ctx.Adds [a] f.field ∧ ∀ j < i, ∀ b, annotations[j]? = some b → ¬ ctx.Adds [b] f.field

theorem MeetsFieldAt.adds {position : List Nat} {f : ComposedField}
    (h : ctx.MeetsFieldAt annotations position f) : ctx.Adds annotations f.field := by
  obtain ⟨i, a, rest, d, -, ha, hmeets, hdecode, -⟩ := h
  obtain ⟨hreach, hd⟩ := exists_meetsAt_directive.1 ⟨rest, hmeets⟩
  have hmem := List.mem_of_getElem? ha
  exact adds_iff_exists_mem.2 ⟨a, hmem, d, hreach, hd, hdecode⟩

theorem Adds.exists_meetsFieldAt {field : FieldDirective} (h : ctx.Adds annotations field) :
    ∃ position root, ctx.MeetsFieldAt annotations position ⟨field, root⟩ := by
  obtain ⟨a, hmem, hadds⟩ := adds_iff_exists_mem.1 h
  obtain ⟨i, ha⟩ := List.getElem?_of_mem hmem
  obtain ⟨rest, hmeets⟩ := (adds_singleton_iff ha).1 hadds
  exact ⟨i :: rest, a.type, hmeets⟩

/-- A field that is met first at a position is named after the first annotation that adds it:
an earlier one would meet it at an earlier position. -/
theorem FirstMetAt.root {position : List Nat} {f : ComposedField}
    (h : ctx.FirstMetAt annotations position f) :
    ∃ (i : Nat) (a : Annotation), annotations[i]? = some a ∧ f.root = a.type ∧
      ctx.Adds [a] f.field ∧
        ∀ j < i, ∀ b, annotations[j]? = some b → ¬ ctx.Adds [b] f.field := by
  have hmeets := h.meets
  obtain ⟨i, a, rest, d, hposition, ha, -, -, hroot⟩ := h.meets
  rw [hposition] at hmeets
  refine ⟨i, a, ha, hroot, (adds_singleton_iff ha).2 ⟨rest, ?_⟩, fun j hj b hb hadds => ?_⟩
  · rw [← hroot]
    exact hmeets
  · obtain ⟨rest', hmeets'⟩ := (adds_singleton_iff hb).1 hadds
    have hnot := h.first hmeets' rfl
    rw [hposition] at hnot
    exact hnot (before_cons_iff.2 (.inl hj))

variable {placed new : List (List Nat × ComposedField)}

/-- What has been kept of the fields that are met stands where its field is met first. -/
theorem firstMetAt_of_keeps
    (hmem : ∀ position f, (position, f) ∈ placed ↔ ctx.MeetsFieldAt annotations position f)
    (h : Composition.Keeps [] placed new) :
    ∀ x ∈ new, ctx.FirstMetAt annotations x.1 x.2 := by
  intro x hx
  -- what is kept for an earlier one of the same name is `x` itself
  refine ⟨(hmem x.1 x.2).1 (h.sublist.subset hx), fun {other g} hg hfield => ?_⟩
  rcases h.covered (other, g) ((hmem other g).2 hg) with ⟨k, hk, -⟩ | ⟨y, hy, hyfield, hnot⟩
  · exact absurd hk List.not_mem_nil
  · obtain rfl : y = x := by
      have hnodup : ((new.map Prod.snd).map (·.field.name)).Nodup := h.nodup
      rw [List.map_map] at hnodup
      refine List.inj_on_of_nodup_map hnodup hy hx ?_
      show y.2.field.name = x.2.field.name
      rw [hyfield, hfield]
    exact hnot

/-- What has been kept of all fields that are met is the expansion. -/
theorem expansion_of_keeps
    (hmem : ∀ position f, (position, f) ∈ placed ↔ ctx.MeetsFieldAt annotations position f)
    (hsorted : placed.Pairwise (fun x y => Before x.1 y.1)) (h : Composition.Keeps [] placed new) :
    ctx.Expansion annotations (new.map Prod.snd) := by
  have hfirst := firstMetAt_of_keeps hmem h
  refine ⟨h.nodup, fun field => ⟨fun hfield => ?_, fun hadds => ?_⟩,
    ⟨new.map Prod.fst, ?_, ?_⟩, fun f hf => ?_⟩
  · obtain ⟨f, hf, rfl⟩ := List.mem_map.1 hfield
    obtain ⟨x, hx, rfl⟩ := List.mem_map.1 hf
    exact (hfirst x hx).meets.adds
  · obtain ⟨position, root, hmeets⟩ := hadds.exists_meetsFieldAt
    rcases h.covered _ ((hmem _ _).2 hmeets) with ⟨k, hk, -⟩ | ⟨y, hy, hfield, -⟩
    · exact absurd hk List.not_mem_nil
    · exact List.mem_map.2 ⟨y.2, List.mem_map_of_mem hy, hfield⟩
  · rw [List.forall₂_map_left_iff, List.forall₂_map_right_iff, List.forall₂_same]
    exact hfirst
  · rw [List.pairwise_map]
    exact hsorted.sublist h.sublist
  · obtain ⟨x, hx, rfl⟩ := List.mem_map.1 hf
    exact (hfirst x hx).root

/-- The directives that the walk meets are the reachable ones. -/
theorem directive_mem_compositionEvents {d : Annotation} :
    (∃ root, (root, .directive d) ∈ ctx.compositionEvents annotations) ↔
      ctx.Reachable annotations d ∧ ctx.AddsField d := by
  constructor
  · rintro ⟨root, hevent⟩
    obtain ⟨a, hmem, hevent⟩ := List.mem_flatMap.1 hevent
    obtain ⟨event, hwalk, heq⟩ := List.mem_map.1 hevent
    obtain ⟨-, rfl⟩ := Prod.mk.inj heq
    have hmeets := (inOrder_walkComposition [] a).mem_iff.1 hwalk
    obtain ⟨hreach, hd⟩ := exists_meetsAt_directive.1 hmeets
    exact ⟨reachable_iff_exists_mem.2 ⟨a, hmem, hreach⟩, hd⟩
  · rintro ⟨hreach, hd⟩
    obtain ⟨a, hmem, ha⟩ := reachable_iff_exists_mem.1 hreach
    have hmeets := exists_meetsAt_directive.2 ⟨ha, hd⟩
    have hwalk := (inOrder_walkComposition [] a).mem_iff.2 hmeets
    exact ⟨a.type, List.mem_flatMap.2 ⟨a, hmem, List.mem_map_of_mem hwalk⟩⟩

/-- An expansion is what has been kept of all fields that are met. -/
theorem expansion_of_eq_ok {fields : List ComposedField}
    (h : ctx.expandComposition declaration annotations = .ok fields) :
    (∀ d, ctx.Reachable annotations d → ctx.AddsField d →
      ∃ field, FieldDirective.decode d = .ok field) ∧ ctx.Expansion annotations fields := by
  unfold expandComposition at h
  cases hread : Composition.readFields (ctx.compositionEvents annotations) with
  | error p =>
    rw [hread] at h
    cases h
  | ok met =>
    rw [hread] at h
    obtain ⟨hdecodes, rfl⟩ := (Composition.readFields_eq_ok_iff _ met).1 hread
    obtain ⟨placed, hplaced, hsorted, hmem⟩ := @inOrder_fields ctx annotations
    -- every reachable directive is among the events, and the fields are read from all of them
    refine ⟨fun d hreach hd => ?_, ?_⟩
    · obtain ⟨root, hevent⟩ := directive_mem_compositionEvents.2 ⟨hreach, hd⟩
      exact hdecodes root d hevent
    · have hmerge : Composition.merge declaration [] (placed.map Prod.snd) = .ok fields := by
        rw [hplaced]
        exact h
      obtain ⟨new, rfl, hkeeps⟩ := Composition.keeps_of_merge placed [] fields hsorted .nil hmerge
      exact expansion_of_keeps hmem hsorted hkeeps

/-- Annotations can be expanded if and only if the reachable directives can be read and those
for one name agree. -/
theorem exists_expandComposition_eq_ok_iff :
    (∃ fields, ctx.expandComposition declaration annotations = .ok fields) ↔
      (∀ d, ctx.Reachable annotations d → ctx.AddsField d →
        ∃ field, FieldDirective.decode d = .ok field) ∧
      ∀ f g, ctx.Adds annotations f → ctx.Adds annotations g → f.name = g.name → f = g := by
  constructor
  · rintro ⟨fields, h⟩
    obtain ⟨hdecodes, hexpansion⟩ := expansion_of_eq_ok h
    refine ⟨hdecodes, fun f g hf hg hname => ?_⟩
    obtain ⟨x, hx, rfl⟩ := List.mem_map.1 ((hexpansion.mem_iff f).2 hf)
    obtain ⟨y, hy, rfl⟩ := List.mem_map.1 ((hexpansion.mem_iff g).2 hg)
    rw [List.inj_on_of_nodup_map hexpansion.nodup hx hy hname]
  · rintro ⟨hdecodes, hagree⟩
    have hread := (Composition.readFields_eq_ok_iff (ctx.compositionEvents annotations) _).2
      ⟨fun root d hevent => ?_, rfl⟩
    · rw [expandComposition, hread]
      refine Composition.exists_merge_eq_ok .nil fun f hf g hg hname => ?_
      obtain ⟨p, hf⟩ := inOrder_fields.mem_iff.1 hf
      obtain ⟨q, hg⟩ := inOrder_fields.mem_iff.1 hg
      exact hagree f.field g.field hf.adds hg.adds hname
    · obtain ⟨hreach, hd⟩ := directive_mem_compositionEvents.1 ⟨root, hevent⟩
      exact hdecodes d hreach hd

/-! ### Other orders -/

/-- The other context has the same markers, and its classes carry the same annotations, in
any order. -/
structure Reorders (ctx ctx' : Context) : Prop where
  markers : ctx.markers = ctx'.markers
  classes : ∀ name, Option.Rel (fun c c' : ClassDecl => c.annotations.Perm c'.annotations)
    (ctx.index.class? name) (ctx'.index.class? name)

variable {ctx' : Context} {annotations' : List Annotation}

theorem Reorders.symm (h : ctx.Reorders ctx') : ctx'.Reorders ctx := by
  refine ⟨h.markers.symm, fun name => ?_⟩
  have hclasses := h.classes name
  generalize ctx.index.class? name = c at hclasses ⊢
  generalize ctx'.index.class? name = c' at hclasses ⊢
  cases hclasses with
  | some hperm => exact .some hperm.symm
  | none => exact .none

theorem Reorders.carries (h : ctx.Reorders ctx') {a b : Annotation} (hb : ctx.Carries a b) :
    ctx'.Carries a b := by
  obtain ⟨hignored, hdirective, c, hclass, hwritten⟩ := hb
  rw [h.markers] at hignored hdirective
  refine ⟨hignored, hdirective, ?_⟩
  have hclasses := h.classes a.type
  rw [hclass] at hclasses
  cases hclass' : ctx'.index.class? a.type with
  | none =>
    rw [hclass'] at hclasses
    cases hclasses
  | some c' =>
    rw [hclass'] at hclasses
    cases hclasses with
    | some hperm => exact ⟨c', rfl, hperm.mem_iff.1 hwritten⟩

theorem Reorders.reachable (h : ctx.Reorders ctx') (hperm : annotations.Perm annotations')
    {d : Annotation} (hd : ctx.Reachable annotations d) : ctx'.Reachable annotations' d := by
  induction hd with
  | listed hmem => exact .listed (hperm.mem_iff.1 hmem)
  | carried _ hb ih => exact .carried ih (h.carries hb)

theorem Reorders.addsField (h : ctx.Reorders ctx') {d : Annotation} (hd : ctx.AddsField d) :
    ctx'.AddsField d := by
  obtain ⟨hignored, hdirective⟩ := hd
  rw [h.markers] at hignored hdirective
  exact ⟨hignored, hdirective⟩

theorem Reorders.adds (h : ctx.Reorders ctx') (hperm : annotations.Perm annotations')
    {field : FieldDirective} (hadds : ctx.Adds annotations field) :
    ctx'.Adds annotations' field := by
  obtain ⟨d, hreach, hd, hdecode⟩ := hadds
  exact ⟨d, h.reachable hperm hreach, h.addsField hd, hdecode⟩

/-- Annotations that can be expanded can be expanded in every other order. -/
theorem Reorders.exists_eq_ok (h : ctx.Reorders ctx') (hperm : annotations.Perm annotations')
    (hok : ∃ fields, ctx.expandComposition declaration annotations = .ok fields) :
    ∃ fields, ctx'.expandComposition declaration annotations' = .ok fields := by
  obtain ⟨hdecodes, hagree⟩ := exists_expandComposition_eq_ok_iff.1 hok
  refine exists_expandComposition_eq_ok_iff.2 ⟨fun d hreach hd => ?_, fun f g hf hg => ?_⟩
  · exact hdecodes d (h.symm.reachable hperm.symm hreach) (h.symm.addsField hd)
  · exact hagree f g (h.symm.adds hperm.symm hf) (h.symm.adds hperm.symm hg)

/-- **A declaration is expanded to exactly the reachable directives.**  Annotations can be
expanded if and only if all reachable directives can be read and any two for one name are for
the same field.  Then each field is there once, in the order in which it is met first, under
the first annotation that adds it; and another order of annotations, in the list or on any
class, changes neither the success nor the set of fields. -/
theorem expandComposition_eq_ok (ctx : Context) (declaration : String)
    (annotations : List Annotation) :
    ((∃ fields, ctx.expandComposition declaration annotations = .ok fields) ↔
      (∀ d, ctx.Reachable annotations d → ctx.AddsField d →
        ∃ field, FieldDirective.decode d = .ok field) ∧
      ∀ f g, ctx.Adds annotations f → ctx.Adds annotations g → f.name = g.name → f = g) ∧
    (∀ fields, ctx.expandComposition declaration annotations = .ok fields →
      ctx.Expansion annotations fields) ∧
    ∀ (ctx' : Context) (annotations' : List Annotation), ctx.Reorders ctx' →
      annotations.Perm annotations' →
        ((∃ fields, ctx.expandComposition declaration annotations = .ok fields) ↔
          ∃ fields, ctx'.expandComposition declaration annotations' = .ok fields) ∧
        ∀ fields fields', ctx.expandComposition declaration annotations = .ok fields →
          ctx'.expandComposition declaration annotations' = .ok fields' →
            ∀ field, field ∈ fields.map (·.field) ↔ field ∈ fields'.map (·.field) := by
  refine ⟨exists_expandComposition_eq_ok_iff, fun fields h => (expansion_of_eq_ok h).2, ?_⟩
  intro ctx' annotations' hctx hperm
  refine ⟨⟨hctx.exists_eq_ok hperm, hctx.symm.exists_eq_ok hperm.symm⟩, ?_⟩
  intro fields fields' h h' field
  rw [(expansion_of_eq_ok h).2.mem_iff, (expansion_of_eq_ok h').2.mem_iff]
  exact ⟨hctx.adds hperm, hctx.symm.adds hperm.symm⟩

end Context

/-! ### Two annotations that carry each other -/

namespace Sample

/-- An annotation class of the package `c`. -/
def annotationClass (name : String) (annotations : List Annotation) : ClassDecl :=
  ⟨"c", name, .annotationClass, [], [], annotations, [], none, [], false, none⟩

def first : Annotation :=
  .mk "c.First" []

def second : Annotation :=
  .mk "c.Second" []

/-- A directive that adds a number. -/
def adding (name : String) : Annotation :=
  .mk "modelsmith.annotation.AddField"
    [("name", .string name), ("type", .classLiteral (.named "kotlin.Int"))]

/-- The fields of both directives, reached from one annotation. -/
def found (root : String) : List ComposedField :=
  [⟨⟨"b", .named "kotlin.Int", true⟩, root⟩, ⟨⟨"a", .named "kotlin.Int", true⟩, root⟩]

/-- The two annotation classes with what is written on them. -/
def pair (as bs : List Annotation) : Context :=
  ⟨⟨[annotationClass "First" as, annotationClass "Second" bs].map fun c => ⟨.ofClass c, "c.json"⟩⟩,
    {}⟩

def forward : Context :=
  pair [second, adding "a"] [first, adding "b"]

def backward : Context :=
  pair [adding "a", second] [adding "b", first]

section Pair

variable {as bs : List Annotation} {path : List String}

theorem class?_pair (name : String) :
    (pair as bs).index.class? name =
      if "c.First" = name then some (annotationClass "First" as)
      else if "c.Second" = name then some (annotationClass "Second" bs) else none := by
  by_cases hfirst : "c.First" = name
  · subst hfirst
    rfl
  · by_cases hsecond : "c.Second" = name
    · subst hsecond
      rfl
    · rw [if_neg hfirst, if_neg hsecond]
      have hnone : (pair as bs).index.entry? name = none := by
        refine List.find?_eq_none.2 fun e he heq => ?_
        rcases List.mem_pair.1 he with rfl | rfl
        · exact hfirst (eq_of_beq heq)
        · exact hsecond (eq_of_beq heq)
      rw [DeclarationIndex.class?, DeclarationIndex.get?, hnone]
      rfl

theorem walkComposition_first :
    (pair as bs).walkComposition path first =
      if "c.First" ∈ path then [.cycle "c.First" path]
      else as.flatMap ((pair as bs).walkComposition (path ++ ["c.First"])) := by
  have hignored : Markers.isIgnored {} first.type = false := by decide
  have hdirective : first.type ≠ Markers.addField {} := by decide
  have hclass : (pair as bs).index.class? first.type = some (annotationClass "First" as) := rfl
  split
  · rename_i hpath
    exact Context.walkComposition_of_mem hignored hdirective hpath
  · rename_i hpath
    exact Context.walkComposition_of_class hignored hdirective hpath hclass

theorem walkComposition_second :
    (pair as bs).walkComposition path second =
      if "c.Second" ∈ path then [.cycle "c.Second" path]
      else bs.flatMap ((pair as bs).walkComposition (path ++ ["c.Second"])) := by
  have hignored : Markers.isIgnored {} second.type = false := by decide
  have hdirective : second.type ≠ Markers.addField {} := by decide
  have hclass : (pair as bs).index.class? second.type = some (annotationClass "Second" bs) := rfl
  split
  · rename_i hpath
    exact Context.walkComposition_of_mem hignored hdirective hpath
  · rename_i hpath
    exact Context.walkComposition_of_class hignored hdirective hpath hclass

theorem walkComposition_adding (name : String) :
    (pair as bs).walkComposition path (adding name) = [.directive (adding name)] := by
  have hignored : Markers.isIgnored {} "modelsmith.annotation.AddField" = false := by decide
  exact Context.walkComposition_of_directive ⟨hignored, rfl⟩

end Pair

theorem expandComposition_forward :
    forward.expandComposition "c.Model" [first, second] =
      .ok (found "c.First") := by
  have hevents : forward.compositionEvents [first, second] =
      [("c.First", .cycle "c.First" ["c.First", "c.Second"]),
        ("c.First", .directive (adding "b")), ("c.First", .directive (adding "a")),
        ("c.Second", .cycle "c.Second" ["c.Second", "c.First"]),
        ("c.Second", .directive (adding "a")), ("c.Second", .directive (adding "b"))] := by
    simp [Context.compositionEvents, forward, walkComposition_first, walkComposition_second,
      walkComposition_adding]
    exact ⟨rfl, rfl⟩
  rw [Context.expandComposition, hevents]
  rfl

theorem expandComposition_backward :
    backward.expandComposition "c.Model" [second, first] =
      .ok (found "c.Second") := by
  have hevents : backward.compositionEvents [second, first] =
      [("c.Second", .directive (adding "b")), ("c.Second", .directive (adding "a")),
        ("c.Second", .cycle "c.Second" ["c.Second", "c.First"]),
        ("c.First", .directive (adding "a")), ("c.First", .directive (adding "b")),
        ("c.First", .cycle "c.First" ["c.First", "c.Second"])] := by
    simp [Context.compositionEvents, backward, walkComposition_first, walkComposition_second,
      walkComposition_adding]
    exact ⟨rfl, rfl⟩
  rw [Context.expandComposition, hevents]
  rfl

theorem forward_reorders_backward : forward.Reorders backward := by
  refine ⟨rfl, fun name => ?_⟩
  rw [forward, backward, class?_pair, class?_pair]
  split
  · exact .some (.swap _ _ _)
  · split
    · exact .some (.swap _ _ _)
    · exact .none

end Sample

theorem Context.expandComposition_eq_ok_pair :
    Sample.forward.expandComposition "c.Model" [Sample.first, Sample.second] =
      .ok (Sample.found "c.First") ∧
    Sample.backward.expandComposition "c.Model" [Sample.second, Sample.first] =
      .ok (Sample.found "c.Second") ∧
    Sample.forward.Reorders Sample.backward ∧
    [Sample.first, Sample.second].Perm [Sample.second, Sample.first] ∧
    Sample.forward.Expansion [Sample.first, Sample.second] (Sample.found "c.First") ∧
    ∀ field, field ∈ (Sample.found "c.First").map (·.field) ↔
      field ∈ (Sample.found "c.Second").map (·.field) := by
  obtain ⟨-, hexpansion, hother⟩ :=
    Context.expandComposition_eq_ok Sample.forward "c.Model" [Sample.first, Sample.second]
  have hreorders := Sample.forward_reorders_backward
  have hperm : [Sample.first, Sample.second].Perm [Sample.second, Sample.first] := .swap _ _ _
  have hfields := (hother Sample.backward _ hreorders hperm).2
  exact ⟨Sample.expandComposition_forward, Sample.expandComposition_backward, hreorders, hperm,
    hexpansion _ Sample.expandComposition_forward,
    hfields _ _ Sample.expandComposition_forward Sample.expandComposition_backward⟩

end ModelForge
