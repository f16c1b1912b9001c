/-
The walk over the interfaces that a class extends.

The walk is bounded by a number of levels.  The bound is never felt: every level enters a class
that has not been entered before, so that as many levels as there are classes left are as good
as any greater number.

* `Context.parents` — the interfaces that a class lists, `Context.enterParent` the treatment of
  one of them, so that a walk is the treatment of all parents in order;
* `Context.walkInterfaces_of_le` — levels beyond the number of classes that have not been
  entered change nothing;
* `Context.mem_superInterfaces` — what holds of a class and passes on to the interfaces that a
  class lists holds of all super-interfaces;
* `Context.mem_declaredProperties` — a declared property is one of its owner's, and the owner is
  the class itself or one of its super-interfaces.
-/
import Mathlib.Data.List.Basic
import ModelForge.Analysis.Inheritance

namespace ModelForge

namespace Context

variable {ctx : Context} {c : ClassDecl}

/-- The interfaces that a class lists as supertypes. -/
def parents (ctx : Context) (c : ClassDecl) : List ClassDecl :=
  c.superTypes.filterMap (ctx.superInterface? c)

/-- The treatment of one parent: it is entered and walked, unless it has been entered before. -/
def enterParent (ctx : Context) (depth : Nat) (w : InterfaceWalk) (parent : ClassDecl) :
    InterfaceWalk :=
  if parent.qualifiedName ∈ w.entered then w
  else
    let w' := ctx.walkInterfaces depth
      { w with entered := parent.qualifiedName :: w.entered } parent
    { w' with finished := w'.finished ++ [parent] }

theorem walkInterfaces_succ (depth : Nat) (w : InterfaceWalk) (c : ClassDecl) :
    ctx.walkInterfaces (depth + 1) w c = (ctx.parents c).foldl (ctx.enterParent depth) w :=
  rfl

/-- A parent is a declared class. -/
theorem class?_of_mem_parents {parent : ClassDecl} (h : parent ∈ ctx.parents c) :
    ctx.index.class? parent.qualifiedName = some parent := by
  obtain ⟨superType, -, hparent⟩ := List.mem_filterMap.1 h
  unfold superInterface? at hparent
  split at hparent
  · rename_i parent' hresolve
    split at hparent
    · cases hparent
      have hclass := DeclarationIndex.class?_eq_some_of_resolve hresolve
      rw [(DeclarationIndex.mem_classes_of_class? hclass).2]
      exact hclass
    · cases hparent
  · cases hparent

/-! ### Entered classes -/

/-- Nothing that has been entered is forgotten. -/
theorem entered_subset_walkInterfaces (depth : Nat) :
    ∀ (w : InterfaceWalk) (c : ClassDecl), w.entered ⊆ (ctx.walkInterfaces depth w c).entered := by
  induction depth with
  | zero =>
    intro w c
    exact List.Subset.refl _
  | succ depth ih =>
    intro w c
    rw [walkInterfaces_succ]
    induction ctx.parents c generalizing w with
    | nil => exact List.Subset.refl _
    | cons parent parents ihParents =>
      refine List.Subset.trans ?_ (ihParents (ctx.enterParent depth w parent))
      unfold enterParent
      split
      · exact List.Subset.refl _
      · intro name hname
        exact ih _ parent (List.mem_cons_of_mem _ hname)

theorem entered_subset_enterParent (depth : Nat) (w : InterfaceWalk) (parent : ClassDecl) :
    w.entered ⊆ (ctx.enterParent depth w parent).entered := by
  unfold enterParent
  split
  · exact List.Subset.refl _
  · intro name hname
    exact entered_subset_walkInterfaces depth _ parent (List.mem_cons_of_mem _ hname)

/-- The more classes have been entered, the fewer remain. -/
theorem remaining_length_le {idx : DeclarationIndex} {path path' : List String}
    (h : path ⊆ path') : (idx.remaining path').length ≤ (idx.remaining path).length := by
  refine List.Sublist.length_le (List.monotone_filter_right _ fun name hname => ?_)
  simp only [decide_eq_true_eq] at hname ⊢
  exact fun hmem => hname (h hmem)

/-- Where a class is entered, fewer classes remain. -/
theorem remaining_length_cons_lt {idx : DeclarationIndex} {c : ClassDecl} {path : List String}
    (hclass : idx.class? c.qualifiedName = some c) (hnew : c.qualifiedName ∉ path) :
    (idx.remaining (c.qualifiedName :: path)).length < (idx.remaining path).length :=
  DeclarationIndex.remaining_length_lt hclass hnew fun _ => List.mem_cons

/-- **The bound on the levels is never felt.**  With at least as many levels as there are
classes left to enter, the walk does not depend on their number. -/
theorem walkInterfaces_of_le (depth : Nat) : ∀ {depth' : Nat} (w : InterfaceWalk) (c : ClassDecl),
    (ctx.index.remaining w.entered).length ≤ depth → depth ≤ depth' →
      ctx.walkInterfaces depth' w c = ctx.walkInterfaces depth w c := by
  induction depth with
  | zero =>
    intro depth' w c hleft _
    -- no class is left, so that every parent has been entered
    cases depth' with
    | zero => rfl
    | succ depth' =>
      have hentered : ∀ parent ∈ ctx.parents c, ctx.enterParent depth' w parent = w := by
        intro parent hparent
        have hclass := class?_of_mem_parents hparent
        have hmem : parent.qualifiedName ∈ w.entered := by
          by_contra hnew
          have hlt := remaining_length_cons_lt hclass hnew
          omega
        rw [enterParent, if_pos hmem]
      rw [walkInterfaces_succ]
      show (ctx.parents c).foldl (ctx.enterParent depth') w = w
      generalize ctx.parents c = parents at hentered ⊢
      induction parents with
      | nil => rfl
      | cons parent parents ih =>
        rw [List.foldl_cons, hentered parent List.mem_cons_self]
        exact ih fun p hp => hentered p (List.mem_cons_of_mem _ hp)
  | succ depth ih =>
    intro depth' w c hleft hle
    obtain ⟨depth', rfl⟩ : ∃ d, depth' = d + 1 := ⟨depth' - 1, by omega⟩
    rw [walkInterfaces_succ, walkInterfaces_succ]
    have hparents : ∀ parent ∈ ctx.parents c,
        ctx.index.class? parent.qualifiedName = some parent := fun _ => class?_of_mem_parents
    -- from parent to parent more classes are entered, and the levels stay enough
    generalize ctx.parents c = parents at hparents ⊢
    induction parents generalizing w with
    | nil => rfl
    | cons parent parents ihParents =>
      have hstep : ctx.enterParent depth' w parent = ctx.enterParent depth w parent := by
        rw [enterParent, enterParent]
        split
        · rfl
        · rename_i hnew
          have hlt := remaining_length_cons_lt (hparents parent List.mem_cons_self) hnew
          have hleft' :
              (ctx.index.remaining (parent.qualifiedName :: w.entered)).length ≤ depth := by
            omega
          rw [ih ⟨parent.qualifiedName :: w.entered, w.finished⟩ parent hleft' (by omega)]
      rw [List.foldl_cons, List.foldl_cons, hstep]
      refine ihParents _ ?_ fun p hp => hparents p (List.mem_cons_of_mem _ hp)
      exact Nat.le_trans (remaining_length_le (entered_subset_enterParent depth w parent)) hleft

/-- Any number of levels that is at least the number of classes gives the super-interfaces. -/
theorem superInterfaces_eq {depth : Nat} (h : ctx.index.classes.length ≤ depth) :
    ctx.superInterfaces c = (ctx.walkInterfaces depth {} c).finished := by
  have hleft : (ctx.index.remaining ({} : InterfaceWalk).entered).length ≤
      ctx.index.classes.length := by
    have hle := List.length_filter_le (fun name => decide (name ∉ ([] : List String)))
      ctx.index.classNames
    rw [DeclarationIndex.classNames, List.length_map] at hle
    exact hle
  rw [superInterfaces, walkInterfaces_of_le _ {} c hleft h]

/-! ### Finished classes -/

section

variable {holds : ClassDecl → Prop}

/-- What passes on from a class to its parents passes on to all that a walk finishes. -/
theorem finished_walkInterfaces (hparents : ∀ c, holds c → ∀ p ∈ ctx.parents c, holds p)
    (depth : Nat) : ∀ (w : InterfaceWalk) (c : ClassDecl), holds c → (∀ x ∈ w.finished, holds x) →
      ∀ x ∈ (ctx.walkInterfaces depth w c).finished, holds x := by
  induction depth with
  | zero => exact fun w c _ hw => hw
  | succ depth ih =>
    intro w c hc hw
    rw [walkInterfaces_succ]
    have hall := hparents c hc
    generalize ctx.parents c = parents at hall ⊢
    induction parents generalizing w with
    | nil => exact hw
    | cons parent parents ihParents =>
      rw [List.foldl_cons]
      have hparent := hall parent List.mem_cons_self
      refine ihParents _ ?_ fun p hp => hall p (List.mem_cons_of_mem _ hp)
      unfold enterParent
      split
      · exact hw
      · intro x hx
        rcases List.mem_append.1 hx with hx | hx
        · exact ih ⟨parent.qualifiedName :: w.entered, w.finished⟩ parent hparent hw x hx
        · rw [List.mem_singleton.1 hx]
          exact hparent

theorem mem_superInterfaces (hparents : ∀ c, holds c → ∀ p ∈ ctx.parents c, holds p)
    (hc : holds c) : ∀ x ∈ ctx.superInterfaces c, holds x :=
  finished_walkInterfaces hparents _ {} c hc (by simp)

end

/-! ### Declared properties -/

/-- Where every step adds its own property at most, all that is there in the end was there
before or has been added. -/
theorem mem_foldl_of_step {p : OwnedProperty}
    {step : List OwnedProperty → OwnedProperty → List OwnedProperty}
    (hstep : ∀ {kept : List OwnedProperty} {q : OwnedProperty}, p ∈ step kept q →
      p ∈ kept ∨ p = q) (added : List OwnedProperty) :
    ∀ kept : List OwnedProperty, p ∈ added.foldl step kept → p ∈ kept ∨ p ∈ added := by
  induction added with
  | nil => exact fun kept h => .inl h
  | cons q added ih =>
    intro kept h
    rcases ih _ h with h | h
    · rcases hstep h with h | rfl
      · exact .inl h
      · exact .inr List.mem_cons_self
    · exact .inr (List.mem_cons_of_mem _ h)

theorem mem_keepFirst {p q : OwnedProperty} {ps : List OwnedProperty}
    (h : p ∈ OwnedProperty.keepFirst ps q) : p ∈ ps ∨ p = q := by
  unfold OwnedProperty.keepFirst at h
  split at h
  · exact .inl h
  · exact (List.mem_append.1 h).imp_right List.mem_singleton.1

theorem mem_override {p q : OwnedProperty} {ps : List OwnedProperty}
    (h : p ∈ OwnedProperty.override ps q) : p ∈ ps ∨ p = q := by
  induction ps with
  | nil => exact .inr (List.mem_singleton.1 h)
  | cons r ps ih =>
    unfold OwnedProperty.override at h
    split at h
    · exact (List.mem_cons.1 h).symm.imp_left (List.mem_cons_of_mem _)
    · rcases List.mem_cons.1 h with rfl | h
      · exact .inl List.mem_cons_self
      · exact (ih h).imp_left (List.mem_cons_of_mem _)

/-- A declared property is a property of its owner, and its owner is the class or one of the
interfaces that the class extends. -/
theorem mem_declaredProperties {p : OwnedProperty} (h : p ∈ ctx.declaredProperties c) :
    p.property ∈ p.owner.properties ∧ (p.owner = c ∨ p.owner ∈ ctx.superInterfaces c) := by
  have hof : ∀ {x : ClassDecl}, p ∈ OwnedProperty.ofClass x →
      p.property ∈ x.properties ∧ p.owner = x := by
    intro x hx
    obtain ⟨property, hproperty, rfl⟩ := List.mem_map.1 hx
    exact ⟨hproperty, rfl⟩
  rcases mem_foldl_of_step mem_override _ _ h with h | h
  · unfold inheritedProperties at h
    split at h
    · rcases mem_foldl_of_step mem_keepFirst _ _ h with h | h
      · cases h
      · obtain ⟨x, hx, hp⟩ := List.mem_flatMap.1 h
        obtain ⟨hproperty, rfl⟩ := hof hp
        exact ⟨hproperty, .inr hx⟩
    · cases h
  · obtain ⟨hproperty, rfl⟩ := hof h
    exact ⟨hproperty, .inl rfl⟩

end Context

end ModelForge
