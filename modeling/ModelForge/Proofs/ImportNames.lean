/-
A simple name stands for one class in a file.

Names are claimed, written and imported in the order in which a file is put together, and what
has been written cannot be changed any more.  So a claim has to last, and a class that has been
written by its simple names has to be found under them in the end.

* `Imports.Call` — one of the five calls on the imports, with the classes that it asks for and
  how each of them is written;
* `Imports.Grows` — what no call takes away: the claims and the imported names;
* `Imports.Sound` — a class that may be referred to and has claimed its name is visible or
  imported;
* `Imports.Settled` — what a state says of a class that was written before.

Each call keeps these (`Imports.careful_call`), and so does a sequence of calls.  The main statement
is `Imports.consistent_after_calls`.  A class that is itself taken for one nested in the file, and
one without simple names, are not found (`Imports.shadowed_unfound_and_unnamed_alike`).
-/
import Mathlib.Data.List.Sort
import Mathlib.Data.String.Basic
import ModelForge.Proofs.DottedNames
import ModelForge.Proofs.SpelledUses

namespace ModelForge

/-! ### Classes -/

namespace TypeName

/-- The outermost simple name. -/
def outermost (t : TypeName) : String :=
  t.simpleNames.headD ""

/-- The simple names with dots between them. -/
def simpleForm (t : TypeName) : String :=
  String.intercalate "." t.simpleNames

/-- The class that a nested class is in. -/
def enclosing (t : TypeName) : TypeName :=
  mk t.package t.simpleNames.dropLast [] false

mutual

/-- The classes of a type, in the order in which they are written. -/
def classes : TypeName → List TypeName
  | mk package simpleNames arguments nullable =>
    mk package simpleNames arguments nullable :: classesOfList arguments

/-- The classes of an argument. -/
def classesOf : Option TypeName → List TypeName
  | none => []
  | some t => classes t

/-- The classes of the arguments. -/
def classesOfList : List (Option TypeName) → List TypeName
  | [] => []
  | a :: as => classesOf a ++ classesOfList as

end

/-- A nested class is called by the class that it is in and its own name. -/
theorem canonicalName_of_nested {t : TypeName} (h : 2 ≤ t.simpleNames.length) :
    t.canonicalName = t.enclosing.canonicalName ++ "." ++ t.simpleName := by
  have hjoin : ∀ (names : List String) (last : String), names ≠ [] →
      String.intercalate "." (names ++ [last]) = String.intercalate "." names ++ "." ++ last := by
    intro names last hne
    induction names with
    | nil => exact absurd rfl hne
    | cons n names ih =>
      rcases names with _ | ⟨m, names⟩
      · simp [String.intercalate_cons_cons]
      · simp [String.intercalate_cons_cons, String.append_assoc] at ih ⊢
        simp [ih]
  have hne : t.simpleNames ≠ [] := by
    intro hnil
    simp [hnil] at h
  have hinit : t.simpleNames.dropLast ≠ [] := by
    intro hnil
    have hlength : t.simpleNames.dropLast.length = t.simpleNames.length - 1 :=
      List.length_dropLast
    rw [hnil, List.length_nil] at hlength
    omega
  have hnames : t.simpleNames.dropLast ++ [t.simpleName] = t.simpleNames := by
    rw [simpleName, List.getLastD_eq_getLast?, List.getLast?_eq_some_getLast hne]
    exact List.dropLast_append_getLast hne
  have hform := hjoin _ t.simpleName hinit
  rw [hnames] at hform
  by_cases hpackage : t.package = ""
  · simp [canonicalName, enclosing, qualify, hpackage, hform]
  · simp [canonicalName, enclosing, qualify, hpackage, hform, String.append_assoc]

/-- Classes that share the outermost simple name and its qualified form share the package. -/
theorem package_eq_of_topLevelName {t u : TypeName} (ht : t.package ≠ "")
    (hname : t.outermost = u.outermost) (htop : t.topLevelName = u.topLevelName) :
    u.package = t.package := by
  have hqualified : qualify t.package t.outermost = qualify u.package u.outermost := htop
  rw [← hname] at hqualified
  exact eq_of_qualify_eq ht hqualified

end TypeName

namespace Kotlin

/-! ### Calls -/

namespace TypeUse

mutual

/-- How the classes of a type are written, in their order. -/
def uses : TypeUse → List ClassUse
  | mk use arguments _ => use :: usesOfList arguments

/-- How the classes of an argument are written. -/
def usesOf : Option TypeUse → List ClassUse
  | none => []
  | some t => uses t

/-- How the classes of the arguments are written. -/
def usesOfList : List (Option TypeUse) → List ClassUse
  | [] => []
  | a :: as => usesOf a ++ usesOfList as

end

end TypeUse

/-- A class that was asked for, and how it was written. -/
structure Mention where
  type : TypeName
  use : ClassUse

/-- The class was written by its simple names. -/
def Mention.IsSimple (m : Mention) : Prop :=
  m.use.display = m.type.simpleForm

/-- A class is written by its simple names if it has no package or is not written in full. -/
theorem ClassUse.Refers.isSimple_iff {m : Mention} (h : m.use.Refers m.type) :
    m.IsSimple ↔ m.type.package = "" ∨ m.use.full = false := by
  unfold Mention.IsSimple ClassUse.display TypeName.simpleForm
  rw [h.1, h.2]
  by_cases hpackage : m.type.package = ""
  · cases m.use.full with
    | true => simp [hpackage, qualify]
    | false => simp
  · cases m.use.full with
    | true => simpa [hpackage] using qualify_ne_self _ hpackage
    | false => simp

/-- A class is written by its simple names or in full. -/
theorem ClassUse.Refers.form {m : Mention} (h : m.use.Refers m.type) :
    m.IsSimple ∨ m.use.display = m.type.canonicalName := by
  unfold Mention.IsSimple ClassUse.display
  rw [h.1, h.2]
  cases m.use.full with
  | true => exact .inr rfl
  | false => exact .inl rfl

namespace Imports

/-- A call on the imports of a file. -/
inductive Call
  | declare (t : TypeName)
  | shadow (nested : TypeName)
  | reference (t : TypeName)
  | render (t : TypeName)
  | member (package name : String)

namespace Call

/-- The classes that are asked for. -/
def classes : Call → List TypeName
  | declare _ | shadow _ | member _ _ => []
  | reference t => [t]
  | render t => t.classes

/-- What a call does, with the classes that it asks for as they are written. -/
def run : Call → Naming (List Mention)
  | declare t => do Imports.declare t; return []
  | shadow t => do Imports.shadow t; return []
  | reference t => do return [⟨t, ← Imports.reference t⟩]
  | render t => do return List.zipWith Mention.mk t.classes (← Imports.render t).uses
  | member package name => do Imports.member package name; return []

end Call

/-- What a sequence of calls does, with all classes that are written. -/
def mentions : List Call → Naming (List Mention)
  | [] => return []
  | c :: cs => do
    let here ← c.run
    return here ++ (← mentions cs)

/-! ### One reference -/

/-- The classes that may be referred to: they are in a package, their simple names have no
dots, and the package is no class that a shadowed one is nested in. -/
structure Referable (calls : List Call) (t : TypeName) : Prop where
  no_dots : ∀ n ∈ t.simpleNames, '.' ∉ n.toList
  package_ne : t.package ≠ ""
  not_shadowed : ∀ s, .shadow s ∈ calls → 2 ≤ s.simpleNames.length →
    t.package ≠ s.enclosing.canonicalName

/-- The top-level class of the class is itself taken for one that is nested in the file. -/
def IsShadowed (calls : List Call) (t : TypeName) : Prop :=
  ∃ s, .shadow s ∈ calls ∧ s.simpleNames.length < 2 ∧ t.topLevelName = s.canonicalName

/-- Nothing is taken away: a name stays with its class, and what is imported stays imported. -/
structure Grows (i j : Imports) : Prop where
  package_eq : j.package = i.package
  claimed : ∀ {name owner : String}, i.claimed.lookup name = some owner →
    j.claimed.lookup name = some owner
  imported : i.imported ⊆ j.imported

/-- A class is found by its simple names: its package is visible, or it is imported. -/
def Finds (i : Imports) (t : TypeName) : Prop :=
  i.isVisible t.package = true ∨ t.topLevelName ∈ i.imported

/-- No name is imported twice, and a class that has claimed its name is found, unless the name was
claimed for it by a shadow. -/
structure Sound (package : String) (calls : List Call) (i : Imports) : Prop where
  package_eq : i.package = package
  nodup : i.imported.Nodup
  finds : ∀ t, Referable calls t → ¬ IsShadowed calls t →
    i.claimed.lookup t.outermost = some t.topLevelName → i.Finds t

/-- A class that was written by its simple names has claimed the outermost and is found. -/
structure Settled (calls : List Call) (i : Imports) (m : Mention) : Prop where
  refers : m.use.Refers m.type
  claimed : m.use.full = false → m.type.simpleNames ≠ [] →
    i.claimed.lookup m.type.outermost = some m.type.topLevelName
  found : m.use.full = false → m.type.simpleNames ≠ [] → ¬ IsShadowed calls m.type →
    i.Finds m.type

variable {package : String} {calls : List Call} {i j k : Imports} {t : TypeName} {m : Mention}

namespace Grows

theorem refl (i : Imports) : Grows i i :=
  ⟨rfl, id, fun _ => id⟩

theorem trans (hij : Grows i j) (hjk : Grows j k) : Grows i k :=
  ⟨hjk.package_eq.trans hij.package_eq, fun h => hjk.claimed (hij.claimed h),
    fun _ h => hjk.imported (hij.imported h)⟩

theorem finds (h : Grows i j) (hfinds : i.Finds t) : j.Finds t := by
  rcases hfinds with hvisible | himported
  · left
    rw [isVisible, h.package_eq]
    exact hvisible
  · exact .inr (h.imported himported)

/-- What has been written stays right. -/
theorem settled (h : Grows i j) (hm : Settled calls i m) : Settled calls j m :=
  ⟨hm.refers, fun hfull hnames => h.claimed (hm.claimed hfull hnames),
    fun hfull hnames hshadowed => h.finds (hm.found hfull hnames hshadowed)⟩

end Grows

theorem grows_claim (i : Imports) (name owner : String) : Grows i (i.claim name owner) := by
  refine ⟨?_, fun h => lookup_claim name owner h, ?_⟩
  · unfold claim
    split <;> rfl
  · unfold claim
    split <;> exact fun _ => id

theorem grows_add (i : Imports) (name : String) : Grows i (i.add name) := by
  refine ⟨?_, fun h => by rwa [claimed_add], ?_⟩
  · unfold add
    split <;> rfl
  · intro n hn
    unfold add
    split
    · exact hn
    · exact List.mem_append_left _ hn

theorem mem_imported_add (i : Imports) (name n : String) :
    n ∈ (i.add name).imported ↔ n ∈ i.imported ∨ n = name := by
  unfold add
  split
  · rename_i hname
    refine ⟨.inl, ?_⟩
    rintro (hn | rfl)
    · exact hn
    · exact hname
  · simp

theorem nodup_add (h : i.imported.Nodup) (name : String) : (i.add name).imported.Nodup := by
  unfold add
  split
  · exact h
  · rename_i hname
    refine List.Nodup.append h (List.nodup_singleton name) ?_
    simpa using hname

theorem imported_claim (i : Imports) (name owner : String) :
    (i.claim name owner).imported = i.imported := by
  unfold claim
  split <;> rfl

theorem add_claim (i : Imports) (name owner imported : String) :
    (i.claim name owner).add imported = (i.add imported).claim name owner := by
  cases hname : i.claimed.lookup name <;> by_cases h : imported ∈ i.imported <;>
    simp [add, claim, hname, h]

/-- A claim is the one that was there before, or the new one. -/
theorem lookup_claim_cases {name owner first o : String}
    (h : (i.claim name owner).claimed.lookup first = some o) :
    i.claimed.lookup first = some o ∨ first = name ∧ o = owner := by
  rw [lookup_claim_eq, Option.or_eq_some_iff] at h
  rcases h with hbefore | ⟨-, hnew⟩
  · exact .inl hbefore
  · obtain ⟨hfirst, howner⟩ := Option.ite_none_right_eq_some.1 hnew
    exact .inr ⟨hfirst, (Option.some.inj howner).symm⟩

/-- A claim is sound if the classes that it could stand for are found. -/
theorem Sound.claim {name owner : String} (h : Sound package calls i)
    (hfinds : ∀ t, Referable calls t → ¬ IsShadowed calls t → t.outermost = name →
      t.topLevelName = owner → i.Finds t) :
    Sound package calls (i.claim name owner) := by
  have hgrows := grows_claim i name owner
  refine ⟨hgrows.package_eq.trans h.package_eq, ?_,
    fun t ht hshadowed hclaimed => hgrows.finds ?_⟩
  · rw [imported_claim]
    exact h.nodup
  · rcases lookup_claim_cases hclaimed with hbefore | ⟨hname, howner⟩
    · exact h.finds t ht hshadowed hbefore
    · exact hfinds t ht hshadowed hname howner

theorem Sound.add (h : Sound package calls i) (name : String) :
    Sound package calls (i.add name) := by
  have hgrows := grows_add i name
  refine ⟨hgrows.package_eq.trans h.package_eq, nodup_add h.nodup name,
    fun t ht hshadowed hclaimed => ?_⟩
  rw [claimed_add] at hclaimed
  exact hgrows.finds (h.finds t ht hshadowed hclaimed)

/-- What a reference does, and how the class is written. -/
structure Referred (package : String) (calls : List Call) (t : TypeName) (i : Imports)
    (use : ClassUse) (j : Imports) : Prop where
  grows : Grows i j
  sound : Sound package calls j
  settled : Settled calls j ⟨t, use⟩
  imports : ∀ n ∈ j.imported, n ∈ i.imported ∨
    use.full = false ∧ t.simpleNames ≠ [] ∧ n = t.topLevelName

/-- Without a simple name there is nothing to claim. -/
theorem referred_of_unnamed (h : Sound package calls i) (hnames : t.simpleNames = []) :
    Referred package calls t i ⟨t.package, t.simpleNames, false⟩ i :=
  ⟨.refl i, h, ⟨⟨rfl, rfl⟩, fun _ hne => absurd hnames hne, fun _ hne => absurd hnames hne⟩,
    fun _ hn => .inl hn⟩

/-- Where the name has an owner, the class is written by it if the owner is its own, and then it
has been found before. -/
theorem referred_of_claimed (h : Sound package calls i) (ht : Referable calls t) {owner : String}
    (hclaimed : i.claimed.lookup t.outermost = some owner) :
    Referred package calls t i ⟨t.package, t.simpleNames, decide (owner ≠ t.topLevelName)⟩ i := by
  have hmine : decide (owner ≠ t.topLevelName) = false →
      i.claimed.lookup t.outermost = some t.topLevelName := by
    intro hfull
    have howner : owner = t.topLevelName := by simpa using hfull
    rw [hclaimed, howner]
  exact ⟨.refl i, h, ⟨⟨rfl, rfl⟩, fun hfull _ => hmine hfull,
    fun hfull _ hshadowed => h.finds t ht hshadowed (hmine hfull)⟩, fun _ hn => .inl hn⟩

theorem lookup_claim_self {name owner : String} (h : i.claimed.lookup name = none) :
    (i.claim name owner).claimed.lookup name = some owner := by
  rw [lookup_claim_eq, h, if_pos rfl, Option.none_or]

/-- A class of a visible package only claims its name. -/
theorem referred_of_visible (h : Sound package calls i) (ht : Referable calls t)
    (hnone : i.claimed.lookup t.outermost = none) (hvisible : i.isVisible t.package = true) :
    Referred package calls t i ⟨t.package, t.simpleNames, false⟩
      (i.claim t.outermost t.topLevelName) := by
  have hgrows := grows_claim i t.outermost t.topLevelName
  refine ⟨hgrows, h.claim fun u _ _ hname htop => .inl ?_,
    ⟨⟨rfl, rfl⟩, fun _ _ => lookup_claim_self hnone, fun _ _ _ => hgrows.finds (.inl hvisible)⟩,
    fun n hn => .inl ?_⟩
  · -- another class with this name and owner would be in the same package
    rw [TypeName.package_eq_of_topLevelName ht.package_ne hname.symm htop.symm]
    exact hvisible
  · rwa [imported_claim] at hn

/-- Any other class claims its name and is imported. -/
theorem referred_of_imported (h : Sound package calls i) (hne : t.simpleNames ≠ [])
    (hnone : i.claimed.lookup t.outermost = none) :
    Referred package calls t i ⟨t.package, t.simpleNames, false⟩
      ((i.claim t.outermost t.topLevelName).add t.topLevelName) := by
  have hin : t.topLevelName ∈ (i.add t.topLevelName).imported := by
    simp [mem_imported_add]
  have hgrows := grows_claim (i.add t.topLevelName) t.outermost t.topLevelName
  rw [add_claim]
  refine ⟨(grows_add i _).trans hgrows, (h.add _).claim fun u _ _ _ htop => .inr ?_,
    ⟨⟨rfl, rfl⟩, fun _ _ => lookup_claim_self ?_, fun _ _ _ => hgrows.finds (.inr hin)⟩,
    fun n hn => ?_⟩
  · rw [htop]
    exact hin
  · rwa [claimed_add]
  · rw [imported_claim, mem_imported_add] at hn
    exact hn.imp id fun hname => ⟨rfl, hne, hname⟩

theorem referred_reference (h : Sound package calls i) (ht : Referable calls t) :
    Referred package calls t i ((reference t).run i).1 ((reference t).run i).2 := by
  cases hnames : t.simpleNames with
  | nil =>
    rw [run_reference_unclaimed (.inl hnames)]
    exact referred_of_unnamed h hnames
  | cons first others =>
    have hne : t.simpleNames ≠ [] := hnames ▸ List.cons_ne_nil first others
    obtain rfl : t.outermost = first := by simp [TypeName.outermost, hnames]
    rw [run_reference hnames ht.package_ne]
    cases hclaimed : i.claimed.lookup t.outermost with
    | some owner => exact referred_of_claimed h ht hclaimed
    | none =>
      by_cases hvisible : i.isVisible t.package = true
      · simp only [hvisible, if_true]
        exact referred_of_visible h ht hclaimed hvisible
      · simp only [hvisible, Bool.false_eq_true, if_false]
        exact referred_of_imported h hne hclaimed

/-! ### One call -/

/-- What a computation does that asks for classes: nothing is taken away, and from a sound state
it comes to one that is right about all that has been written.  What is imported is a class
that has been written by its simple names, or a function. -/
structure Careful (package : String) (calls : List Call) (r : Naming (List Mention)) : Prop where
  grows : ∀ {i}, Sound package calls i → Grows i (r.run i).2
  sound : ∀ {i}, Sound package calls i → Sound package calls (r.run i).2
  settled : ∀ {i}, Sound package calls i → ∀ m ∈ (r.run i).1, Settled calls (r.run i).2 m
  imports : ∀ {i}, Sound package calls i → ∀ n ∈ (r.run i).2.imported, n ∈ i.imported ∨
    (∃ m ∈ (r.run i).1, m.use.full = false ∧ m.type.simpleNames ≠ [] ∧
      n = m.type.topLevelName) ∨
      ∃ p name, .member p name ∈ calls ∧ n = p ++ "." ++ name

theorem careful_pure : Careful package calls (pure []) :=
  ⟨fun _ => .refl _, id, fun _ _ hm => absurd hm List.not_mem_nil, fun _ _ hn => .inl hn⟩

/-- One computation after the other, with all that is written. -/
theorem Careful.append {r s : Naming (List Mention)} (hr : Careful package calls r)
    (hs : Careful package calls s) : Careful package calls (do
      let here ← r
      return here ++ (← s)) := by
  refine ⟨fun hi => (hr.grows hi).trans (hs.grows (hr.sound hi)),
    fun hi => hs.sound (hr.sound hi), ?_, ?_⟩
  · intro i hi m hm
    rcases List.mem_append.1 hm with hm | hm
    -- what the first has written is not changed by the second
    · exact (hs.grows (hr.sound hi)).settled (hr.settled hi m hm)
    · exact hs.settled (hr.sound hi) m hm
  · intro i hi n hn
    rcases hs.imports (hr.sound hi) n hn with hn | ⟨m, hm, hsimple⟩ | hmember
    · rcases hr.imports hi n hn with hn | ⟨m, hm, hsimple⟩ | hmember
      · exact .inl hn
      · exact .inr (.inl ⟨m, List.mem_append_left _ hm, hsimple⟩)
      · exact .inr (.inr hmember)
    · exact .inr (.inl ⟨m, List.mem_append_right _ hm, hsimple⟩)
    · exact .inr (.inr hmember)

/-- A class is asked for. -/
def mention (t : TypeName) : Naming Mention := do
  return ⟨t, ← reference t⟩

theorem careful_mentions {ts : List TypeName} (hts : ∀ t ∈ ts, Referable calls t) :
    Careful package calls (ts.mapM mention) := by
  induction ts with
  | nil => exact careful_pure
  | cons t ts ih =>
    obtain ⟨ht, hts⟩ := List.forall_mem_cons.1 hts
    have hone : Careful package calls (do return [← mention t]) := by
      refine ⟨fun hi => (referred_reference hi ht).grows,
        fun hi => (referred_reference hi ht).sound, ?_, ?_⟩
      · intro i hi m hm
        obtain rfl := List.mem_singleton.1 hm
        exact (referred_reference hi ht).settled
      · intro i hi n hn
        refine ((referred_reference hi ht).imports n hn).imp id fun h => .inl ?_
        exact ⟨_, List.mem_singleton_self _, h⟩
    rw [List.mapM_cons]
    exact hone.append (ih hts)

mutual

/-- A type is written class by class. -/
theorem uses_render : ∀ t : TypeName, TypeUse.uses <$> render t = t.classes.mapM reference
  | .mk package simpleNames arguments nullable => by
    rw [render, TypeName.classes, List.mapM_cons, ← uses_renderList arguments]
    simp [TypeUse.uses]

theorem uses_renderArgument : ∀ a : Option TypeName,
    TypeUse.usesOf <$> renderArgument a = (TypeName.classesOf a).mapM reference
  | none => by
    rw [renderArgument, TypeName.classesOf, List.mapM_nil]
    simp [TypeUse.usesOf]
  | some t => by
    rw [renderArgument, TypeName.classesOf, ← uses_render t]
    simp [TypeUse.usesOf]

theorem uses_renderList : ∀ as : List (Option TypeName),
    TypeUse.usesOfList <$> renderList as = (TypeName.classesOfList as).mapM reference
  | [] => by
    rw [renderList, TypeName.classesOfList, List.mapM_nil]
    simp [TypeUse.usesOfList]
  | a :: as => by
    rw [renderList, TypeName.classesOfList, List.mapM_append, ← uses_renderArgument a,
      ← uses_renderList as]
    simp [TypeUse.usesOfList]

end

theorem zip_mapM_reference (ts : List TypeName) :
    List.zipWith Mention.mk ts <$> ts.mapM reference = ts.mapM mention := by
  induction ts with
  | nil => simp
  | cons t ts ih =>
    rw [List.mapM_cons, List.mapM_cons, ← ih]
    simp [mention]

theorem run_render (t : TypeName) : (Call.render t).run = t.classes.mapM mention := by
  rw [← zip_mapM_reference, ← uses_render]
  simp [Call.run]

theorem careful_modify {f : Imports → Imports}
    (hgrows : ∀ i, Grows i (f i)) (hsound : ∀ {i}, Sound package calls i →
      Sound package calls (f i))
    (himports : ∀ i, ∀ n ∈ (f i).imported, n ∈ i.imported ∨
      ∃ p name, .member p name ∈ calls ∧ n = p ++ "." ++ name) :
    Careful package calls (do modify f; return []) :=
  ⟨fun _ => hgrows _, hsound, fun _ _ hm => absurd hm List.not_mem_nil,
    fun _ n hn => (himports _ n hn).imp id .inr⟩

theorem careful_declare (ht : t.package = package) :
    Careful package calls (Call.declare t).run := by
  rcases hnames : t.simpleNames with _ | ⟨first, others⟩
  · have hrun : (Call.declare t).run = pure [] := by simp [Call.run, declare, hnames]
    rw [hrun]
    exact careful_pure
  · have hrun : (Call.declare t).run = do
        modify fun i => i.claim first t.topLevelName
        return [] := by simp [Call.run, declare, hnames]
    rw [hrun]
    refine careful_modify (fun i => grows_claim i _ _) ?_ fun i n hn => .inl ?_
    · -- a class that the name is claimed for is in the file's own package
      intro i hi
      refine hi.claim fun u hu _ hname htop => .inl ?_
      have houtermost : t.outermost = first := by simp [TypeName.outermost, hnames]
      have hpackage : t.package = u.package :=
        TypeName.package_eq_of_topLevelName hu.package_ne (hname.trans houtermost.symm) htop
      simp [isVisible, hi.package_eq, ← hpackage, ht]
    · rwa [imported_claim] at hn

theorem careful_shadow (hcall : .shadow t ∈ calls) :
    Careful package calls (Call.shadow t).run := by
  refine careful_modify (fun i => grows_claim i _ _) ?_ fun i n hn => .inl ?_
  · intro i hi
    refine hi.claim fun u hu hshadowed hname htop => ?_
    by_cases hnested : 2 ≤ t.simpleNames.length
    · -- only a class in a package that is the enclosing class could be meant
      exfalso
      refine hu.not_shadowed t hcall hnested ?_
      have htop : qualify u.package t.simpleName = t.canonicalName := hname ▸ htop
      rw [TypeName.canonicalName_of_nested hnested, qualify, if_neg hu.package_ne] at htop
      have hlist := congrArg String.toList htop
      simp only [String.toList_append] at hlist
      exact String.toList_inj.1 (List.append_cancel_right (List.append_cancel_right hlist))
    · exact absurd ⟨t, hcall, Nat.lt_of_not_le hnested, htop⟩ hshadowed
  · rwa [imported_claim] at hn

theorem careful_member {p name : String} (hcall : .member p name ∈ calls) :
    Careful package calls (Call.member p name).run := by
  refine careful_modify (fun i => ?_) (fun {i} hi => ?_) (fun i n hn => ?_)
  · split
    · exact .refl i
    · exact grows_add i _
  · split
    · exact hi
    · exact hi.add _
  · split at hn
    · exact .inl hn
    · exact ((mem_imported_add _ _ _).1 hn).imp id fun h => ⟨p, name, hcall, h⟩

/-- The calls of a file: it declares classes of its own package, and refers to classes that may
be referred to. -/
structure OfFile (package : String) (calls : List Call) : Prop where
  declared : ∀ t, .declare t ∈ calls → t.package = package
  referred : ∀ c ∈ calls, ∀ t ∈ c.classes, Referable calls t

theorem careful_call (h : OfFile package calls) {c : Call} (hc : c ∈ calls) :
    Careful package calls c.run := by
  cases c with
  | declare t => exact careful_declare (h.declared t hc)
  | shadow t => exact careful_shadow hc
  | reference t =>
    have ht : ∀ u ∈ [t], Referable calls u := h.referred _ hc
    exact careful_mentions ht
  | render t =>
    rw [run_render]
    exact careful_mentions (h.referred _ hc)
  | member p name => exact careful_member hc

theorem careful_calls (h : OfFile package calls) {cs : List Call} (hcs : cs ⊆ calls) :
    Careful package calls (mentions cs) := by
  induction cs with
  | nil => exact careful_pure
  | cons c cs ih =>
    obtain ⟨hc, hcs⟩ := List.cons_subset.1 hcs
    exact (careful_call h hc).append (ih hcs)

theorem types_mapM_mention (ts : List TypeName) (i : Imports) :
    ((ts.mapM mention).run i).1.map (·.type) = ts := by
  induction ts generalizing i with
  | nil => rfl
  | cons t ts ih =>
    rw [List.mapM_cons]
    exact congrArg (t :: ·) (ih _)

theorem run_mentions_append (before after : List Call) (i : Imports) :
    ((mentions (before ++ after)).run i).2 =
      ((mentions after).run ((mentions before).run i).2).2 := by
  induction before generalizing i with
  | nil => rfl
  | cons c before ih => exact ih _

/-- All classes that are asked for are written, in their order. -/
theorem types_mentions (cs : List Call) (i : Imports) :
    ((mentions cs).run i).1.map (·.type) = cs.flatMap Call.classes := by
  induction cs generalizing i with
  | nil => rfl
  | cons c cs ih =>
    have hhere : (c.run.run i).1.map (·.type) = c.classes := by
      cases c with
      | render t =>
        rw [run_render]
        exact types_mapM_mention t.classes i
      | _ => rfl
    have hrun : ((mentions (c :: cs)).run i).1 =
        (c.run.run i).1 ++ ((mentions cs).run (c.run.run i).2).1 := rfl
    rw [hrun, List.map_append, hhere, ih, List.flatMap_cons]

/-! ### The end of a file -/

theorem mem_lines {name : String} : name ∈ i.lines ↔ name ∈ i.imported :=
  List.mem_mergeSort

theorem pairwise_lines (h : i.imported.Nodup) : i.lines.Pairwise (· < ·) := by
  have hsorted : i.lines.Pairwise fun a b => (!decide (b < a)) = true := by
    refine List.pairwise_mergeSort ?_ ?_ _
    · simp only [Bool.not_eq_true', decide_eq_false_iff_not, not_lt]
      exact fun a b c => le_trans
    · simp only [Bool.or_eq_true, Bool.not_eq_true', decide_eq_false_iff_not, not_lt]
      exact fun a b => le_total a b
  have hnodup : i.lines.Nodup := (List.mergeSort_perm _ _).nodup_iff.2 h
  refine (hsorted.and hnodup).imp fun {a b} hab => ?_
  have hle : ¬ b < a := by simpa only [Bool.not_eq_true', decide_eq_false_iff_not] using hab.1
  exact lt_of_le_of_ne (not_lt.1 hle) hab.2

theorem isSimple_iff (h : Settled calls i m) (hpackage : m.type.package ≠ "") :
    m.IsSimple ↔ m.use.full = false := by
  rw [h.refers.isSimple_iff, or_iff_right hpackage]

/-- The name is that of a class that was written by its simple names. -/
def NamesWritten (written : List Mention) (name : String) : Prop :=
  ∃ m ∈ written, m.type.simpleNames ≠ [] ∧ m.IsSimple ∧ m.type.topLevelName = name

/-- All that was written is right about the imports in the end. -/
structure Consistent (package : String) (calls : List Call) (written : List Mention)
    (i : Imports) : Prop where
  /-- the classes that were asked for, in their order -/
  types : written.map (·.type) = calls.flatMap Call.classes
  /-- each is written in full or by its simple names -/
  form : ∀ m ∈ written, m.use.display = m.type.canonicalName ∨ m.IsSimple
  /-- no two classes are written by the same simple names -/
  unique : ∀ m ∈ written, ∀ n ∈ written, m.type.simpleNames ≠ [] → n.type.simpleNames ≠ [] →
    m.IsSimple → n.IsSimple → m.use.display = n.use.display →
      m.type.canonicalName = n.type.canonicalName
  /-- a class that is written by its simple names is found, unless it was taken for one that is
  nested in the file -/
  found : ∀ m ∈ written, m.type.simpleNames ≠ [] → ¬ IsShadowed calls m.type → m.IsSimple →
    m.type.topLevelName ∈ i.lines ∨ m.type.package = package ∨ m.type.package ∈ implicitPackages
  /-- every import is that of a class that is written so, or of a function -/
  imports : ∀ name ∈ i.lines, NamesWritten written name ∨
    ∃ p f, .member p f ∈ calls ∧ name = p ++ "." ++ f
  /-- no two imported classes share the last segment -/
  distinct : ∀ a ∈ i.lines, ∀ b ∈ i.lines, NamesWritten written a → NamesWritten written b →
    TypeRef.lastSegment a = TypeRef.lastSegment b → a = b
  /-- the imports are sorted, each there once -/
  sorted : i.lines.Pairwise (· < ·)

/-- Settled classes that share the outermost simple name are of one top-level class. -/
theorem topLevelName_eq {n : Mention} (hm : Settled calls i m) (hn : Settled calls i n)
    (hmsimple : m.use.full = false) (hnsimple : n.use.full = false)
    (hmnames : m.type.simpleNames ≠ []) (hnnames : n.type.simpleNames ≠ [])
    (houtermost : m.type.outermost = n.type.outermost) :
    m.type.topLevelName = n.type.topLevelName := by
  have hclaimed := hm.claimed hmsimple hmnames
  rw [houtermost, hn.claimed hnsimple hnnames] at hclaimed
  exact (Option.some.inj hclaimed).symm

theorem lastSegment_topLevelName (ht : Referable calls t) (hne : t.simpleNames ≠ []) :
    TypeRef.lastSegment t.topLevelName = t.outermost := by
  refine lastSegment_qualify ht.package_ne (ht.no_dots _ ?_)
  obtain ⟨first, others, hnames⟩ := List.exists_cons_of_ne_nil hne
  simp [hnames]

/-- Settled classes that are written by the same simple names are one class. -/
theorem canonicalName_eq {n : Mention} (hm : Settled calls i m) (hn : Settled calls i n)
    (hmtype : Referable calls m.type) (hntype : Referable calls n.type)
    (hmsimple : m.use.full = false) (hnsimple : n.use.full = false)
    (hmnames : m.type.simpleNames ≠ []) (hnnames : n.type.simpleNames ≠ [])
    (hform : m.type.simpleForm = n.type.simpleForm) :
    m.type.canonicalName = n.type.canonicalName := by
  have hnames : m.type.simpleNames = n.type.simpleNames := by
    have hdotted := congrArg dotted hform
    unfold TypeName.simpleForm at hdotted
    rwa [dotted_intercalate hmnames hmtype.no_dots,
      dotted_intercalate hnnames hntype.no_dots] at hdotted
  have houtermost : m.type.outermost = n.type.outermost := by
    simp [TypeName.outermost, hnames]
  have hpackage : n.type.package = m.type.package :=
    TypeName.package_eq_of_topLevelName hmtype.package_ne houtermost
      (topLevelName_eq hm hn hmsimple hnsimple hmnames hnnames houtermost)
  simp [TypeName.canonicalName, hnames, hpackage]

theorem sound_start (package : String) (calls : List Call) :
    Sound package calls (.start package) := by
  refine ⟨rfl, List.nodup_nil, fun t _ _ hclaimed => ?_⟩
  simp [start] at hclaimed

/-- Classes that are settled in a sound state are written right there. -/
theorem consistent_of_settled {written : List Mention} (hsound : Sound package calls i)
    (htypes : written.map (·.type) = calls.flatMap Call.classes)
    (hreferable : ∀ m ∈ written, Referable calls m.type)
    (hsettled : ∀ m ∈ written, Settled calls i m)
    (himports : ∀ name ∈ i.lines, NamesWritten written name ∨
      ∃ p f, .member p f ∈ calls ∧ name = p ++ "." ++ f) : Consistent package calls written i := by
  have hsimple : ∀ m ∈ written, m.IsSimple ↔ m.use.full = false := fun m hm =>
    isSimple_iff (hsettled m hm) (hreferable m hm).package_ne
  refine ⟨htypes, ?_, ?_, ?_, himports, ?_, pairwise_lines hsound.nodup⟩
  · exact fun m hm => (hsettled m hm).refers.form.symm
  · intro m hm n hn hmnames hnnames hmsimple hnsimple hdisplay
    have hform : m.type.simpleForm = n.type.simpleForm :=
      hmsimple.symm.trans (hdisplay.trans hnsimple)
    exact canonicalName_eq (hsettled m hm) (hsettled n hn) (hreferable m hm) (hreferable n hn)
      ((hsimple m hm).1 hmsimple) ((hsimple n hn).1 hnsimple) hmnames hnnames hform
  · intro m hm hmnames hshadowed hmsimple
    rcases (hsettled m hm).found ((hsimple m hm).1 hmsimple) hmnames hshadowed with
      hvisible | himported
    · right
      simpa [isVisible, hsound.package_eq] using hvisible
    · exact .inl (mem_lines.2 himported)
  · rintro a - b - ⟨m, hm, hmnames, hmsimple, rfl⟩ ⟨n, hn, hnnames, hnsimple, rfl⟩ hlast
    rw [lastSegment_topLevelName (hreferable m hm) hmnames,
      lastSegment_topLevelName (hreferable n hn) hnnames] at hlast
    exact topLevelName_eq (hsettled m hm) (hsettled n hn) ((hsimple m hm).1 hmsimple)
      ((hsimple n hn).1 hnsimple) hmnames hnnames hlast

/-- **A simple name stands for one class.**  Whatever calls are made on the imports of a file,
in whatever order: what was written stays right, and a simple name that has been claimed at any
time stays with its owner.  Nothing is said of a class without simple names, and a class that was
itself taken for one that is nested in the file need not be found
(`shadowed_unfound_and_unnamed_alike`). -/
theorem consistent_after_calls {written : List Mention} {final : Imports}
    (h : OfFile package calls) (hrun : (mentions calls).run (.start package) = (written, final)) :
    Consistent package calls written final ∧
    ∀ before after, calls = before ++ after → ∀ name owner,
      ((mentions before).run (.start package)).2.claimed.lookup name = some owner →
        final.claimed.lookup name = some owner := by
  have hstart := sound_start package calls
  have hcalls : Careful package calls (mentions calls) := careful_calls h (List.Subset.refl _)
  have hwritten : written = ((mentions calls).run (.start package)).1 := by rw [hrun]
  have hfinal : final = ((mentions calls).run (.start package)).2 := by rw [hrun]
  have htypes : written.map (·.type) = calls.flatMap Call.classes := by
    rw [hwritten, types_mentions]
  have hsettled : ∀ m ∈ written, Settled calls final m := by
    subst hwritten hfinal
    exact hcalls.settled hstart
  have hreferable : ∀ m ∈ written, Referable calls m.type := by
    intro m hm
    have hmem : m.type ∈ calls.flatMap Call.classes := htypes ▸ List.mem_map_of_mem hm
    obtain ⟨c, hc, hclass⟩ := List.mem_flatMap.1 hmem
    exact h.referred c hc _ hclass
  refine ⟨consistent_of_settled (hfinal ▸ hcalls.sound hstart) htypes hreferable hsettled
    fun name hname => ?_, ?_⟩
  · -- nothing is imported before the first call
    rw [mem_lines, hfinal] at hname
    rcases hcalls.imports hstart name hname with hbefore | ⟨m, hm, hfull, hnames, htop⟩ | hmember
    · exact absurd hbefore List.not_mem_nil
    · rw [← hwritten] at hm
      have hsimple := isSimple_iff (hsettled m hm) (hreferable m hm).package_ne
      exact .inl ⟨m, hm, hnames, hsimple.2 hfull, htop.symm⟩
    · exact .inr hmember
  · rintro before after rfl name owner hclaimed
    rw [hfinal, run_mentions_append]
    have hbefore := (careful_calls h (List.subset_append_left before after)).sound hstart
    exact ((careful_calls h (List.subset_append_right before after)).grows hbefore).claimed hclaimed

/-! ### A union with a variant called like a class -/

/-- The calls of a file with a union: the name of a variant is taken, so that a class from
elsewhere is written in full, and of two classes of one name the first is imported. -/
def streetCalls : List Call :=
  [.declare (.simple "com.acme" "UserFieldFailure"),
    .shadow (.mk "com.acme" ["UserFieldFailure", "Street"] [] false),
    .reference (.simple "com.other" "Street"),
    .render (.mk "arrow.core" ["Option"]
      [some (.mk "com.other" ["Address", "Line"] [] true)] false),
    .reference (.simple "com.acme" "Address"),
    .render (.mk "kotlin" ["Pair"] [some (.simple "com.other" "Address"), none] true),
    .member "arrow.core" "toNonEmptyListOrNull"]

theorem ofFile_streetCalls : OfFile "com.acme" streetCalls := by
  have hreferable : ∀ t : TypeName, (∀ n ∈ t.simpleNames, '.' ∉ n.toList) →
      t.package ≠ "" → t.package ≠ "com.acme.UserFieldFailure" → Referable streetCalls t := by
    intro t hdots hpackage hne
    have hshadowed : ∀ s, .shadow s ∈ streetCalls →
        s = .mk "com.acme" ["UserFieldFailure", "Street"] [] false := by
      intro s hs
      simpa [streetCalls] using hs
    refine ⟨hdots, hpackage, fun s hs _ => ?_⟩
    rw [hshadowed s hs]
    exact hne
  refine ⟨fun t ht => ?_, fun c hc t ht => ?_⟩
  · simp only [streetCalls, List.mem_cons, reduceCtorEq, Call.declare.injEq, List.not_mem_nil,
      or_false] at ht
    subst ht
    rfl
  · have hmem : t ∈ streetCalls.flatMap Call.classes := List.mem_flatMap.2 ⟨c, hc, ht⟩
    simp only [streetCalls, List.flatMap_cons, Call.classes, TypeName.simple, TypeName.classes,
      TypeName.classesOf, TypeName.classesOfList, List.nil_append, List.append_nil,
      List.cons_append, List.flatMap_nil, List.mem_cons, List.not_mem_nil, or_false] at hmem
    rcases hmem with rfl | rfl | rfl | rfl | rfl | rfl <;>
      exact hreferable _ (by decide) (by decide) (by decide)

theorem consistent_after_calls_street :
    OfFile "com.acme" streetCalls ∧
    ∃ written final, (mentions streetCalls).run (.start "com.acme") = (written, final) ∧
      written.map (·.use.display) = ["com.other.Street", "Option", "Address.Line",
        "com.acme.Address", "Pair", "Address"] ∧
      final.imported = ["arrow.core.Option", "com.other.Address",
        "arrow.core.toNonEmptyListOrNull"] ∧
      Consistent "com.acme" streetCalls written final := by
  refine ⟨ofFile_streetCalls, _, _, rfl, by decide +kernel, by decide +kernel, ?_⟩
  exact (consistent_after_calls ofFile_streetCalls rfl).1

/-! ### Classes that are not found

A class from another package is taken for one that is nested in the file, and two classes have no
simple names. -/

def shadowedCalls : List Call :=
  [.shadow (.simple "com.other" "Street"), .reference (.simple "com.other" "Street")]

def unnamedCalls : List Call :=
  [.reference (.mk "x.y" [] [] false), .reference (.mk "p.q" [] [] false)]

theorem ofFile_shadowedCalls : OfFile "com.acme" shadowedCalls := by
  refine ⟨fun t ht => by simp [shadowedCalls] at ht, fun c hc t ht => ?_⟩
  have hmem : t ∈ shadowedCalls.flatMap Call.classes := List.mem_flatMap.2 ⟨c, hc, ht⟩
  obtain rfl : t = .simple "com.other" "Street" := by
    simpa [shadowedCalls, Call.classes] using hmem
  refine ⟨by decide, by decide, fun s hs hnested => ?_⟩
  obtain rfl : s = .simple "com.other" "Street" := by simpa [shadowedCalls] using hs
  exact absurd hnested (by decide)

theorem ofFile_unnamedCalls : OfFile "com.acme" unnamedCalls := by
  refine ⟨fun t ht => by simp [unnamedCalls] at ht, fun c hc t ht => ?_⟩
  have hmem : t ∈ unnamedCalls.flatMap Call.classes := List.mem_flatMap.2 ⟨c, hc, ht⟩
  have hnone : ∀ s, .shadow s ∉ unnamedCalls := fun s hs => by simp [unnamedCalls] at hs
  simp only [unnamedCalls, Call.classes, List.flatMap_cons, List.flatMap_nil, List.append_nil,
    List.cons_append, List.nil_append, List.mem_cons, List.not_mem_nil, or_false] at hmem
  rcases hmem with rfl | rfl
  · exact ⟨by decide, by decide, fun s hs => absurd hs (hnone s)⟩
  · exact ⟨by decide, by decide, fun s hs => absurd hs (hnone s)⟩

/-- The first class is written by its simple name, and nothing is imported although it is in
another package; the other two are both written as nothing. -/
theorem shadowed_unfound_and_unnamed_alike :
    (OfFile "com.acme" shadowedCalls ∧
      ∃ m final, (mentions shadowedCalls).run (.start "com.acme") = ([m], final) ∧
        m.IsSimple ∧ m.use.display = "Street" ∧ m.type.canonicalName = "com.other.Street" ∧
        final.lines = [] ∧ m.type.package ≠ "com.acme" ∧ m.type.package ∉ implicitPackages) ∧
    (OfFile "com.acme" unnamedCalls ∧
      ∃ m n final, (mentions unnamedCalls).run (.start "com.acme") = ([m, n], final) ∧
        m.IsSimple ∧ n.IsSimple ∧ m.use.display = n.use.display ∧
        m.type.canonicalName ≠ n.type.canonicalName) := by
  refine ⟨⟨ofFile_shadowedCalls, ⟨.simple "com.other" "Street", ⟨"com.other", ["Street"], false⟩⟩,
    ⟨"com.acme", [("Street", "com.other.Street")], []⟩, rfl, rfl, ?_⟩, ofFile_unnamedCalls,
    ⟨.mk "x.y" [] [] false, ⟨"x.y", [], false⟩⟩, ⟨.mk "p.q" [] [] false, ⟨"p.q", [], false⟩⟩,
    .start "com.acme", rfl, rfl, rfl, ?_⟩
  · exact ⟨by decide, by decide, by simp [lines], by decide, by decide⟩
  · exact ⟨by decide, by decide⟩

end Imports

end Kotlin

end ModelForge
