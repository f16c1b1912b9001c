/-
The laws of substitution.

Where the parameters of a type are replaced by types with parameters of their own, these may be
replaced in turn.  Two substitutions, one after the other, come to a single one:

* `TypeRef.Bindings.followedBy` — the bindings of the single one: what the first substitution puts
  in is rewritten by the second, and names that the first leaves are left to the second;
* `substitute_orNullable` — a mark of nullability may be put on before a substitution or after it;
* `substitute_followedBy` — the composition, by recursion on the type and its arguments.

A substitution is simultaneous and keeps the shape of the type:

* `TypeRef.part?` — the reference at a position, given by the arguments that lead to it;
* `TypeRef.Replaced` — what becomes of a reference: a parameter gives way to the very type that is
  bound to it, and a name that is applied keeps its arguments, with their variances and stars.

The main statement is `substitute_substitute`.
-/
import ModelForge.TypeRef

namespace ModelForge

/-- The variance of an argument, none for a star. -/
def TypeArgument.variance? : TypeArgument → Option Variance
  | .star => none
  | .type variance _ => some variance

namespace TypeRef

/-- The bindings of one substitution after another. -/
def Bindings.followedBy (first second : Bindings) : Bindings := fun name =>
  match first name with
  | some bound => some (bound.substitute second)
  | none => second name

/-- The reference at a position, which lists the arguments to go into, the outermost first. -/
def part? : TypeRef → List Nat → Option TypeRef
  | t, [] => some t
  | t, i :: position => (t.argument? i).bind (part? · position)

/-- What becomes of a reference where the bound names are replaced. -/
structure Replaced (bindings : Bindings) (ref ref' : TypeRef) : Prop where
  /-- a parameter gives way to what is bound to it, in which nothing is replaced -/
  bound : ref.arguments = [] → ∀ type, bindings ref.name = some type →
    ref' = type.orNullable ref.nullable
  free : ref.arguments = [] → bindings ref.name = none → ref' = ref
  /-- a name that is applied is no parameter, whatever is bound to it -/
  applied : ref.arguments ≠ [] → ref'.name = ref.name ∧ ref'.nullable = ref.nullable ∧
    ref'.arguments.map TypeArgument.variance? = ref.arguments.map TypeArgument.variance?

variable {bindings first second : Bindings}

/-! ### Composition -/

theorem orNullable_orNullable (t : TypeRef) (a b : Bool) :
    (t.orNullable a).orNullable b = t.orNullable (a || b) :=
  TypeRef.ext rfl rfl (Bool.or_assoc _ _ _)

/-- The mark of a parameter's use is put on what takes the parameter's place. -/
theorem substitute_orNullable (t : TypeRef) (b : Bool) :
    (t.orNullable b).substitute bindings = (t.substitute bindings).orNullable b := by
  obtain ⟨name, arguments, nullable⟩ := t
  cases arguments with
  | nil =>
    show (mk name [] (nullable || b)).substitute bindings = _
    rw [substitute, substitute]
    cases bindings name with
    | none => rfl
    | some bound => exact (orNullable_orNullable bound nullable b).symm
  | cons a as => rfl

mutual

theorem substitute_followedBy : ∀ t : TypeRef,
    (t.substitute first).substitute second = t.substitute (first.followedBy second)
  | mk name [] nullable => by
    rw [substitute, substitute, Bindings.followedBy]
    cases first name with
    | none => rw [substitute]
    | some bound => exact substitute_orNullable bound nullable
  | mk name (a :: as) nullable => by
    rw [substitute, substitute, substitute, substituteArgument_followedBy a,
      substituteList_followedBy as]

theorem substituteArgument_followedBy : ∀ a : TypeArgument,
    substituteArgument second (substituteArgument first a) =
      substituteArgument (first.followedBy second) a
  | .star => rfl
  | .type _ ref => by
    rw [substituteArgument, substituteArgument, substituteArgument, substitute_followedBy ref]

theorem substituteList_followedBy : ∀ as : List TypeArgument,
    substituteList second (substituteList first as) = substituteList (first.followedBy second) as
  | [] => rfl
  | a :: as => by
    rw [substituteList, substituteList, substituteList, substituteArgument_followedBy a,
      substituteList_followedBy as]

end

theorem followedBy_assoc (first second third : Bindings) :
    (first.followedBy second).followedBy third = first.followedBy (second.followedBy third) := by
  funext name
  simp only [Bindings.followedBy]
  cases first name with
  | none => rfl
  | some bound => exact congrArg some (substitute_followedBy bound)

/-! ### Shape -/

theorem substituteList_eq_map : ∀ as : List TypeArgument,
    substituteList bindings as = as.map (substituteArgument bindings)
  | [] => rfl
  | a :: as => by rw [substituteList, substituteList_eq_map as, List.map_cons]

theorem substitute_of_ne_nil {name : String} {arguments : List TypeArgument} {nullable : Bool}
    (h : arguments ≠ []) : (mk name arguments nullable).substitute bindings =
      mk name (arguments.map (substituteArgument bindings)) nullable := by
  cases arguments with
  | nil => exact absurd rfl h
  | cons a as => rw [substitute, substituteList_eq_map, List.map_cons]

theorem variance?_substituteArgument (a : TypeArgument) :
    (substituteArgument bindings a).variance? = a.variance? := by
  cases a with
  | star => rfl
  | type variance ref => rfl

theorem replaced_substitute (ref : TypeRef) : ref.Replaced bindings (ref.substitute bindings) := by
  obtain ⟨name, arguments, nullable⟩ := ref
  refine ⟨?_, ?_, fun happlied => ?_⟩
  · rintro rfl type hbound
    rw [substitute, show bindings name = some type from hbound]
    rfl
  · rintro rfl hfree
    rw [substitute, show bindings name = none from hfree]
  · have hne : arguments ≠ [] := happlied
    rw [substitute_of_ne_nil hne]
    refine ⟨rfl, rfl, ?_⟩
    rw [arguments_mk, arguments_mk, List.map_map]
    exact List.map_congr_left fun a _ => variance?_substituteArgument a

theorem argument?_substitute {t ref : TypeRef} {i : Nat} (h : t.argument? i = some ref) :
    (t.substitute bindings).argument? i = some (ref.substitute bindings) := by
  obtain ⟨name, arguments, nullable⟩ := t
  have hne : arguments ≠ [] := by
    rintro rfl
    cases h
  rw [substitute_of_ne_nil hne]
  unfold argument? at h ⊢
  rw [arguments_mk] at h ⊢
  rw [List.getElem?_map]
  -- a position at which no type is passed has been ruled out by `h`
  cases harg : arguments[i]? with
  | none => simp [harg] at h
  | some a =>
    cases a with
    | star => simp [harg] at h
    | type variance ref' =>
      obtain rfl : ref' = ref := by simpa [harg] using h
      rfl

/-- What is at a position is replaced there. -/
theorem part?_substitute (position : List Nat) : ∀ {t ref : TypeRef},
    t.part? position = some ref →
      (t.substitute bindings).part? position = some (ref.substitute bindings) := by
  induction position with
  | nil =>
    rintro t ref ⟨⟩
    rfl
  | cons i position ih =>
    intro t ref h
    obtain ⟨argument, hargument, hpart⟩ := Option.bind_eq_some_iff.1 h
    exact Option.bind_eq_some_iff.2 ⟨_, argument?_substitute hargument, ih hpart⟩

/-- **Substitutions compose.**  One substitution after another is the one that binds what the first
binds to the type rewritten by the second, and what only the second binds to its type.  Marks of
nullability add up, in any grouping, and so do three substitutions.  Each substitution works at
all positions at once: a reference of the type is found at its position again, where a parameter has
given way to the type bound to it as it is, and a name that is applied has kept its nullability and
the variances and stars of its arguments. -/
theorem substitute_substitute (t : TypeRef) (first second : Bindings) :
    (t.substitute first).substitute second = t.substitute (first.followedBy second) ∧
    (∀ third, (first.followedBy second).followedBy third =
      first.followedBy (second.followedBy third)) ∧
    (∀ a b, ((t.orNullable a).orNullable b).substitute first =
      (t.substitute first).orNullable (a || b)) ∧
    ∀ position ref, t.part? position = some ref →
      ∃ ref', (t.substitute first).part? position = some ref' ∧ ref.Replaced first ref' := by
  refine ⟨substitute_followedBy t, followedBy_assoc first second, fun a b => ?_, ?_⟩
  · rw [orNullable_orNullable, substitute_orNullable]
  · intro position ref hpart
    exact ⟨_, part?_substitute position hpart, replaced_substitute ref⟩

/-! ### A table

The first substitution binds `K` to a type with `V` in it and `V` to `K`, which stays as it is until
the second one. -/

namespace Sample

/-- A table with `in K` and `V?` and a star. -/
def table : TypeRef :=
  .mk "Table" [.type .contravariant (.named "K"), .type .covariant (.mk "V" [] true), .star] false

def swap : Bindings :=
  .ofList [("K", .mk "Box" [.type .invariant (.named "V")] false), ("V", .named "K")]

def fill : Bindings :=
  .ofList [("K", .mk "Int" [] true), ("V", .named "String")]

end Sample

open ModelForge.TypeRef.Sample

theorem substitute_substitute_table :
    (table.substitute swap).substitute fill = table.substitute (swap.followedBy fill) ∧
    (table.substitute (swap.followedBy fill)).display = "Table<in Box<String>, out Int?, *>" ∧
    table.part? [1] = some (.mk "V" [] true) ∧
    (table.substitute swap).part? [1] = some (.mk "K" [] true) := by
  obtain ⟨hcompose, -, -, hparts⟩ := substitute_substitute table swap fill
  have hpart : table.part? [1] = some (.mk "V" [] true) := by rfl
  obtain ⟨ref', hpart', hreplaced⟩ := hparts [1] _ hpart
  obtain rfl : ref' = .mk "K" [] true := hreplaced.bound rfl _ rfl
  exact ⟨hcompose, by rfl, hpart, hpart'⟩

end TypeRef

end ModelForge
