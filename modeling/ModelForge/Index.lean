/-
The index of all declarations.

A `DeclarationIndex` holds declarations in the order in which they were loaded, each with the
path it came from, and finds them by qualified name. Nested classes are entered on their own,
before the class they are nested in, under the outer name, a dot and their own name, in the
outer class's package.

* `ClassDecl.flatten` — a class with everything nested in it, as it is entered;
* `DeclarationIndex.insert` refuses a name that is there already;
* `DeclarationIndex.build` enters whole files, `addFile` keeps what it entered before a
  refusal;
* `DeclarationIndex.resolve` says what a name means in a scope.
-/
import ModelForge.Problem

namespace ModelForge

namespace ClassDecl

/-- The class under another name and in another package. -/
def renamed (c : ClassDecl) (package name : String) : ClassDecl :=
  { c with package := package, name := name }

/-- The class without what is nested in it. -/
def shallow (c : ClassDecl) : ClassDecl :=
  { c with nested := [] }

/-- The nested classes under the names they are entered by, without what is nested in them. -/
def shallowNested (package outer : String) (nested : List ClassDecl) : List ClassDecl :=
  nested.map fun c => (c.renamed package (outer ++ "." ++ c.name)).shallow

mutual

/-- What is entered for a class that goes by the given package and name. -/
def flattenAs (package name : String) : ClassDecl → List ClassDecl
  | ⟨_, _, kind, typeParameters, superTypes, annotations, properties, companion, nested, isPrivate,
      location⟩ =>
    flattenNested package name nested ++
      [⟨package, name, kind, typeParameters, superTypes, annotations, properties, companion,
        shallowNested package name nested, isPrivate, location⟩]

/-- What is entered for the classes nested in the class of this package and name. -/
def flattenNested (package outer : String) : List ClassDecl → List ClassDecl
  | [] => []
  | c :: cs =>
    flattenAs package (outer ++ "." ++ c.name) c ++ flattenNested package outer cs

end

/-- What is entered for a top-level class: all nested classes, then the class itself. -/
def flatten (c : ClassDecl) : List ClassDecl :=
  c.flattenAs c.package c.name

end ClassDecl

/-- What is entered for a declaration. -/
def Declaration.flatten : Declaration → List Declaration
  | ofClass c => c.flatten.map ofClass
  | ofAlias a => [ofAlias a]

/-- A declaration with the path it came from. -/
structure IndexEntry where
  declaration : Declaration
  origin : String
deriving Repr, Inhabited

/-- The name an entry is found by. -/
def IndexEntry.name (e : IndexEntry) : String :=
  e.declaration.qualifiedName

/-- All declarations in load order. -/
structure DeclarationIndex where
  entries : List IndexEntry
deriving Repr, Inhabited

/-- What a name in a type reference refers to. -/
inductive Referent
  /-- a type parameter of the scope, by its position -/
  | typeParameter (index : Nat)
  | ofClass (decl : ClassDecl)
  | ofAlias (decl : AliasDecl)
  /-- not declared here, such as a class of a library -/
  | external

namespace DeclarationIndex

/-- The index without declarations. -/
def empty : DeclarationIndex := ⟨[]⟩

/-- The number of declarations. -/
def size (idx : DeclarationIndex) : Nat :=
  idx.entries.length

/-- The entry of a name. -/
def entry? (idx : DeclarationIndex) (name : String) : Option IndexEntry :=
  idx.entries.find? fun e => e.name == name

/-- The declaration of a name. -/
def get? (idx : DeclarationIndex) (name : String) : Option Declaration :=
  (idx.entry? name).map (·.declaration)

/-- The path that the declaration of a name came from. -/
def origin? (idx : DeclarationIndex) (name : String) : Option String :=
  (idx.entry? name).map (·.origin)

/-- The class of a name. -/
def class? (idx : DeclarationIndex) (name : String) : Option ClassDecl :=
  (idx.get? name).bind Declaration.class?

/-- The declarations in load order. -/
def declarations (idx : DeclarationIndex) : List Declaration :=
  idx.entries.map (·.declaration)

/-- The classes in load order. -/
def classes (idx : DeclarationIndex) : List ClassDecl :=
  idx.declarations.filterMap Declaration.class?

/-- The names of the classes in load order. -/
def classNames (idx : DeclarationIndex) : List String :=
  idx.classes.map ClassDecl.qualifiedName

/-- The index with one more declaration, if its name is new. -/
def insert (idx : DeclarationIndex) (origin : String) (d : Declaration) :
    Except Problem DeclarationIndex :=
  match idx.entry? d.qualifiedName with
  | some earlier => .error (.duplicateDeclaration d.qualifiedName earlier.origin origin)
  | none => .ok ⟨idx.entries ++ [⟨d, origin⟩]⟩

/-- Enters declarations until one is refused. -/
def insertAll (origin : String) :
    DeclarationIndex → List Declaration → DeclarationIndex × Except Problem Unit
  | idx, [] => (idx, .ok ())
  | idx, d :: ds =>
    match idx.insert origin d with
    | .ok idx => insertAll origin idx ds
    | .error p => (idx, .error p)

/-- Enters the declarations of a file until one is refused. What was entered before stays. -/
def addFile (idx : DeclarationIndex) (file : SourceFile) : DeclarationIndex × Except Problem Unit :=
  idx.insertAll file.path (file.declarations.flatMap Declaration.flatten)

/-- The index with the declarations of the files, in their order. -/
def addFiles : DeclarationIndex → List SourceFile → Except Problem DeclarationIndex
  | idx, [] => .ok idx
  | idx, file :: files =>
    match idx.addFile file with
    | (idx, .ok ()) => addFiles idx files
    | (_, .error p) => .error p

/-- The index of the declarations of the files. -/
def build (files : List SourceFile) : Except Problem DeclarationIndex :=
  empty.addFiles files

/-- What a name means, in a scope or outside of all classes. A type parameter of the scope
comes before a declaration of that name. -/
def resolve (idx : DeclarationIndex) (name : String) (scope : Option Scope) : Referent :=
  match scope.bind (·.parameterIndex? name) with
  | some i => .typeParameter i
  | none =>
    match idx.get? name with
    | some (.ofClass c) => .ofClass c
    | some (.ofAlias a) => .ofAlias a
    | none => .external

/-! ### Look-up -/

theorem mem_classes_of_class? {idx : DeclarationIndex} {name : String} {c : ClassDecl}
    (h : idx.class? name = some c) : c ∈ idx.classes ∧ c.qualifiedName = name := by
  simp only [class?, get?, entry?, Option.bind_eq_some_iff, Option.map_eq_some_iff] at h
  obtain ⟨d, ⟨e, he, rfl⟩, hc⟩ := h
  have hmem := List.mem_of_find?_eq_some he
  have hname : e.name = name := by simpa using List.find?_some he
  refine ⟨?_, ?_⟩
  · simp only [classes, declarations, List.mem_filterMap, List.mem_map]
    exact ⟨e.declaration, ⟨e, hmem, rfl⟩, hc⟩
  · cases hd : e.declaration with
    | ofClass c' =>
      rw [hd] at hc
      simp only [Declaration.class?, Option.some.injEq] at hc
      subst hc
      rw [← hname, IndexEntry.name, hd]
      rfl
    | ofAlias a =>
      rw [hd] at hc
      simp [Declaration.class?] at hc

theorem class?_eq_some_of_resolve {idx : DeclarationIndex} {name : String} {scope : Option Scope}
    {c : ClassDecl} (h : idx.resolve name scope = .ofClass c) : idx.class? name = some c := by
  unfold resolve at h
  split at h
  · cases h
  · split at h
    · rename_i c' hget
      cases h
      simp [class?, hget, Declaration.class?]
    · cases h
    · cases h

/-- Of the declared classes, those that are not on a path. -/
def remaining (idx : DeclarationIndex) (path : List String) : List String :=
  idx.classNames.filter fun name => decide (name ∉ path)

/-- A declared class that is not on a path yet leaves fewer classes when it is put there. -/
theorem remaining_length_lt {idx : DeclarationIndex} {name : String} {path path' : List String}
    {c : ClassDecl} (h : idx.class? name = some c) (hp : name ∉ path)
    (hp' : ∀ n, n ∈ path' ↔ n = name ∨ n ∈ path) :
    (idx.remaining path').length < (idx.remaining path).length := by
  have hc := mem_classes_of_class? h
  have hmem : name ∈ idx.remaining path := by
    simp only [remaining, List.mem_filter, decide_eq_true_eq]
    exact ⟨hc.2 ▸ List.mem_map_of_mem hc.1, hp⟩
  have heq : idx.remaining path' = (idx.remaining path).filter fun n => decide (n ≠ name) := by
    simp only [remaining, List.filter_filter]
    refine List.filter_congr fun n _ => ?_
    rw [← Bool.decide_and]
    refine decide_eq_decide.2 ?_
    rw [hp' n]
    exact not_or
  rw [heq]
  exact List.length_filter_lt_length_iff_exists.2 ⟨name, hmem, by simp⟩

end DeclarationIndex

end ModelForge
