/-
The source model: declarations of classes and type aliases.

A `SourceFile` holds the declarations of one document. A `ClassDecl` stands for any kind of
class, with its supertypes, annotations, properties, companion object and nested classes;
an `AliasDecl` gives a name to a type. A `Scope` is what a type reference is resolved in:
the type parameters of a class or of its companion, with the supertypes written there.

* `qualify` puts a package in front of a name;
* `ClassDecl.scope` and `ClassDecl.companionScope?` are the two scopes of a class.
-/
import ModelForge.Annotation

namespace ModelForge

/-- A place in a file. -/
structure Location where
  file : String
  line : Nat
  column : Nat
deriving DecidableEq, Repr, Inhabited

/-- The written form of a place. -/
def Location.display (l : Location) : String :=
  l.file ++ ":" ++ toString l.line ++ ":" ++ toString l.column

/-- The kinds of classes. -/
inductive ClassKind
  | interface
  | plain
  | abstract
  | data
  | value
  | enumeration
  | object
  | annotationClass
deriving DecidableEq, Repr, Inhabited

/-- A property of a class. -/
structure PropertyDecl where
  name : String
  type : TypeRef
  annotations : List Annotation
  location : Option Location
deriving Repr, Inhabited

/-- The companion object of a class. -/
structure CompanionDecl where
  name : String
  typeParameters : List String
  superTypes : List TypeRef
deriving Repr, Inhabited

/-- A class of any kind. -/
structure ClassDecl where
  package : String
  name : String
  kind : ClassKind
  typeParameters : List String
  superTypes : List TypeRef
  annotations : List Annotation
  properties : List PropertyDecl
  companion : Option CompanionDecl
  nested : List ClassDecl
  isPrivate : Bool
  location : Option Location
deriving Repr, Inhabited

/-- A type alias. -/
structure AliasDecl where
  package : String
  name : String
  typeParameters : List String
  target : TypeRef
  annotations : List Annotation
  location : Option Location
deriving Repr, Inhabited

/-- A top-level declaration. -/
inductive Declaration
  | ofClass (decl : ClassDecl)
  | ofAlias (decl : AliasDecl)
deriving Repr, Inhabited

/-- The declarations of one document, and where the document was found. -/
structure SourceFile where
  path : String
  declarations : List Declaration
deriving Repr, Inhabited

/-- What a type reference is resolved in: a name, type parameters and supertypes. -/
structure Scope where
  name : String
  typeParameters : List String
  superTypes : List TypeRef
deriving Repr, Inhabited

/-- The name with its package in front, if there is one. -/
def qualify (package name : String) : String :=
  if package = "" then name else package ++ "." ++ name

/-- The position of a type parameter, the first of that name. -/
def Scope.parameterIndex? (s : Scope) (name : String) : Option Nat :=
  s.typeParameters.idxOf? name

/-- Whether one of the annotations is of the class `type`. -/
def PropertyDecl.isAnnotated (p : PropertyDecl) (type : String) : Bool :=
  p.annotations.any fun a => a.type == type

namespace ClassDecl

/-- The name with its package. -/
def qualifiedName (c : ClassDecl) : String :=
  qualify c.package c.name

/-- The last segment of the name. -/
def simpleName (c : ClassDecl) : String :=
  TypeRef.lastSegment c.name

/-- The first annotation of the class `type`. -/
def annotated? (c : ClassDecl) (type : String) : Option Annotation :=
  Annotation.find? c.annotations type

/-- The scope of what is written in the class. -/
def scope (c : ClassDecl) : Scope :=
  ⟨c.qualifiedName, c.typeParameters, c.superTypes⟩

/-- The scope of what is written in the companion object, if there is one. -/
def companionScope? (c : ClassDecl) : Option Scope :=
  c.companion.map fun k => ⟨c.qualifiedName ++ "." ++ k.name, k.typeParameters, k.superTypes⟩

end ClassDecl

/-- The alias's name with its package. -/
def AliasDecl.qualifiedName (a : AliasDecl) : String :=
  qualify a.package a.name

namespace Declaration

/-- The declaration's name with its package. -/
def qualifiedName : Declaration → String
  | ofClass c => c.qualifiedName
  | ofAlias a => a.qualifiedName

/-- Where the declaration stands. -/
def location : Declaration → Option Location
  | ofClass c => c.location
  | ofAlias a => a.location

/-- The class that is declared, if it is one. -/
def class? : Declaration → Option ClassDecl
  | ofClass c => some c
  | ofAlias _ => none

end Declaration

end ModelForge
