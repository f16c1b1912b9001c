/-
Names of types in the generated code.

A `TypeName` is a class, given by its package and the chain of simple names from the
outermost class inwards, with arguments (`none` is a star) and nullability.

* `TypeName.ofQualified` splits a dotted name at its first capitalised segment;
* `TypeName.ofClass` takes the package and the name of a declared class;
* `TypeName.canonicalName` is the dotted name, `TypeName.display` the whole written form.
-/
import ModelForge.Declaration
import ModelForge.Text.Capital

namespace ModelForge

/-- A type of the generated code. -/
inductive TypeName
  | mk (package : String) (simpleNames : List String) (arguments : List (Option TypeName))
    (nullable : Bool)
deriving Repr

/-- The segments of a text between the dots, at least one. -/
def segmentsOf : List Char → List (List Char)
  | [] => [[]]
  | c :: cs =>
    if c = '.' then [] :: segmentsOf cs
    else
      match segmentsOf cs with
      | [] => [[c]]
      | segment :: segments => (c :: segment) :: segments

/-- The segments of a dotted name. -/
def dotted (name : String) : List String :=
  (segmentsOf name.toList).map String.ofList

namespace TypeName

instance : Inhabited TypeName := ⟨mk "" [] [] false⟩

/-- The package, empty for none. -/
def package : TypeName → String
  | mk package _ _ _ => package

/-- The simple names, the outermost class first. -/
def simpleNames : TypeName → List String
  | mk _ simpleNames _ _ => simpleNames

/-- The arguments, `none` for a star. -/
def arguments : TypeName → List (Option TypeName)
  | mk _ _ arguments _ => arguments

/-- Whether the type is nullable. -/
def nullable : TypeName → Bool
  | mk _ _ _ nullable => nullable

@[simp] theorem package_mk (p : String) (ns : List String) (as : List (Option TypeName))
    (b : Bool) : (mk p ns as b).package = p := rfl

@[simp] theorem simpleNames_mk (p : String) (ns : List String) (as : List (Option TypeName))
    (b : Bool) : (mk p ns as b).simpleNames = ns := rfl

@[simp] theorem arguments_mk (p : String) (ns : List String) (as : List (Option TypeName))
    (b : Bool) : (mk p ns as b).arguments = as := rfl

@[simp] theorem nullable_mk (p : String) (ns : List String) (as : List (Option TypeName))
    (b : Bool) : (mk p ns as b).nullable = b := rfl

/-- A class without arguments. -/
def simple (package simpleName : String) : TypeName :=
  mk package [simpleName] [] false

/-- Whether a segment of a name starts with a capital letter. -/
def isClassSegment (segment : String) : Bool :=
  segment.toList.head?.any Text.isCapital

/-- The class of a dotted name. The first capitalised segment starts the simple names; if no
segment is capitalised, the last one is the simple name. -/
def ofQualified (qualified : String) : TypeName :=
  let segments := dotted qualified
  let first := (segments.findIdx? isClassSegment).getD (segments.length - 1)
  mk (String.intercalate "." (segments.take first)) (segments.drop first) [] false

/-- The name of a declared class. -/
def ofClass (c : ClassDecl) : TypeName :=
  mk c.package (dotted c.name) [] false

/-- The name of a declared alias, read as a dotted name. -/
def ofAlias (a : AliasDecl) : TypeName :=
  ofQualified a.qualifiedName

/-- The class of this name inside this class. -/
def nested (t : TypeName) (simpleName : String) : TypeName :=
  mk t.package (t.simpleNames ++ [simpleName]) [] false

/-- The type with its nullability replaced. -/
def withNullable (t : TypeName) (nullable : Bool) : TypeName :=
  mk t.package t.simpleNames t.arguments nullable

/-- The type with its arguments replaced. -/
def withArguments (t : TypeName) (arguments : List (Option TypeName)) : TypeName :=
  mk t.package t.simpleNames arguments t.nullable

/-- The type applied to types. -/
def applied (t : TypeName) (arguments : List TypeName) : TypeName :=
  t.withArguments (arguments.map some)

@[simp] theorem package_withNullable (t : TypeName) (b : Bool) :
    (t.withNullable b).package = t.package := rfl

@[simp] theorem simpleNames_withNullable (t : TypeName) (b : Bool) :
    (t.withNullable b).simpleNames = t.simpleNames := rfl

@[simp] theorem arguments_withNullable (t : TypeName) (b : Bool) :
    (t.withNullable b).arguments = t.arguments := rfl

@[simp] theorem nullable_withNullable (t : TypeName) (b : Bool) :
    (t.withNullable b).nullable = b := rfl

/-- The innermost simple name. -/
def simpleName (t : TypeName) : String :=
  t.simpleNames.getLastD ""

/-- The dotted name, without arguments and nullability. -/
def canonicalName (t : TypeName) : String :=
  qualify t.package (String.intercalate "." t.simpleNames)

/-- The dotted name of the outermost class. -/
def topLevelName (t : TypeName) : String :=
  qualify t.package (t.simpleNames.headD "")

mutual

/-- The written form of a type, with dotted names. -/
def display : TypeName → String
  | mk package simpleNames arguments nullable =>
    qualify package (String.intercalate "." simpleNames) ++ displayList arguments ++
      (if nullable then "?" else "")

/-- The written form of an argument. -/
def displayArgument : Option TypeName → String
  | none => "*"
  | some t => display t

/-- The written form of an argument list, empty if there are no arguments. -/
def displayList : List (Option TypeName) → String
  | [] => ""
  | a :: as => "<" ++ displayArgument a ++ displayRest as

/-- The rest of an argument list: a comma before each argument, then the closing bracket. -/
def displayRest : List (Option TypeName) → String
  | [] => ">"
  | a :: as => ", " ++ displayArgument a ++ displayRest as

end

end TypeName

end ModelForge
