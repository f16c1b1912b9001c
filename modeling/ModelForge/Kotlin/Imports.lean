/-
Imports of a Kotlin file.

Within a file a class is written by its simple names or by its full name. The first class to
use an outermost simple name claims it and is imported if need be; a class of the same
simple name from elsewhere is written in full.

* `Imports.declare` and `Imports.shadow` claim names for classes of the file itself;
* `Imports.reference` says how a class is written, `Imports.render` how a type is;
* `Imports.member` imports a function;
* `Imports.lines` are the imports in order.
-/
import ModelForge.TypeName

namespace ModelForge.Kotlin

/-- A class as it is written in a file: in full, or by its simple names. -/
structure ClassUse where
  package : String
  simpleNames : List String
  full : Bool
deriving DecidableEq, Repr, Inhabited

/-- The written form of a class. -/
def ClassUse.display (c : ClassUse) : String :=
  let simple := String.intercalate "." c.simpleNames
  if c.full then qualify c.package simple else simple

/-- A type as it is written in a file. An argument `none` is a star. -/
inductive TypeUse
  | mk (use : ClassUse) (arguments : List (Option TypeUse)) (nullable : Bool)
deriving Repr

instance : Inhabited TypeUse := ⟨.mk default [] false⟩

namespace TypeUse

mutual

/-- The written form of a type. -/
def display : TypeUse → String
  | mk use arguments nullable =>
    use.display ++ displayList arguments ++ (if nullable then "?" else "")

/-- The written form of an argument. -/
def displayArgument : Option TypeUse → String
  | none => "*"
  | some t => display t

/-- The written form of an argument list, empty if there are no arguments. -/
def displayList : List (Option TypeUse) → String
  | [] => ""
  | a :: as => "<" ++ displayArgument a ++ displayRest as

/-- The rest of an argument list: a comma before each argument, then the closing bracket. -/
def displayRest : List (Option TypeUse) → String
  | [] => ">"
  | a :: as => ", " ++ displayArgument a ++ displayRest as

end

end TypeUse

/-- The packages whose classes need no import. -/
def implicitPackages : List String := ["kotlin", "kotlin.collections"]

/-- The simple names that are taken in a file of a package, and what is imported. -/
structure Imports where
  package : String
  /-- simple names with the full names of the classes they stand for -/
  claimed : List (String × String)
  imported : List String
deriving Repr, Inhabited

/-- A computation that may claim names and import classes. -/
abbrev Naming := StateM Imports

namespace Imports

/-- Nothing is claimed or imported. -/
def start (package : String) : Imports :=
  ⟨package, [], []⟩

/-- A simple name claimed for a class, unless it is taken. -/
def claim (i : Imports) (name owner : String) : Imports :=
  match i.claimed.lookup name with
  | some _ => i
  | none => { i with claimed := (name, owner) :: i.claimed }

/-- A name imported. -/
def add (i : Imports) (name : String) : Imports :=
  if name ∈ i.imported then i else { i with imported := i.imported ++ [name] }

/-- Whether a package's classes are visible in the file without an import. -/
def isVisible (i : Imports) (package : String) : Bool :=
  package == i.package || implicitPackages.contains package

/-- Claims the simple name of a class that the file declares. -/
def declare (t : TypeName) : Naming Unit :=
  match t.simpleNames with
  | [] => return
  | first :: _ => modify (·.claim first t.topLevelName)

/-- Claims the simple name of a class nested in one of the file's, so that others of the
name are written in full. -/
def shadow (nested : TypeName) : Naming Unit :=
  modify (·.claim nested.simpleName nested.canonicalName)

/-- How the class of a type is written. -/
def reference (t : TypeName) : Naming ClassUse := do
  let simple : ClassUse := ⟨t.package, t.simpleNames, false⟩
  match t.simpleNames with
  | [] => return simple
  | first :: _ =>
    if t.package = "" then return simple
    let i ← get
    match i.claimed.lookup first with
    | some owner =>
      if owner = t.topLevelName then return simple else return { simple with full := true }
    | none =>
      let claimed := i.claim first t.topLevelName
      set (if i.isVisible t.package then claimed else claimed.add t.topLevelName)
      return simple

/-- Imports a function, if its package needs it. -/
def member (package name : String) : Naming Unit :=
  modify fun i => if i.isVisible package then i else i.add (package ++ "." ++ name)

mutual

/-- How a type is written. -/
def render : TypeName → Naming TypeUse
  | .mk package simpleNames arguments nullable => do
    let use ← reference (.mk package simpleNames arguments nullable)
    return .mk use (← renderList arguments) nullable

/-- How an argument is written. -/
def renderArgument : Option TypeName → Naming (Option TypeUse)
  | none => return none
  | some t => do return some (← render t)

/-- How the arguments are written. -/
def renderList : List (Option TypeName) → Naming (List (Option TypeUse))
  | [] => return []
  | a :: as => do
    let use ← renderArgument a
    return use :: (← renderList as)

end

/-- The imported names in increasing order. -/
def lines (i : Imports) : List String :=
  i.imported.mergeSort fun a b => !(decide (b < a))

end Imports

end ModelForge.Kotlin
