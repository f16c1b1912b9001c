/-
What the command line prints.

A line is a text, or the time that a run took, which only the outer layer knows. Models are
shown with a link to their place, a line for each property and one for each validation
template.

* `modelLines` — a model as it is shown;
* `summary` — the counts of a run.
-/
import ModelForge.FileTree
import ModelForge.Model.Json

namespace ModelForge.CommandLine

/-- A line of output. -/
inductive OutputLine
  | text (value : String)
  /-- the end of a run, with the time it took -/
  | elapsed (label : String)
deriving DecidableEq, Repr, Inhabited

/-- The version of the program. -/
def version : String := "0.1.0"

/-- The line for the version. -/
def versionLine : String :=
  "modelsmith " ++ version

/-- A line with a sign in front. -/
def signed (sign text : String) : String :=
  "  " ++ sign ++ " " ++ text

/-- The first line of a run. -/
def header : String :=
  signed "◆" versionLine

/-- The line of a success. -/
def success (text : String) : String :=
  signed "◉" text

/-- The line for the end of a run, with the time it took, if it is told. -/
def OutputLine.display (milliseconds : Option Nat) : OutputLine → String
  | text value => value
  | elapsed label =>
    match milliseconds with
    | some n => signed "◇" (label ++ " in " ++ toString n ++ "ms")
    | none => signed "◇" label

/-- The counts of a run. -/
def summary (declarations files failed : Nat) : String :=
  "    " ++ toString declarations ++ " declarations · " ++ toString files ++ " files · " ++
    toString failed ++ " failed"

/-- The text with blanks behind it up to a width. -/
def padded (width : Nat) (text : String) : String :=
  text ++ String.ofList (List.replicate (width - text.length) ' ')

/-- The written form of a place from the root on. -/
def absolutePath (place : List String) : String :=
  "/" ++ "/".intercalate place

/-- The path from the root on of what a path leads to, if that path can be used. -/
def fullPath? (t : FileTree) (path : String) : Option String :=
  ((t.resolve? path).map absolutePath).filter FileTree.isUsable

/-- A text that leads to a line of a file: to the file's place if it is there, else to the path
as it is written. -/
def fileLink (t : FileTree) (path : String) (line : Nat) : String :=
  let target := (fullPath? t path).getD path
  "\x1b]8;;file://" ++ target ++ "#" ++ toString line ++ "\x07" ++ path ++ ":" ++ toString line ++
    "\x1b]8;;\x07"

/-- What validation of the property fails with, where a property is a validated value. -/
def failure? : PropertyKind → Option String
  | .value v | .optionalValue v _ => some v.failure.display
  | _ => none

/-- A property as it is shown. -/
def propertyLine (p : Property) : String :=
  "      " ++ padded 16 p.name ++ " " ++ padded 32 p.kind.label ++
    (if p.external then " external" else "") ++
    ((failure? p.kind).map (" · " ++ ·)).getD ""

/-- A validation template as it is shown. -/
def templateLine (t : ValidationTemplate) : String :=
  "      template " ++ t.function ++ "(" ++ t.scope.name ++ ") prevalidates " ++
    ", ".intercalate t.prevalidated

/-- A model as it is shown. -/
def modelLines (t : FileTree) (m : Model) : List String :=
  [signed "▸" (m.names.model.canonicalName ++ " (" ++ m.declaration ++ ")")] ++
    (m.location.map fun l => "      " ++ fileLink t l.file l.line).toList ++
    m.properties.map propertyLine ++ m.templates.map templateLine ++ [""]

end ModelForge.CommandLine
