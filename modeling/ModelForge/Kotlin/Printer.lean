/-
Writing Kotlin files.

A file is a list of lines, each at a depth of four columns per level; an empty line stays
empty. Parameters and arguments stand on lines of their own, one level deeper than the
function or class they belong to.

* `identifier` escapes the hard keywords;
* `Content.lines` are the lines of what a file declares;
* `File.text` is the whole file: a first line that says it is generated, the package, the
  imports and the declarations.
-/
import ModelForge.Kotlin.Spelling

namespace ModelForge.Kotlin

/-- The hard keywords. -/
def keywords : List String :=
  ["as", "break", "class", "continue", "do", "else", "false", "for", "fun", "if", "in",
    "interface", "is", "null", "object", "package", "return", "super", "this", "throw", "true",
    "try", "typealias", "typeof", "val", "var", "when", "while"]

/-- A name as an identifier: a keyword is put in back quotes. -/
def identifier (name : String) : String :=
  if keywords.contains name then "\x60" ++ name ++ "\x60" else name

/-- A line at a depth. -/
structure Line where
  depth : Nat
  text : String
deriving DecidableEq, Repr

/-- The empty line. -/
def Line.blank : Line := ⟨0, ""⟩

/-- The line with its indentation and its end. -/
def Line.display (l : Line) : String :=
  if l.text = "" then "\n"
  else String.ofList (List.replicate (4 * l.depth) ' ') ++ l.text ++ "\n"

/-- The text of several lines. -/
def displayLines (ls : List Line) : String :=
  String.join (ls.map Line.display)

/-! ### Expressions -/

/-- The dot of a call. -/
def dot (safe : Bool) : String :=
  if safe then "?." else "."

/-- A block with its braces. -/
def braced (text : String) : String :=
  "\x7b " ++ text ++ " \x7d"

/-- The name of a block's parameter, with the arrow after it. -/
def blockHead : Option String → String
  | none => ""
  | some name => name ++ " -> "

/-- The written form of an expression. -/
def Expr.display : Expr ClassUse → String
  | parameter name => identifier name
  | held name => name
  | it => "it"
  | null => "null"
  | object c => c.display
  | wrap c inner => c.display ++ "(" ++ inner.display ++ ")"
  | right either inner => either.display ++ ".Right(" ++ inner.display ++ ")"
  | make wrapper nullable raw =>
    wrapper.display ++ (if nullable then ".ofNullable(" else ".of(") ++ raw.display ++ ")"
  | letIt receiver block => receiver.display ++ "?.let " ++ braced block.display
  | map receiver safe name block =>
    receiver.display ++ dot safe ++ "map " ++ braced (blockHead name ++ block.display)
  | fold receiver safe absent present =>
    receiver.display ++ dot safe ++ "fold(" ++ braced absent.display ++ ") " ++
      braced present.display
  | validate receiver safe => receiver.display ++ dot safe ++ "validate()"
  | flatMap receiver block => receiver.display ++ ".flatMap " ++ braced block.display
  | build receiver safe => receiver.display ++ dot safe ++ "build()"
  | content receiver => receiver.display ++ ".value"
  | orElse value fallback => value.display ++ " ?: " ++ fallback.display

/-! ### Parameters and arguments -/

/-- The entries of a list on lines of their own, with commas between them. -/
def entryLines (depth : Nat) : List String → List Line
  | [] => []
  | [entry] => [⟨depth, entry⟩]
  | entry :: entries => ⟨depth, entry ++ ","⟩ :: entryLines depth entries

/-- A list in parentheses between a head and a tail, on one line if it is empty. -/
def listLines (depth : Nat) (head : String) (entries : List String) (tail : String) : List Line :=
  if entries.isEmpty then [⟨depth, head ++ "()" ++ tail⟩]
  else ⟨depth, head ++ "("⟩ :: entryLines (depth + 1) entries ++ [⟨depth, ")" ++ tail⟩]

/-- The written form of a parameter. -/
def Parameter.display (p : Parameter TypeUse) : String :=
  identifier p.name ++ ": " ++ p.type.display

/-- The written form of a field. -/
def Parameter.displayField (p : Parameter TypeUse) : String :=
  "val " ++ p.display

/-- The written form of an argument. -/
def Argument.display (a : Argument ClassUse) : String :=
  identifier a.name ++ " = " ++ a.value.display

/-- A parameter or field passed on under its own name. -/
def passedOn (name : String) : String :=
  identifier name ++ " = " ++ identifier name

/-! ### Factories -/

/-- The line of a local. -/
def Local.display (l : Local ClassUse TypeUse) : String :=
  match l.type with
  | some type => "val " ++ l.name ++ ": " ++ type.display ++ " = " ++ l.value.display
  | none => "val " ++ l.name ++ " = " ++ l.value.display

/-- The written form of the companion that a function extends, with a dot after it. -/
def Receiver.display (r : Receiver ClassUse) : String :=
  r.owner.display ++ "." ++ r.companion ++ "."

/-- The class of a side, after the class of results. -/
def Side.display : Side → String
  | left => ".Left"
  | right => ".Right"

/-- The written form of a condition. -/
def Condition.display (either : ClassUse) (c : Condition ClassUse) : String :=
  c.result.display ++ " is " ++ either.display ++ c.side.display

/-- The line that adds a failure. -/
def FailureCase.display (either variants : ClassUse) (c : FailureCase ClassUse) : String :=
  "if (" ++ c.condition.display either ++ ") add(" ++ variants.display ++ "." ++ c.variant ++
    "(" ++ c.value.display ++ "))"

namespace Factory

/-- The lines that construct the class as a success. -/
def successLines (f : Factory ClassUse TypeUse) (depth : Nat) (head : String) : List Line :=
  listLines depth (head ++ f.either.display ++ ".Right(" ++ f.constructed.display)
    (f.arguments.map Argument.display) ")"

/-- The lines after the locals. -/
def outcomeLines (f : Factory ClassUse TypeUse) (depth : Nat) : List Line :=
  match f.failure with
  | none => f.successLines depth "return "
  | some b =>
    ⟨depth, "return if (" ++
      String.intercalate " && " (b.conditions.map (·.display f.either)) ++ ") \x7b"⟩ ::
    f.successLines (depth + 1) "" ++
    [⟨depth, "\x7d else \x7b"⟩,
      ⟨depth + 1, f.either.display ++ ".Left("⟩,
      ⟨depth + 2, "buildList<" ++ b.union.display ++ "> \x7b"⟩] ++
    b.cases.map (fun c => ⟨depth + 3, c.display f.either b.variants⟩) ++
    [⟨depth + 2, "\x7d.toNonEmptyListOrNull()!!"⟩, ⟨depth + 1, ")"⟩, ⟨depth, "\x7d"⟩]

/-- The lines of a factory. -/
def lines (f : Factory ClassUse TypeUse) (depth : Nat) : List Line :=
  let owner := match f.receiver with
    | some r => r.display
    | none => ""
  listLines depth ("fun " ++ owner ++ f.name) (f.parameters.map Parameter.display)
      (": " ++ f.result.display ++ " \x7b") ++
    f.locals.map (fun l => ⟨depth + 1, l.display⟩) ++
    f.outcomeLines (depth + 1) ++ [⟨depth, "\x7d"⟩]

end Factory

/-! ### Declarations -/

/-- The first lines of a class: a data class needs a field. -/
def classHead (name : ClassUse) (fields : List String) : List Line :=
  if fields.isEmpty then [⟨0, "class " ++ name.display ++ "() \x7b"⟩]
  else listLines 0 ("data class " ++ name.display) fields " \x7b"

/-- The lines of a variant. -/
def Variant.display (v : Variant ClassUse TypeUse) : String :=
  "data class " ++ v.name ++ "(val parent: " ++ v.payload.display ++ ") : " ++ v.parent.display

/-- The lines of a union. -/
def FailureUnion.lines (u : FailureUnion ClassUse TypeUse) : List Line :=
  (if u.variants.isEmpty then [⟨0, "sealed interface " ++ u.name.display⟩]
    else ⟨0, "sealed interface " ++ u.name.display ++ " \x7b"⟩ ::
      u.variants.map (fun v => ⟨1, v.display⟩) ++ [⟨0, "\x7d"⟩]) ++
  match u.required with
  | some required =>
    [Line.blank, ⟨0, "sealed interface " ++ required.display ++ " : " ++ u.name.display⟩]
  | none => []

/-- The lines of several factories, with empty lines between them. -/
def factoriesLines (depth : Nat) : List (Factory ClassUse TypeUse) → List Line
  | [] => []
  | [f] => f.lines depth
  | f :: fs => f.lines depth ++ Line.blank :: factoriesLines depth fs

/-- The lines of a data class. -/
def DataClass.lines (d : DataClass ClassUse TypeUse) : List Line :=
  classHead d.name (d.fields.map Parameter.displayField) ++
    ⟨1, "companion object \x7b"⟩ :: factoriesLines 2 d.factories ++ [⟨1, "\x7d"⟩, ⟨0, "\x7d"⟩]

/-- The name of a combinator. -/
def Combinator.display : Combinator → String
  | map => "map"
  | flatMap => "flatMap"

/-- The lines of a builder's steps, each inside of the one before. -/
def stepLines (params : ClassUse) (arguments : List String) (depth : Nat) (head : String) :
    List (BuildStep ClassUse) → List Line
  | [] => listLines depth (head ++ params.display) arguments ""
  | s :: steps =>
    ⟨depth, head ++ s.source.display ++ "." ++ s.combinator.display ++
      " \x7b " ++ identifier s.name ++ " ->"⟩ ::
    stepLines params arguments (depth + 1) "" steps ++ [⟨depth, "\x7d"⟩]

/-- The lines of a builder's function after its head. -/
def BuildBody.lines (params : ClassUse) (depth : Nat) : BuildBody ClassUse → List Line
  | present wrapper => [⟨depth, "return " ++ wrapper.display ++ "(" ++ params.display ++ "())"⟩]
  | chain steps arguments => stepLines params (arguments.map Argument.display) depth "return " steps

/-- The default of a staged field. -/
def defaultText (absent : Option ClassUse) : String :=
  match absent with
  | some c => c.display
  | none => ""

/-- The lines of a builder. -/
def Builder.lines (b : Builder ClassUse TypeUse) : List Line :=
  classHead b.name (b.staged.map Parameter.displayField) ++
    ⟨1, "fun build(): " ++ b.result.display ++ " \x7b"⟩ :: b.body.lines b.params 2 ++
    [⟨1, "\x7d"⟩, Line.blank, ⟨1, "companion object \x7b"⟩] ++
    listLines 2 "fun only" (b.staged.map fun p => p.display ++ " = " ++ defaultText b.absent)
      (": " ++ b.name.display ++ " \x7b") ++
    listLines 3 ("return " ++ b.name.display) (b.staged.map fun p => passedOn p.name) "" ++
    [⟨2, "\x7d"⟩, ⟨1, "\x7d"⟩, ⟨0, "\x7d"⟩]

/-- The written form of an extension's parameter. -/
def OnlyParameter.display (absent : ClassUse) (p : OnlyParameter TypeUse) : String :=
  identifier p.name ++ ": " ++ p.type.display ++
    (if p.optional then " = " ++ absent.display else "")

/-- The lines of an extension that constructs a class. -/
def OnlyExtension.lines (f : OnlyExtension ClassUse TypeUse) : List Line :=
  listLines 0 ("fun " ++ f.receiver.display ++ "only") (f.parameters.map (·.display f.absent))
      (": " ++ f.receiver.owner.display ++ " \x7b") ++
    listLines 1 ("return " ++ f.receiver.owner.display)
      (f.parameters.map fun p => passedOn p.name) "" ++
    [⟨0, "\x7d"⟩]

/-- The lines of what a file declares. -/
def Content.lines : Content ClassUse TypeUse → List Line
  | failureUnion u => u.lines
  | dataClass d => d.lines
  | builder b => b.lines
  | factory f => f.lines 0
  | only f => f.lines

/-! ### Files -/

/-- The first line of every file. -/
def generatedHeader : String := "// Generated code. Do not modify by hand."

/-- The text of a file with the given imports. -/
def assemble (package : String) (imports : List String) (body : List Line) : String :=
  generatedHeader ++ "\n\n" ++
    (if package = "" then "" else "package " ++ package ++ "\n\n") ++
    (if imports.isEmpty then ""
      else String.join (imports.map fun name => "import " ++ name ++ "\n") ++ "\n") ++
    displayLines body

/-- The text of a file. -/
def File.text (f : File) : String :=
  let (content, imports) := f.spelled
  assemble f.package imports.lines content.lines

end ModelForge.Kotlin
