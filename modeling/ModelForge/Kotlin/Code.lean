/-
The Kotlin code that is generated.

These are the forms that generated files are made of, and no others: expressions for the
validation of a property and for the steps of a builder, factory functions, unions, data
classes, builders and extensions of companions. The names of classes and types are
parameters `C` and `T`: while code is put together they are `TypeName`s, and when it is
written they are the `ClassUse`s and `TypeUse`s that a file's imports give.

Names of properties are escaped when they are written, all other names are written as they
are.
-/
import ModelForge.Names

namespace ModelForge.Kotlin

/-- An expression. A call is `safe` if it is written with a question mark and gives null on
null. -/
inductive Expr (C : Type)
  /-- a parameter or field, by the name of its property -/
  | parameter (name : String)
  /-- a local variable -/
  | held (name : String)
  /-- the parameter of the innermost block that does not name it -/
  | it
  | null
  /-- a single object, such as the empty option -/
  | object (c : C)
  /-- a new value of a class around another one -/
  | wrap (c : C) (content : Expr C)
  /-- a success -/
  | right (either : C) (content : Expr C)
  /-- the companion of a validated value, asked to make one from a raw value -/
  | make (wrapper : C) (nullable : Bool) (raw : Expr C)
  /-- a block applied to a value, safely -/
  | letIt (receiver block : Expr C)
  /-- a block mapped over a value; it may name its parameter -/
  | map (receiver : Expr C) (safe : Bool) (name : Option String) (block : Expr C)
  /-- what an option gives if it is empty and if it is not -/
  | fold (receiver : Expr C) (safe : Bool) (absent present : Expr C)
  /-- a list of results turned into one -/
  | validate (receiver : Expr C) (safe : Bool)
  /-- a block that gives an option, applied to the content of one -/
  | flatMap (receiver block : Expr C)
  /-- a builder asked to build -/
  | build (receiver : Expr C) (safe : Bool)
  /-- the content of a success or of a failure -/
  | content (receiver : Expr C)
  /-- a value, or another one in place of null -/
  | orElse (value fallback : Expr C)
deriving Repr, Inhabited

/-- The local that holds the validation result of a property. -/
structure Local (C T : Type) where
  name : String
  type : Option T
  value : Expr C
deriving Repr, Inhabited

/-- An argument that is passed by name. -/
structure Argument (C : Type) where
  name : String
  value : Expr C
deriving Repr, Inhabited

/-- A parameter or field. -/
structure Parameter (T : Type) where
  name : String
  type : T
deriving Repr, Inhabited

/-- The two sides of a result. -/
inductive Side
  | left
  | right
deriving DecidableEq, Repr, Inhabited

/-- The test that a result is on a side. -/
structure Condition (C : Type) where
  result : Expr C
  side : Side
deriving Repr, Inhabited

/-- A value that is put into a variant and added to the failures if a condition holds. -/
structure FailureCase (C : Type) where
  condition : Condition C
  variant : String
  value : Expr C
deriving Repr, Inhabited

/-- The choice that a factory makes: the class is constructed if all conditions hold, and
otherwise failures are gathered. -/
structure FailureBranch (C T : Type) where
  conditions : List (Condition C)
  /-- the union that the variants are nested in -/
  variants : C
  /-- the type of the failures in the list -/
  union : T
  cases : List (FailureCase C)
deriving Repr, Inhabited

/-- The companion that a function extends. -/
structure Receiver (C : Type) where
  owner : C
  companion : String
deriving Repr, Inhabited

/-- A factory function: every result is held in a local, and then either the class is
constructed, or each failure is put into its variant. Without failure branch nothing can
fail. -/
structure Factory (C T : Type) where
  receiver : Option (Receiver C)
  name : String
  parameters : List (Parameter T)
  result : T
  either : C
  locals : List (Local C T)
  constructed : C
  arguments : List (Argument C)
  failure : Option (FailureBranch C T)
deriving Repr, Inhabited

/-- A variant of a union. -/
structure Variant (C T : Type) where
  name : String
  payload : T
  /-- the union that the variant belongs to -/
  parent : C
deriving Repr, Inhabited

/-- A union of failures, and a smaller union that belongs to it. -/
structure FailureUnion (C T : Type) where
  name : C
  variants : List (Variant C T)
  required : Option C
deriving Repr, Inhabited

/-- A class with its fields and the factories of its companion. -/
structure DataClass (C T : Type) where
  name : C
  fields : List (Parameter T)
  factories : List (Factory C T)
deriving Repr, Inhabited

/-- How a block is applied to the content of an option: it gives what the new option holds, or
the new option itself. -/
inductive Combinator
  | map
  | flatMap
deriving DecidableEq, Repr, Inhabited

/-- A step of a builder: the option that is looked into, how the steps inside are applied to its
content, and the name that the content gets there. -/
structure BuildStep (C : Type) where
  name : String
  combinator : Combinator
  source : Expr C
deriving Repr, Inhabited

/-- What a builder's function returns. -/
inductive BuildBody (C : Type)
  /-- nothing is staged: the params without arguments, wrapped by this class -/
  | present (wrapper : C)
  /-- each step inside of the one before, the params with their arguments in the middle -/
  | chain (steps : List (BuildStep C)) (arguments : List (Argument C))
deriving Repr

/-- A builder with its staged fields. -/
structure Builder (C T : Type) where
  name : C
  staged : List (Parameter T)
  params : C
  result : T
  body : BuildBody C
  /-- the empty option, the default of every staged field -/
  absent : Option C
deriving Repr

/-- The parameter of an extension that constructs a class. -/
structure OnlyParameter (T : Type) where
  name : String
  type : T
  /-- whether the empty option is its default -/
  optional : Bool
deriving Repr, Inhabited

/-- An extension that constructs a class, with the empty option as default of its options. -/
structure OnlyExtension (C T : Type) where
  receiver : Receiver C
  absent : C
  parameters : List (OnlyParameter T)
deriving Repr, Inhabited

/-- What one file declares. -/
inductive Content (C T : Type)
  | failureUnion (union : FailureUnion C T)
  | dataClass (decl : DataClass C T)
  | builder (decl : Builder C T)
  | factory (function : Factory C T)
  | only (function : OnlyExtension C T)
deriving Repr

/-- A file that is to be written. -/
structure File where
  package : String
  /-- the name without extension -/
  name : String
  content : Content TypeName TypeName
deriving Repr

end ModelForge.Kotlin
