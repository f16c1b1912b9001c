/-
Naming of what is generated.

* `capitalized` puts the first character of a name in upper case and leaves the rest;
* `ModelNames` is the family of types generated for one declaration: for a template called
  `User` the classes `User`, `UserParams` and `UserBuilder` and the unions
  `UserFieldFailure` and `UserRequiredFieldFailure`; a class that is validated as it is has
  no params, no builder and only the first union.
-/
import ModelForge.TypeName

namespace ModelForge

/-- The name with its first character in upper case. -/
def capitalized (name : String) : String :=
  match name.toList with
  | [] => ""
  | c :: cs => String.ofList (Text.capital c ++ cs)

/-- The name of the local that holds the validation result of a property. -/
def resultName (property : String) : String :=
  "v" ++ capitalized property

/-- The names of what is generated for one declaration. -/
structure ModelNames where
  package : String
  /-- what the names of the other types start with -/
  base : String
  model : TypeName
  /-- whether there are params, a builder and a union of required field failures -/
  hasParams : Bool
deriving Repr, Inhabited

namespace ModelNames

/-- The names for a template. -/
def template (package base : String) : ModelNames :=
  ⟨package, base, .simple package base, true⟩

/-- The names for a class that is its own model. -/
def validatable (model : TypeName) : ModelNames :=
  ⟨model.package, model.simpleName, model, false⟩

/-- The type called by the base name and an ending. -/
def withEnding (n : ModelNames) (ending : String) : TypeName :=
  .simple n.package (n.base ++ ending)

/-- The params, or the model where there are none. -/
def params (n : ModelNames) : TypeName :=
  if n.hasParams then n.withEnding "Params" else n.model

/-- The builder, if there is one. -/
def builder? (n : ModelNames) : Option TypeName :=
  if n.hasParams then some (n.withEnding "Builder") else none

/-- The union of all field failures. -/
def fieldFailure (n : ModelNames) : TypeName :=
  n.withEnding "FieldFailure"

/-- The union of the failures of the fields that the params have, or of all fields where
there are no params. -/
def requiredFieldFailure (n : ModelNames) : TypeName :=
  if n.hasParams then n.withEnding "RequiredFieldFailure" else n.fieldFailure

end ModelNames

end ModelForge
