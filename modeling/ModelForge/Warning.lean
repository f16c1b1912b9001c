/-
Warnings.

What is reported of a run besides its results. A warning has a fixed `message` and says in
`details` what it is about. A declaration that is left out is reported with its problem.
-/
import ModelForge.Problem

namespace ModelForge

/-- What is reported of a run besides its results. -/
inductive Warning
  /-- a validation template that is not a private interface -/
  | openTemplate (template : String)
  /-- a property of a validation template that its model does not have -/
  | unknownProperty (template property : String)
  /-- an annotation met again on the path that leads to it -/
  | compositionCycle (repeated : String) (path : List String)
  /-- a declaration left out because of a problem -/
  | skipped (declaration : String) (problem : Problem)
deriving DecidableEq, Repr

namespace Warning

/-- The wording of the warning. -/
def message : Warning → String
  | openTemplate _ => "validation template is not a private interface"
  | unknownProperty .. => "validation template declares a property the model does not have"
  | compositionCycle .. => "annotation composition cycle, skipping repeated annotation"
  | skipped .. => "declaration skipped"

/-- What the warning is about, by name. -/
def details : Warning → List (String × String)
  | openTemplate template => [("template", template)]
  | unknownProperty template property => [("template", template), ("property", property)]
  | compositionCycle repeated path =>
    [("annotation", repeated), ("path", " -> ".intercalate path)]
  | skipped declaration problem =>
    [("declaration", declaration), ("severity", if problem.isFatal then "fatal" else "error"),
      ("error", problem.message)]

end Warning

end ModelForge
