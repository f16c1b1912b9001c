/-
Analyzed models.

A `Model` is what generation needs to know of one declaration: the names of the generated
types, the classified properties and the validation templates. A template is a factory of
its own, which takes some of the properties already validated.

* `Model.paramsProperties` are the properties that params and builder have;
* `Model.failingProperties` are those with a variant in the union of field failures;
* `ValidationTemplate.apply` turns the values a template takes validated into standard
  properties.
-/
import ModelForge.Property

namespace ModelForge

/-- What a declaration is turned into. -/
inductive ModelTarget
  /-- an interface: failures, model, params and builder are generated -/
  | template
  /-- a data class with this companion: failures and extensions of the companion are generated -/
  | validatable (companion : String)
deriving DecidableEq, Repr, Inhabited

/-- Which companions receive a template's factory. -/
inductive TemplateScope
  | both
  | model
  | params
deriving DecidableEq, Repr, Inhabited

/-- Whether the model's companion receives the factory. -/
def TemplateScope.includesModel : TemplateScope → Bool
  | both | model => true
  | params => false

/-- Whether the params' companion receives the factory. -/
def TemplateScope.includesParams : TemplateScope → Bool
  | both | params => true
  | model => false

/-- A factory that takes the listed properties already validated. -/
structure ValidationTemplate where
  /-- the template's interface -/
  declaration : String
  function : String
  scope : TemplateScope
  prevalidated : List String
deriving DecidableEq, Repr, Inhabited

/-- A validated value as a standard property of its wrapper's type; other kinds stay. -/
def PropertyKind.prevalidated : PropertyKind → PropertyKind
  | value v => standard v.wrapperType []
  | kind => kind

/-- The properties as the template's factory takes them. -/
def ValidationTemplate.apply (t : ValidationTemplate) (properties : List Property) :
    List Property :=
  properties.map fun p =>
    if t.prevalidated.contains p.name then { p with kind := p.kind.prevalidated } else p

/-- The analyzed form of a declaration. -/
structure Model where
  declaration : String
  names : ModelNames
  target : ModelTarget
  properties : List Property
  templates : List ValidationTemplate
  location : Option Location
deriving Repr, Inhabited

/-- The properties that params and builder have. -/
def Model.paramsProperties (m : Model) : List Property :=
  m.properties.filter fun p => !p.external

/-- The properties with a variant in the union of field failures. -/
def Model.failingProperties (m : Model) : List Property :=
  m.properties.filter fun p => !p.kind.isStandard

end ModelForge
