/-
The JSON form of models, as they are shown: names of types are written out, a kind says
what it is in its first member, and places are left out.
-/
import ModelForge.Json
import ModelForge.Model

namespace ModelForge

/-- Writes a type as its written form. -/
def TypeName.toJson (t : TypeName) : Json :=
  .string t.display

/-- Writes the names of a model. -/
def ModelNames.toJson (n : ModelNames) : Json :=
  .object [("package", .string n.package), ("base", .string n.base), ("model", n.model.toJson),
    ("hasParams", .bool n.hasParams)]

/-- The members of a validated value. -/
def ValidatedValue.toMembers (v : ValidatedValue) : List (String × Json) :=
  [("wrapper", v.wrapper.toJson), ("value", v.value.toJson), ("failure", v.failure.toJson),
    ("nullable", .bool v.nullable)]

/-- The members of a nested model. -/
def NestedModel.toMembers (m : NestedModel) : List (String × Json) :=
  [("names", m.names.toJson), ("nullable", .bool m.nullable)]

/-- Writes a container of a validated value. -/
def ValidatedValue.containerJson (kind : String) (v : ValidatedValue) (nullable : Bool) : Json :=
  .object [("kind", .string kind), ("value", .object v.toMembers), ("nullable", .bool nullable)]

/-- Writes a container of a nested model. -/
def NestedModel.containerJson (kind : String) (m : NestedModel) (nullable : Bool) : Json :=
  .object [("kind", .string kind), ("model", .object m.toMembers), ("nullable", .bool nullable)]

mutual

/-- Writes a kind. -/
def PropertyKind.toJson : PropertyKind → Json
  | .standard type arguments =>
    .object [("kind", .string "standard"), ("type_name", type.toJson),
      ("arguments", .array (PropertyKind.toItems arguments))]
  | .value v => .object (("kind", .string "validatedValue") :: v.toMembers)
  | .optionalValue v nullable => v.containerJson "validatedValueOptional" nullable
  | .model m => .object (("kind", .string "generatedModel") :: m.toMembers)
  | .optionalModel m nullable => m.containerJson "generatedModelOptional" nullable
  | .modelList m nullable => m.containerJson "generatedModelList" nullable
  | .modelNonEmptyList m nullable => m.containerJson "generatedModelNonEmptyList" nullable

/-- Writes an argument, a star as `null`. -/
def PropertyKind.argumentToJson : Option PropertyKind → Json
  | none => .null
  | some kind => kind.toJson

/-- Writes the arguments. -/
def PropertyKind.toItems : List (Option PropertyKind) → List Json
  | [] => []
  | a :: as => PropertyKind.argumentToJson a :: PropertyKind.toItems as

end

/-- Writes where a property comes from. -/
def PropertyOrigin.toJson : PropertyOrigin → Json
  | declared => .object [("from", .string "declared")]
  | inherited declaration =>
    .object [("from", .string "inherited"), ("declaration", .string declaration)]
  | composed root =>
    .object [("from", .string "composed"), ("annotation", .string root)]

/-- Writes a property. -/
def Property.toJson (p : Property) : Json :=
  .object [("name", .string p.name), ("kind", p.kind.toJson), ("external", .bool p.external),
    ("origin", p.origin.toJson)]

/-- Writes what a declaration is turned into. -/
def ModelTarget.toJson : ModelTarget → Json
  | template => .object [("target", .string "modelTemplate")]
  | validatable companion =>
    .object [("target", .string "validatable"), ("companion", .string companion)]

/-- The name of a scope. -/
def TemplateScope.name : TemplateScope → String
  | both => "both"
  | model => "model"
  | params => "params"

/-- Writes a validation template. -/
def ValidationTemplate.toJson (t : ValidationTemplate) : Json :=
  .object [("declaration", .string t.declaration), ("function", .string t.function),
    ("scope", .string t.scope.name), ("prevalidated", .list .string t.prevalidated)]

/-- Writes a model. -/
def Model.toJson (m : Model) : Json :=
  .object [("declaration", .string m.declaration), ("names", m.names.toJson),
    ("target", m.target.toJson), ("properties", .list Property.toJson m.properties),
    ("templates", .list ValidationTemplate.toJson m.templates)]

end ModelForge
