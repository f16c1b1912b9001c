/-
The JSON form of source files.

A source file is a record of its `declarations`. A declaration says first of all what it is:
an object by its member `kind`, an array by its first item; the rest is a record of the
class or of the alias, looked at once the whole declaration has been read. Classes nested in
a class are written without a kind.

* `SourceFile.decode` reads a document;
* `SourceFile.toJson` writes a file with all fields, the defaults filled in.
-/
import ModelForge.Annotation.Json
import ModelForge.Declaration

namespace ModelForge

open Json (Decoded field required)

/-! ### Records without nested classes -/

namespace Location

/-- The fields of a place that have been met. -/
structure Fields where
  file : Option String
  line : Option Nat
  column : Option Nat

/-- The fields with one more. -/
def Fields.set (f : Fields) (name : String) (value : Json) : Decoded Fields :=
  match name with
  | "file" => do return { f with file := ← field name f.file Json.toText value }
  | "line" => do return { f with line := ← field name f.line Json.toCount value }
  | "column" => do return { f with column := ← field name f.column Json.toCount value }
  | _ => .ok f

/-- The place that the fields make. -/
def Fields.complete (f : Fields) : Decoded Location := do
  return ⟨← required "file" f.file, f.line.getD 0, f.column.getD 0⟩

/-- Decodes a place. -/
def ofJson : Json → Decoded Location :=
  Json.toRecord ["file", "line", "column"] ⟨none, none, none⟩ Fields.set Fields.complete

/-- Writes a place. -/
def toJson (l : Location) : Json :=
  .object [("file", .string l.file), ("line", .integer l.line), ("column", .integer l.column)]

end Location

namespace ClassKind

/-- The name of a kind. -/
def name : ClassKind → String
  | interface => "interface"
  | plain => "class"
  | abstract => "abstractClass"
  | data => "dataClass"
  | value => "valueClass"
  | enumeration => "enumClass"
  | object => "object"
  | annotationClass => "annotationClass"

/-- All kinds. -/
def all : List ClassKind :=
  [interface, plain, abstract, data, value, enumeration, object, annotationClass]

/-- The kind of a name. -/
def ofName (name : String) : Decoded ClassKind :=
  match all.find? fun k => k.name = name with
  | some kind => .ok kind
  | none => .error (.unknownVariant name (all.map ClassKind.name))

/-- Decodes a kind: its name, or an object whose only member has that name and says nothing
more. -/
def ofJson : Json → Decoded ClassKind
  | .string s => ofName s
  | .object [(name, content)] => do
    let kind ← ofName name
    match content with
    | .null => return kind
    | .object [] => return kind
    | _ => .error .wrongType
  | .object _ => .error .wrongValue
  | _ => .error .wrongType

end ClassKind

namespace PropertyDecl

/-- The fields of a property that have been met. -/
structure Fields where
  name : Option String
  type : Option TypeRef
  annotations : Option (List Annotation)
  location : Option (Option Location)

/-- The fields with one more. -/
def Fields.set (f : Fields) (name : String) (value : Json) : Decoded Fields :=
  match name with
  | "name" => do return { f with name := ← field name f.name Json.toText value }
  | "type" => do return { f with type := ← field name f.type TypeRef.ofJson value }
  | "annotations" => do
    return { f with
      annotations := ← field name f.annotations (Json.toList Annotation.ofJson) value }
  | "location" => do
    return { f with location := ← field name f.location (Json.toOptional Location.ofJson) value }
  | _ => .ok f

/-- The property that the fields make. -/
def Fields.complete (f : Fields) : Decoded PropertyDecl := do
  return ⟨← required "name" f.name, ← required "type" f.type, f.annotations.getD [],
    f.location.getD none⟩

/-- Decodes a property. -/
def ofJson : Json → Decoded PropertyDecl :=
  Json.toRecord ["name", "type", "annotations", "location"] ⟨none, none, none, none⟩
    Fields.set Fields.complete

/-- Writes a property. -/
def toJson (p : PropertyDecl) : Json :=
  .object [("name", .string p.name), ("type", p.type.toJson),
    ("annotations", .list Annotation.toJson p.annotations),
    ("location", .optional Location.toJson p.location)]

end PropertyDecl

namespace CompanionDecl

/-- The fields of a companion object that have been met. -/
structure Fields where
  name : Option String
  typeParameters : Option (List String)
  superTypes : Option (List TypeRef)

/-- The fields with one more. -/
def Fields.set (f : Fields) (name : String) (value : Json) : Decoded Fields :=
  match name with
  | "name" => do return { f with name := ← field name f.name Json.toText value }
  | "typeParameters" => do
    return { f with
      typeParameters := ← field name f.typeParameters (Json.toList Json.toText) value }
  | "superTypes" => do
    return { f with superTypes := ← field name f.superTypes (Json.toList TypeRef.ofJson) value }
  | _ => .ok f

/-- The companion object that the fields make. -/
def Fields.complete (f : Fields) : Decoded CompanionDecl :=
  .ok ⟨f.name.getD "Companion", f.typeParameters.getD [], f.superTypes.getD []⟩

/-- Decodes a companion object. -/
def ofJson : Json → Decoded CompanionDecl :=
  Json.toRecord ["name", "typeParameters", "superTypes"] ⟨none, none, none⟩
    Fields.set Fields.complete

/-- Writes a companion object. -/
def toJson (k : CompanionDecl) : Json :=
  .object [("name", .string k.name), ("typeParameters", .list .string k.typeParameters),
    ("superTypes", .list TypeRef.toJson k.superTypes)]

end CompanionDecl

namespace AliasDecl

/-- The fields of an alias that have been met. -/
structure Fields where
  package : Option String
  name : Option String
  typeParameters : Option (List String)
  target : Option TypeRef
  annotations : Option (List Annotation)
  location : Option (Option Location)

/-- The fields of a record of which nothing has been met. -/
def Fields.start : Fields := ⟨none, none, none, none, none, none⟩

/-- The fields with one more. -/
def Fields.set (f : Fields) (name : String) (value : Json) : Decoded Fields :=
  match name with
  | "package" => do return { f with package := ← field name f.package Json.toText value }
  | "name" => do return { f with name := ← field name f.name Json.toText value }
  | "typeParameters" => do
    return { f with
      typeParameters := ← field name f.typeParameters (Json.toList Json.toText) value }
  | "type" => do return { f with target := ← field name f.target TypeRef.ofJson value }
  | "annotations" => do
    return { f with
      annotations := ← field name f.annotations (Json.toList Annotation.ofJson) value }
  | "location" => do
    return { f with location := ← field name f.location (Json.toOptional Location.ofJson) value }
  | _ => .ok f

/-- The alias that the fields make. -/
def Fields.complete (f : Fields) : Decoded AliasDecl := do
  return ⟨f.package.getD "", ← required "name" f.name, f.typeParameters.getD [],
    ← required "type" f.target, f.annotations.getD [], f.location.getD none⟩

/-- Decodes an alias. -/
def ofJson : Json → Decoded AliasDecl :=
  Json.toRecord ["package", "name", "typeParameters", "type", "annotations", "location"] .start
    Fields.set Fields.complete

/-- The members that an alias is written with. -/
def toMembers (a : AliasDecl) : List (String × Json) :=
  [("package", .string a.package), ("name", .string a.name),
    ("typeParameters", .list .string a.typeParameters), ("type", a.target.toJson),
    ("annotations", .list Annotation.toJson a.annotations),
    ("location", .optional Location.toJson a.location)]

end AliasDecl

/-! ### Classes -/

namespace ClassDecl

/-- The fields of a class that have been met. -/
structure Fields where
  package : Option String
  name : Option String
  kind : Option ClassKind
  typeParameters : Option (List String)
  superTypes : Option (List TypeRef)
  annotations : Option (List Annotation)
  properties : Option (List PropertyDecl)
  companion : Option (Option CompanionDecl)
  nested : Option (List ClassDecl)
  isPrivate : Option Bool
  location : Option (Option Location)

/-- The fields of a record of which nothing has been met. -/
def Fields.start : Fields :=
  ⟨none, none, none, none, none, none, none, none, none, none, none⟩

/-- The names of the fields, in their order. -/
def fieldNames : List String :=
  ["package", "name", "classKind", "typeParameters", "superTypes", "annotations", "properties",
    "companion", "nested", "private", "location"]

/-- The fields with one more, which is not the nested classes. -/
def Fields.setPlain (f : Fields) (name : String) (value : Json) : Decoded Fields :=
  match name with
  | "package" => do return { f with package := ← field name f.package Json.toText value }
  | "name" => do return { f with name := ← field name f.name Json.toText value }
  | "classKind" => do return { f with kind := ← field name f.kind ClassKind.ofJson value }
  | "typeParameters" => do
    return { f with
      typeParameters := ← field name f.typeParameters (Json.toList Json.toText) value }
  | "superTypes" => do
    return { f with superTypes := ← field name f.superTypes (Json.toList TypeRef.ofJson) value }
  | "annotations" => do
    return { f with
      annotations := ← field name f.annotations (Json.toList Annotation.ofJson) value }
  | "properties" => do
    return { f with
      properties := ← field name f.properties (Json.toList PropertyDecl.ofJson) value }
  | "companion" => do
    return { f with
      companion := ← field name f.companion (Json.toOptional CompanionDecl.ofJson) value }
  | "private" => do return { f with isPrivate := ← field name f.isPrivate Json.toBool value }
  | "location" => do
    return { f with location := ← field name f.location (Json.toOptional Location.ofJson) value }
  | _ => .ok f

/-- The class that the fields make. -/
def Fields.complete (f : Fields) : Decoded ClassDecl := do
  return {
    package := f.package.getD ""
    name := ← required "name" f.name
    kind := f.kind.getD .plain
    typeParameters := f.typeParameters.getD []
    superTypes := f.superTypes.getD []
    annotations := f.annotations.getD []
    properties := f.properties.getD []
    companion := f.companion.getD none
    nested := f.nested.getD []
    isPrivate := f.isPrivate.getD false
    location := f.location.getD none }

mutual

/-- Decodes a class. -/
def ofJson : Json → Decoded ClassDecl
  | .object members => do (← ofMembers .start members).complete
  | .array items => do ((← ofItems .start fieldNames items).complete).mapError Json.inArray
  | _ => .error .wrongType

/-- Decodes a class's object member by member. -/
def ofMembers (f : Fields) : List (String × Json) → Decoded Fields
  | [] => .ok f
  | (name, value) :: members => do ofMembers (← set f name value) members

/-- Decodes a class's array item by item. -/
def ofItems (f : Fields) (names : List String) : List Json → Decoded Fields
  | [] => .ok f
  | item :: items =>
    match names with
    | [] => .error .surplusItems
    | name :: names => do ofItems (← set f name item) names items

/-- The fields with one more. -/
def set (f : Fields) (name : String) : Json → Decoded Fields
  | .array items =>
    if name = "nested" then
      if f.nested.isSome then .error (.duplicateField name)
      else do return { f with nested := some (← listOfJson items) }
    else f.setPlain name (.array items)
  | value =>
    if name = "nested" then
      if f.nested.isSome then .error (.duplicateField name) else .error .wrongType
    else f.setPlain name value

/-- Decodes the classes nested in a class. -/
def listOfJson : List Json → Decoded (List ClassDecl)
  | [] => .ok []
  | item :: items => do
    let c ← ofJson item
    return c :: (← listOfJson items)

end

/-- The members that a class is written with, given its nested classes in written form. -/
def membersWith (c : ClassDecl) (nested : List Json) : List (String × Json) :=
  [("package", .string c.package), ("name", .string c.name),
    ("classKind", .string c.kind.name),
    ("typeParameters", .list .string c.typeParameters),
    ("superTypes", .list TypeRef.toJson c.superTypes),
    ("annotations", .list Annotation.toJson c.annotations),
    ("properties", .list PropertyDecl.toJson c.properties),
    ("companion", .optional CompanionDecl.toJson c.companion),
    ("nested", .array nested),
    ("private", .bool c.isPrivate),
    ("location", .optional Location.toJson c.location)]

mutual

/-- Writes a class. -/
def toJson : ClassDecl → Json
  | ⟨package, name, kind, typeParameters, superTypes, annotations, properties, companion, nested,
      isPrivate, location⟩ =>
    .object (membersWith ⟨package, name, kind, typeParameters, superTypes, annotations, properties,
      companion, nested, isPrivate, location⟩ (listToJson nested))

/-- Writes several classes. -/
def listToJson : List ClassDecl → List Json
  | [] => []
  | c :: cs => toJson c :: listToJson cs

end

/-- The members that a class is written with. -/
def toMembers (c : ClassDecl) : List (String × Json) :=
  c.membersWith (listToJson c.nested)

end ClassDecl

/-! ### Declarations -/

/-- What a declaration may declare. -/
inductive DeclarationKind
  | classKind
  | aliasKind
deriving DecidableEq, Repr

namespace DeclarationKind

/-- The name of a kind of declaration. -/
def name : DeclarationKind → String
  | classKind => "class"
  | aliasKind => "typeAlias"

/-- Decodes a kind of declaration. -/
def ofJson : Json → Decoded DeclarationKind
  | .string s =>
    if s = classKind.name then .ok classKind
    else if s = aliasKind.name then .ok aliasKind
    else .error (.unknownVariant s [classKind.name, aliasKind.name])
  | _ => .error .wrongType

/-- Takes the kind out of a declaration's members. -/
def takeFrom (found : Option DeclarationKind) :
    List (String × Json) → Decoded (Option DeclarationKind × List (String × Json))
  | [] => .ok (found, [])
  | (name, value) :: members => do
    if name = "kind" then
      takeFrom (← field name found ofJson value) members
    else
      let (kind, rest) ← takeFrom found members
      return (kind, (name, value) :: rest)

end DeclarationKind

namespace Declaration

/-- Decodes what follows the kind of a declaration. -/
def ofBody (kind : DeclarationKind) (body : Json) : Decoded Declaration :=
  if body.isReadable then
    match kind with
    | .classKind => ((ClassDecl.ofJson body).map ofClass).mapError DecodeError.afterReading
    | .aliasKind => ((AliasDecl.ofJson body).map ofAlias).mapError DecodeError.afterReading
  else .error .wrongType

/-- Decodes a declaration. -/
def ofJson : Json → Decoded Declaration
  | .object members => do
    let (kind, rest) ← DeclarationKind.takeFrom none members
    ofBody (← required "kind" kind) (.object rest)
  | .array [] => .error (.missingField "kind")
  | .array (item :: items) => do ofBody (← DeclarationKind.ofJson item) (.array items)
  | _ => .error .wrongType

/-- Writes a declaration. -/
def toJson : Declaration → Json
  | ofClass c => .object (("kind", .string DeclarationKind.classKind.name) :: c.toMembers)
  | ofAlias a => .object (("kind", .string DeclarationKind.aliasKind.name) :: a.toMembers)

end Declaration

/-! ### Source files -/

namespace SourceFile

/-- The declarations, if they have been met, with those of one more field. -/
def set (declarations : Option (List Declaration)) (name : String) (value : Json) :
    Decoded (Option (List Declaration)) :=
  if name = "declarations" then
    field name declarations (Json.toList Declaration.ofJson) value
  else .ok declarations

/-- Decodes the declarations of a source file. -/
def declarationsOfJson : Json → Decoded (List Declaration) :=
  Json.toRecord ["declarations"] none set fun found => .ok (found.getD [])

/-- Reads a document that was found under a path. -/
def decode (path text : String) : Except DocumentError SourceFile :=
  (Json.decodeText declarationsOfJson text).map (SourceFile.mk path)

/-- Writes a source file. -/
def toJson (f : SourceFile) : Json :=
  .object [("declarations", .list Declaration.toJson f.declarations)]

end SourceFile

end ModelForge
