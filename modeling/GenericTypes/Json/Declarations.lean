import GenericTypes.Json.Types
import GenericTypes.Declaration

/-!
# The written form of declarations

Declarations are written as records of all their fields, with null for what is
absent. A record that lacks a field which may be absent is read as though it had
null there.
-/

namespace GenericTypes

namespace ClassKind

/-- The written name of a kind. -/
def caseName : ClassKind → String
  | .ordinary => "Class"
  | .interface => "Interface"

/-- Write a kind. -/
def toJson (k : ClassKind) : Json := .string k.caseName

/-- Read a kind. -/
def ofJson? (j : Json) : Option ClassKind := do
  let name ← j.caseName?
  [ClassKind.ordinary, .interface].find? (·.caseName = name)

end ClassKind

namespace TypeParamDecl

/-- Write a type variable's declaration. -/
def toJson (p : TypeParamDecl) : Json :=
  .object
    [ ("declaring_class", .ofOption ClassId.toJson p.declaringClass),
      ("name", .string p.name),
      ("upper_bounds", .ofList Ty.toJson p.upperBounds) ]

/-- Read a type variable's declaration. -/
def ofJson? (j : Json) : Option TypeParamDecl := do
  let [name, bounds, declaring] ←
    j.record? ["name", "upper_bounds", "declaring_class"] | none
  return ⟨← name.string?, ← bounds.list? Ty.ofJson?,
    ← declaring.nullable? ClassId.ofJson?⟩

end TypeParamDecl

namespace FieldDecl

/-- Write a field's declaration. -/
def toJson (f : FieldDecl) : Json :=
  .object [("is_static", .bool f.isStatic), ("name", .string f.name),
    ("ty", f.type.toJson)]

/-- Read a field's declaration. -/
def ofJson? (j : Json) : Option FieldDecl := do
  let [name, type, isStatic] ← j.record? ["name", "ty", "is_static"] | none
  return ⟨← name.string?, ← Ty.ofJson? type, ← isStatic.bool?⟩

end FieldDecl

namespace MethodDecl

/-- Write a method's declaration. -/
def toJson (m : MethodDecl) : Json :=
  .object
    [ ("is_static", .bool m.isStatic),
      ("name", .string m.name),
      ("params", .ofList Ty.toJson m.params),
      ("return_type", .ofOption Ty.toJson m.returnType),
      ("type_params", .ofList TypeVarId.toJson m.typeParams) ]

/-- Read a method's declaration. -/
def ofJson? (j : Json) : Option MethodDecl := do
  let [name, typeParams, params, returnType, isStatic] ←
    j.record? ["name", "type_params", "params", "return_type", "is_static"]
      | none
  return ⟨← name.string?, ← typeParams.list? TypeVarId.ofJson?,
    ← params.list? Ty.ofJson?, ← returnType.nullable? Ty.ofJson?,
    ← isStatic.bool?⟩

end MethodDecl

namespace ClassDecl

/-- Write a class's declaration. -/
def toJson (c : ClassDecl) : Json :=
  .object
    [ ("enclosing", .ofOption ClassId.toJson c.enclosing),
      ("fields", .ofList FieldDecl.toJson c.fields),
      ("interfaces", .ofList Ty.toJson c.interfaces),
      ("kind", c.kind.toJson),
      ("methods", .ofList MethodDecl.toJson c.methods),
      ("name", .string c.name),
      ("super_class", .ofOption Ty.toJson c.superClass),
      ("type_params", .ofList TypeVarId.toJson c.typeParams) ]

/-- Read a class's declaration. -/
def ofJson? (j : Json) : Option ClassDecl := do
  let [name, kind, typeParams, superClass, interfaces, enclosing, fields,
      methods] ←
    j.record? ["name", "kind", "type_params", "super_class", "interfaces",
      "enclosing", "fields", "methods"] | none
  return ⟨← name.string?, ← ClassKind.ofJson? kind,
    ← typeParams.list? TypeVarId.ofJson?, ← superClass.nullable? Ty.ofJson?,
    ← interfaces.list? Ty.ofJson?,
    ← enclosing.nullable? ClassId.ofJson?, ← fields.list? FieldDecl.ofJson?,
    ← methods.list? MethodDecl.ofJson?⟩

end ClassDecl

end GenericTypes
