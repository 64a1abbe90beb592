/-
This file writes documents as JSON values. Marks are left out, and each value names its kind first.
-/
import StorageSchema.Check.Schema
import StorageSchema.Document.Node
import StorageSchema.Json
import StorageSchema.Number.Written

namespace StorageSchema

variable {Mark : Type}

/-- The kind of a node is its first property. -/
def Json.node (kind : String) (properties : List (String × Json)) : Json :=
  .object (("_kind", .string kind) :: properties)

/-- An absent comment is null. -/
def Json.comment : Option String → Json
  | some text => .string text
  | none => .null

/-- An infinite number is null. -/
def Double.toJson (number : Double) : Json :=
  match number.written? with
  | some text => .number text
  | none => .null

/-- A name has its text as a property. -/
def Name.toJson (kind : String) (name : Name Mark) : Json :=
  .node kind [("name", .string name.text)]

mutual

/-- A type has its kind and what is inside it as properties. -/
def TypeExpr.toJson : TypeExpr Mark → Json
  | .scalar mark kind => .node (TypeExpr.scalar mark kind).kindName []
  | .string _ value => .node "StringLiteral" [("value", .string value)]
  | .number _ value => .node "NumberLiteral" [("value", value.toJson)]
  | .boolean _ value => .node "BooleanLiteral" [("value", .boolean value)]
  | .reference named =>
      .node "TypeRef"
        [("ref", named.name.toJson "TypeName"), ("asLiveObject", .boolean named.asLiveObject)]
  | .array _ item => .node "ArrayType" [("ofType", item.toJson)]
  | .liveList _ item => .node "LiveListType" [("ofType", item.toJson)]
  | .liveMap _ key value =>
      .node "LiveMapType" [("keyType", key.toJson), ("valueType", value.toJson)]
  | .union _ members => .node "UnionType" [("members", .array (TypeExpr.toJsonAll members))]

def TypeExpr.toJsonAll : List (TypeExpr Mark) → List Json
  | [] => []
  | member :: rest => member.toJson :: TypeExpr.toJsonAll rest

end

/-- A field has its name and its type between its other properties. -/
def Field.toJson (field : Field Mark) : Json :=
  .node "FieldDef"
    [("name", field.name.toJson "Identifier"), ("optional", .boolean field.isOptional),
      ("type", field.type.toJson), ("leadingComment", .comment field.leadingComment),
      ("trailingComment", .comment field.trailingComment)]

/-- A definition has its fields before its comment. -/
def Definition.toJson (definition : Definition Mark) : Json :=
  .node "ObjectTypeDefinition"
    [("name", definition.name.toJson "TypeName"),
      ("fields", .array (definition.fields.map Field.toJson)),
      ("leadingComment", .comment definition.leadingComment)]

/-- A document has its definitions as its property. -/
def Document.toJson (document : Document Mark) : Json :=
  .node "Document" [("definitions", .array (document.definitions.map Definition.toJson))]

/-- A classified definition has its classification after its name, and its fields come last. -/
def ClassifiedDefinition.toJson (classified : ClassifiedDefinition Mark) : Json :=
  let definition := classified.definition
  .node "ObjectTypeDefinition"
    [("name", definition.name.toJson "TypeName"), ("isStatic", .boolean classified.isStatic),
      ("leadingComment", .comment definition.leadingComment),
      ("fields", .array (definition.fields.map Field.toJson))]

/-- A schema is no node, and it has its root, its document and its other definitions. -/
def Schema.toJson (schema : Schema Mark) : Json :=
  .object
    [("root", schema.root.toJson), ("ast", schema.document.toJson),
      ("definitions", .array (schema.definitions.map ClassifiedDefinition.toJson))]

end StorageSchema
