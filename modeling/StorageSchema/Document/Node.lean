/-
This file lists the nodes of a document, each with the name of its kind.
-/
import StorageSchema.Document

namespace StorageSchema

/-- A node is a part of a document that has a mark of its own. -/
inductive Node (Mark : Type) where
  | document (whole : Document Mark)
  | definition (declared : Definition Mark)
  | typeName (name : Name Mark)
  | field (declared : Field Mark)
  | fieldName (name : Name Mark)
  | type (expression : TypeExpr Mark)

variable {Mark : Type}

/-- Every node has its own mark. -/
def Node.mark : Node Mark → Mark
  | .document whole => whole.mark
  | .definition declared => declared.mark
  | .typeName name => name.mark
  | .field declared => declared.mark
  | .fieldName name => name.mark
  | .type expression => expression.mark

/-- The kind of an expression tells its scalar too. -/
def TypeExpr.kindName : TypeExpr Mark → String
  | .scalar _ .boolean => "BooleanType"
  | .scalar _ .number => "NumberType"
  | .scalar _ .string => "StringType"
  | .scalar _ .null => "NullType"
  | .string .. => "StringLiteral"
  | .number .. => "NumberLiteral"
  | .boolean .. => "BooleanLiteral"
  | .reference .. => "TypeRef"
  | .array .. => "ArrayType"
  | .liveList .. => "LiveListType"
  | .liveMap .. => "LiveMapType"
  | .union .. => "UnionType"

/-- The name of a kind is that of its values in JSON. -/
def Node.kindName : Node Mark → String
  | .document _ => "Document"
  | .definition _ => "ObjectTypeDefinition"
  | .typeName _ => "TypeName"
  | .field _ => "FieldDef"
  | .fieldName _ => "Identifier"
  | .type expression => expression.kindName

/-- A reference is followed by the name in it. -/
def TypeExpr.ownNodes : TypeExpr Mark → List (Node Mark)
  | .reference named => [.type (.reference named), .typeName named.name]
  | expression => [.type expression]

/-- These are the nodes of a type in the order of the text. -/
def TypeExpr.nodes (type : TypeExpr Mark) : List (Node Mark) :=
  type.subexpressions.flatMap TypeExpr.ownNodes

/-- A field is followed by its name and its type. -/
def Field.nodes (field : Field Mark) : List (Node Mark) :=
  .field field :: .fieldName field.name :: field.type.nodes

/-- A definition is followed by its name and its fields. -/
def Definition.nodes (definition : Definition Mark) : List (Node Mark) :=
  .definition definition :: .typeName definition.name :: definition.fields.flatMap Field.nodes

/-- The nodes of a document come in the order of the text, and each before those inside it. -/
def Document.nodes (document : Document Mark) : List (Node Mark) :=
  .document document :: document.definitions.flatMap Definition.nodes

end StorageSchema
