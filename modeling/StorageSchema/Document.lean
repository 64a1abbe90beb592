/-
This file holds schema documents, which are lists of object types with typed fields.
-/
import StorageSchema.TypeExpr

namespace StorageSchema

/-- A field of an object type, with the comments that belong to it. -/
structure Field (Mark : Type) where
  mark : Mark
  name : Name Mark
  isOptional : Bool
  type : TypeExpr Mark
  leadingComment : Option String
  trailingComment : Option String
  deriving DecidableEq

/-- A definition gives an object type a name. -/
structure Definition (Mark : Type) where
  mark : Mark
  name : Name Mark
  fields : List (Field Mark)
  leadingComment : Option String
  deriving DecidableEq

/-- A document holds its definitions in the order of the text. -/
structure Document (Mark : Type) where
  mark : Mark
  definitions : List (Definition Mark)
  deriving DecidableEq

variable {Mark Other : Type}

/-- This function changes the marks in a field. -/
def Field.map (change : Mark → Other) (field : Field Mark) : Field Other :=
  ⟨change field.mark, field.name.map change, field.isOptional, field.type.map change,
    field.leadingComment, field.trailingComment⟩

/-- This function changes the marks in a definition. -/
def Definition.map (change : Mark → Other) (definition : Definition Mark) : Definition Other :=
  ⟨change definition.mark, definition.name.map change, definition.fields.map (Field.map change),
    definition.leadingComment⟩

/-- This function changes the mark of every node of a document and nothing else. -/
def Document.map (change : Mark → Other) (document : Document Mark) : Document Other :=
  ⟨change document.mark, document.definitions.map (Definition.map change)⟩

/-- These are the types of all fields in the order of the text. -/
def Document.fieldTypes (document : Document Mark) : List (TypeExpr Mark) :=
  document.definitions.flatMap fun definition => definition.fields.map Field.type

end StorageSchema
