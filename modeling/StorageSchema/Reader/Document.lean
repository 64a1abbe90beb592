/-
This file reads fields, definitions and whole documents by recursive descent.
-/
import StorageSchema.Document
import StorageSchema.Reader.TypeExpr

namespace StorageSchema

namespace Reading

/-- The token is taken if it is next and has the kind. -/
def taken? (kind : Token.Kind) : Reading (Option Cut) := do
  let cut ← look
  if cut.kind = kind then do
    let cut ← take
    return some cut
  else return none

def field (legacy : Bool) : Reading (Field Span) := do
  let leadingComment ← commentAbove
  let cut ← take
  let name ← select cut.span
  let question ← taken? .question
  let _ ← expect .colon .colon
  let depth ← limit
  let type ← type legacy depth
  let comma ← taken? .comma
  let trailingComment ← commentBeside
  let mark :=
    match comma with
    | some comma => cut.span ∪ type.mark ∪ comma.span
    | none => cut.span ∪ type.mark
  return ⟨mark, ⟨cut.span, name⟩, question.isSome, type, leadingComment, trailingComment⟩

/-- A round reads one more field, or takes the closing brace. -/
def fields (legacy : Bool) (fields : List (Field Span)) :
    Reading (List (Field Span) ⊕ List (Field Span) × Cut) := do
  let cut ← look
  match cut.kind with
  | .rightBrace => do
      let close ← take
      return .inr (fields.reverse, close)
  | .identifier => do
      let field ← field legacy
      return .inl (field :: fields)
  | _ => unexpected cut .fieldName

def definition (legacy : Bool) : Reading (Definition Span) := do
  let leadingComment ← commentAbove
  let keyword ← take
  let cut ← expect .identifier .typeName
  let name ← select cut.span
  let _ ← expect .leftBrace .openingBrace
  let rounds ← limit
  let body ← loop (fields legacy) rounds []
  return ⟨keyword.span ∪ body.2.span, ⟨cut.span, name⟩, body.1, leadingComment⟩

/-- A round reads one more definition, up to the end of the text. -/
def definitions (legacy : Bool) (definitions : List (Definition Span)) :
    Reading (List (Definition Span) ⊕ List (Definition Span)) := do
  let cut ← look
  match cut.kind with
  | .ending => return .inr definitions.reverse
  | .identifier => do
      let text ← select cut.span
      if text = "type" then do
        let definition ← definition legacy
        return .inl (definition :: definitions)
      else unexpected cut .definition
  | _ => unexpected cut .definition

def document (legacy : Bool) : Reading (Document Span) := do
  let rounds ← limit
  let definitions ← loop (definitions legacy) rounds []
  let text ← ask fun reader => some reader.text
  return ⟨⟨0, text.utf8ByteSize⟩, definitions⟩

end Reading

/-- A document is read from the beginning of its text. -/
def Document.read? (legacy : Bool) (text : String) : Option (Except Diagnostic (Document Span)) :=
  (ExceptT.run ((Reading.document legacy).run (Reader.ofText text))).map fun outcome =>
    outcome.map Prod.fst

end StorageSchema
