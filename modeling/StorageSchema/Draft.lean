/-
This file reads documents one lexeme at a time. A draft is the part of a document that has been read
so far, and it always knows what may come next.
-/
import StorageSchema.Document
import StorageSchema.TypeDraft

namespace StorageSchema

/-- An open definition is one that has not been closed, with the latest field first. -/
structure OpenDefinition (Mark : Type) where
  keyword : Mark
  name : Name Mark
  leadingComment : Option String
  fields : List (Field Mark)
  deriving DecidableEq

/-- A label is what a field has before its type. -/
structure Label (Mark : Type) where
  name : Name Mark
  isOptional : Bool
  leadingComment : Option String
  deriving DecidableEq

/-- A stage says how far the definition has been read that is open, if there is one. -/
inductive Stage (Mark : Type) where
  | outside
  | keyword (keyword : Mark) (leadingComment : Option String)
  | heading (keyword : Mark) (leadingComment : Option String) (name : Name Mark)
  | body (opened : OpenDefinition Mark)
  | label (opened : OpenDefinition Mark) (label : Label Mark)
  | optionalLabel (opened : OpenDefinition Mark) (label : Label Mark)
  | type (opened : OpenDefinition Mark) (label : Label Mark) (around : Surroundings Mark)
      (draft : TypeDraft Mark)
  | comma (opened : OpenDefinition Mark) (field : Field Mark)
  deriving DecidableEq

/-- A draft holds the finished definitions, latest first. -/
structure Draft (Mark : Type) where
  finished : List (Definition Mark)
  stage : Stage Mark
  deriving DecidableEq

variable {Mark : Type}

/-- Nothing has been read at the beginning. -/
def Draft.empty : Draft Mark := ⟨[], .outside⟩

/-- A stage knows what may come next. -/
def Stage.expectation : Stage Mark → Expectation
  | .outside => .definition
  | .keyword .. => .typeName
  | .heading .. => .openingBrace
  | .body _ | .comma _ _ => .fieldName
  | .label _ _ | .optionalLabel _ _ => .colon
  | .type _ _ around draft => draft.expectation around

/-- The closing brace ends a definition. -/
def OpenDefinition.close [Union Mark] (opened : OpenDefinition Mark) (brace : Mark) :
    Definition Mark :=
  ⟨opened.keyword ∪ brace, opened.name, opened.fields.reverse, opened.leadingComment⟩

/-- A field reaches from its name to its type. -/
def Label.field [Union Mark] (label : Label Mark) (type : TypeExpr Mark) : Field Mark :=
  ⟨label.name.mark ∪ type.mark, label.name, label.isOptional, type, label.leadingComment, none⟩

/-- The lexeme after a field brings the comment beside its end. -/
def OpenDefinition.addField (opened : OpenDefinition Mark) (field : Field Mark)
    (lexeme : Lexeme Mark) : OpenDefinition Mark :=
  { opened with fields := { field with trailingComment := lexeme.beside } :: opened.fields }

/-- Between fields a name begins another field, and a closing brace ends the definition. -/
def Draft.addInBody [Union Mark] (draft : Draft Mark) (opened : OpenDefinition Mark)
    (lexeme : Lexeme Mark) : Except (SyntaxError Mark) (Draft Mark) :=
  match lexeme.kind with
  | .rightBrace => .ok ⟨opened.close lexeme.mark :: draft.finished, .outside⟩
  | .identifier =>
      let label := ⟨⟨lexeme.mark, lexeme.text⟩, false, lexeme.above⟩
      .ok { draft with stage := .label opened label }
  | _ => lexeme.refuse .fieldName

/-- A complete type that nothing encloses may end its field, with or without a comma. -/
def Draft.addInType [Union Mark] (legacy : Bool) (draft : Draft Mark)
    (opened : OpenDefinition Mark) (label : Label Mark) (around : Surroundings Mark)
    (typeDraft : TypeDraft Mark) (lexeme : Lexeme Mark) :
    Except (SyntaxError Mark) (Draft Mark) :=
  match typeDraft, around.layers, lexeme.kind with
  | .complete item, [], .comma =>
      let field := label.field (around.finish item)
      .ok { draft with stage := .comma opened { field with mark := field.mark ∪ lexeme.mark } }
  | .complete item, [], .identifier | .complete item, [], .rightBrace =>
      draft.addInBody (opened.addField (label.field (around.finish item)) lexeme) lexeme
  | _, _, _ =>
      (typeDraft.add legacy around lexeme).map fun next =>
        { draft with stage := .type opened label next.1 next.2 }

/-- This function reads one lexeme of a document. -/
def Draft.add [Union Mark] (legacy : Bool) (draft : Draft Mark) (lexeme : Lexeme Mark) :
    Except (SyntaxError Mark) (Draft Mark) :=
  match draft.stage with
  | .outside =>
      if lexeme.kind = .identifier ∧ lexeme.text = "type" then
        .ok { draft with stage := .keyword lexeme.mark lexeme.above }
      else lexeme.refuse .definition
  | .keyword keyword leadingComment =>
      if lexeme.kind = .identifier then
        .ok { draft with stage := .heading keyword leadingComment ⟨lexeme.mark, lexeme.text⟩ }
      else lexeme.refuse .typeName
  | .heading keyword leadingComment name =>
      if lexeme.kind = .leftBrace then
        .ok { draft with stage := .body ⟨keyword, name, leadingComment, []⟩ }
      else lexeme.refuse .openingBrace
  | .body opened => draft.addInBody opened lexeme
  | .label opened label =>
      match lexeme.kind with
      | .question =>
          .ok { draft with stage := .optionalLabel opened { label with isOptional := true } }
      | .colon => .ok { draft with stage := .type opened label Surroundings.outermost .empty }
      | _ => lexeme.refuse .colon
  | .optionalLabel opened label =>
      if lexeme.kind = .colon then
        .ok { draft with stage := .type opened label Surroundings.outermost .empty }
      else lexeme.refuse .colon
  | .type opened label around typeDraft =>
      draft.addInType legacy opened label around typeDraft lexeme
  | .comma opened field => draft.addInBody (opened.addField field lexeme) lexeme

/-- A document may end outside its definitions only. -/
def Draft.finish (draft : Draft Mark) (mark : Mark) (ending : Lexeme Mark) :
    Except (SyntaxError Mark) (Document Mark) :=
  match draft.stage with
  | .outside => .ok ⟨mark, draft.finished.reverse⟩
  | stage => ending.refuse stage.expectation

/-- This function reads the lexemes of a document, and stops at the first that cannot stand where it
does. -/
def Document.ofLexemes [Union Mark] (legacy : Bool) (mark : Mark) (lexemes : List (Lexeme Mark))
    (ending : Lexeme Mark) : Except (SyntaxError Mark) (Document Mark) := do
  let draft ← lexemes.foldlM (Draft.add legacy) Draft.empty
  draft.finish mark ending

/-- A document covers its whole text. -/
def Document.ofText (legacy : Bool) (text : String) :
    Except (SyntaxError Span) (Document Span) :=
  ofLexemes legacy ⟨0, text.utf8ByteSize⟩ (Lexeme.ofText text) (Lexeme.endOf text)

end StorageSchema
