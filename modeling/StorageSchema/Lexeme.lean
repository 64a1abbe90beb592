/-
This file holds the tokens that matter for the structure of a text, together with the comments
around them.
-/
import StorageSchema.Margin
import StorageSchema.Token.Scan

namespace StorageSchema

/-- A lexeme is a token other than a comment or a line break. It carries the comment on the lines
just above it, and the comment beside the lexeme before it. -/
structure Lexeme (Mark : Type) where
  kind : Token.Kind
  text : String
  mark : Mark
  above : Option String
  beside : Option String
  deriving DecidableEq

/-- This function drops comments and line breaks into the margin. -/
def Lexeme.ofTokens (margin : Margin) : List Token → List (Lexeme Span)
  | [] => []
  | token :: rest =>
      match token.kind with
      | .comment => ofTokens (margin.addComment (commentBody token.text)) rest
      | .newline => ofTokens margin.endLine rest
      | kind =>
          ⟨kind, token.text, token.span, margin.above, margin.beside⟩ ::
            ofTokens Margin.afterLexeme rest

/-- The lexemes of a text come from its tokens. -/
def Lexeme.ofText (text : String) : List (Lexeme Span) :=
  ofTokens Margin.opening (Token.ofText text)

/-- The end of a text is a lexeme without comments. -/
def Lexeme.endOf (text : String) : Lexeme Span :=
  ⟨.ending, "", (Token.endOf text).span, none, none⟩

end StorageSchema
