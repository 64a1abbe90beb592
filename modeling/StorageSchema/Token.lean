/-
This file holds the tokens of a schema text.
-/
import StorageSchema.Span

namespace StorageSchema

/-- A kind tells what a token is, and comments and line breaks are tokens too. -/
inductive Token.Kind where
  | identifier
  | string
  | unterminatedString
  | number
  | leftBrace
  | rightBrace
  | lessThan
  | greaterThan
  | leftBracket
  | rightBracket
  | comma
  | colon
  | question
  | bar
  | comment
  | newline
  | invalid
  | ending
  deriving DecidableEq, Repr

/-- A token is a piece of the text together with the offset of its first byte. -/
structure Token where
  kind : Token.Kind
  text : String
  start : Nat
  deriving DecidableEq, Repr

/-- The span of a token covers exactly its text. -/
def Token.span (token : Token) : Span := ⟨token.start, token.start + token.text.utf8ByteSize⟩

/-- The last token of a text is empty and stands at the end. -/
def Token.endOf (text : String) : Token := ⟨.ending, "", text.utf8ByteSize⟩

end StorageSchema
