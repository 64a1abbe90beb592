/-
This file holds the errors in the structure of a text, and words them.
-/
import StorageSchema.Lexeme
import StorageSchema.Word

namespace StorageSchema

/-- An expectation says what may come next at a place of a text. -/
inductive Expectation where
  | definition
  | typeName
  | openingBrace
  | fieldName
  | colon
  | type
  | closingBracket
  | openingAngle (wrapper : Wrapper)
  | objectName
  | comma
  | closingAngle
  deriving DecidableEq, Repr

/-- The wording of an expectation follows that of what was found. -/
def Expectation.message : Expectation → String
  | .definition => "expected a type definition"
  | .typeName => "expected a type name"
  | .openingBrace => "expected `\x7b`"
  | .fieldName => "expected a field name or `\x7d`"
  | .colon => "expected `:` after the field name"
  | .type => "expected a type"
  | .closingBracket => "expected `]`"
  | .openingAngle wrapper => String.join ["expected `<` after `", wrapper.keyword, "`"]
  | .objectName => "`LiveObject` expects the name of an object type, e.g. `LiveObject<Foo>`"
  | .comma => "expected `,` between key and value types"
  | .closingAngle => "expected `>`"

/-- A lexeme is refused because another one is expected, or because it spells a scalar in a way that
is no longer in use. -/
inductive SyntaxError.Cause where
  | expected (expectation : Expectation)
  | legacyScalar (scalar : Scalar)
  deriving DecidableEq, Repr

/-- A syntax error is found at the first lexeme that cannot stand where it does. -/
structure SyntaxError (Mark : Type) where
  lexeme : Lexeme Mark
  cause : SyntaxError.Cause
  deriving DecidableEq

/-- The name of an object has a message of its own, and characters that belong to no lexeme are
reported without an expectation. -/
def SyntaxError.message {Mark : Type} (error : SyntaxError Mark) : String :=
  match error.cause with
  | .legacyScalar scalar =>
      String.join ["legacy built-in type `", error.lexeme.text, "` is not supported, use `",
        scalar.keyword, "` instead"]
  | .expected .objectName => Expectation.objectName.message
  | .expected expectation =>
      match error.lexeme.kind with
      | .ending => String.join ["unexpected end of input, ", expectation.message]
      | .invalid => String.join ["unexpected character `", error.lexeme.text, "`"]
      | .unterminatedString => "unterminated string literal"
      | _ => String.join ["unexpected `", error.lexeme.text, "`, ", expectation.message]

end StorageSchema
