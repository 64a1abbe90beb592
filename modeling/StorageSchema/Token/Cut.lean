/-
This file cuts tokens out of a text byte by byte. The offset goes on by one byte at a time, except
over characters that are taken whole.
-/
import StorageSchema.Text.Access
import StorageSchema.Token.Scan

namespace StorageSchema

/-- A cut is the kind of a token with its span in the text. -/
structure Cut where
  kind : Token.Kind
  span : Span
  deriving DecidableEq, Repr

/-- Comments and line breaks do not matter for the structure of a text. -/
def Cut.isTrivia (cut : Cut) : Bool := cut.kind = .comment || cut.kind = .newline

namespace Token

/-- A number ends after its digits, or after the digits behind a point if there are any. -/
def numberStop (text : String) (offset : Nat) : Nat :=
  let whole := Text.skipWhile Char.isDigit text offset
  if (Text.byteAt? text whole).any (· = '.') &&
      (Text.byteAt? text (whole + 1)).any Char.isDigit then
    Text.skipWhile Char.isDigit text (whole + 1)
  else whole

/-- After a backslash the whole character is skipped, unless it is a line feed. -/
def escapedWidth? (text : String) (offset : Nat) : Option Nat :=
  if (Text.byteAt? text offset).any (· != '\n') then Text.widthAt? text offset else some 0

/-- A string ends after its closing quote, or else before the line feed or at the end. -/
def stringStop? (quote : Char) (text : String) (offset : Nat) : Option (Kind × Nat) :=
  match found : Text.byteAt? text offset with
  | none => some (.unterminatedString, offset)
  | some byte =>
      if byte = '\n' then some (.unterminatedString, offset)
      else if byte = '\\' then do
        let width ← escapedWidth? text (offset + 1)
        stringStop? quote text (offset + 1 + width)
      else if byte = quote then some (.string, offset + 1)
      else stringStop? quote text (offset + 1)
termination_by text.utf8ByteSize - offset
decreasing_by
  all_goals
    have inside := Text.lt_of_byteAt? found
    omega

/-- The first byte tells the kind of a token, except that two kinds need the second one too. -/
def stop? (text : String) (start : Nat) : Option (Kind × Nat) :=
  match Text.byteAt? text start with
  | none => some (.ending, start)
  | some byte =>
      if byte = '\n' then some (.newline, start + 1)
      else if byte = '#' || (byte = '/' && (Text.byteAt? text (start + 1)).any (· = '/')) then
        some (.comment, Text.skipWhile continuesLine text start)
      else if startsName byte then some (.identifier, Text.skipWhile continuesName text start)
      else if byte.isDigit then some (.number, numberStop text start)
      else if byte = '-' && (Text.byteAt? text (start + 1)).any Char.isDigit then
        some (.number, numberStop text (start + 1))
      else if byte = '\x22' || byte = '\x27' then stringStop? byte text (start + 1)
      else (Text.widthAt? text start).map fun width =>
        ((punctuation? byte).getD .invalid, start + width)

/-- The next token stands after the space at the offset, and the one after it begins where it
ends. -/
def next? (text : String) (offset : Nat) : Option (Cut × Nat) := do
  let start := Text.skipWhile isSpace text offset
  let (kind, stop) ← stop? text start
  some (⟨kind, ⟨start, stop⟩⟩, stop)

end Token

end StorageSchema
