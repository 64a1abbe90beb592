/-
This file holds diagnostics and shows them against the text that they are about.
-/
import StorageSchema.Span
import StorageSchema.Text.CheckpointIndex

namespace StorageSchema

/-- A diagnostic says something about a place of a text. -/
structure Diagnostic where
  span : Span
  message : String
  deriving DecidableEq, Repr

/-- A line is divided at an offset in it, and holds no line feed. -/
structure Text.Line where
  before : List Char
  after : List Char
  deriving DecidableEq, Repr

/-- The line around an offset reaches from line feed to line feed. -/
def Text.lineAt? (text : List Char) (offset : Nat) : Option Text.Line :=
  (Text.splitAt? text offset).map fun parts =>
    ⟨(parts.1.reverse.takeWhile (· != '\n')).reverse, parts.2.takeWhile (· != '\n')⟩

/-- These are the characters of the whole line. -/
def Text.Line.letters (line : Text.Line) : List Char := line.before ++ line.after

/-- The excerpt shows a line and puts carets under so many of its characters. -/
def Text.Line.excerpt (line : Text.Line) (column carets : Nat) : String :=
  String.join ["\n  ", String.ofList line.letters, "\n  ",
    String.ofList (List.replicate column ' ' ++ List.replicate carets '^')]

/-- A diagnostic with a place is shown with the line that it starts on, and at least one column is
marked. It cannot be shown if its ends do not stand between characters of the text. -/
def Diagnostic.render? (text : List Char) (index : Text.CheckpointIndex)
    (diagnostic : Diagnostic) : Option String :=
  if diagnostic.span.isNowhere then some (String.join ["error: ", diagnostic.message])
  else do
    let line ← Text.lineAt? text diagnostic.span.start
    let length := min (diagnostic.span.stop - diagnostic.span.start) (Text.size line.after)
    let parts ← Text.splitAt? line.after length
    let position := index.locate diagnostic.span.start
    some (String.join ["error:", toString (position.row + 1), ":",
      toString (position.column + 1), ": ", diagnostic.message,
      line.excerpt position.column (max 1 parts.1.length)])

end StorageSchema
