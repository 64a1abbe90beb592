/-
This file gathers the comments that stand around the lexemes of a text, line by line.
-/
import StorageSchema.Text.Blank

namespace StorageSchema

/-- The text of a comment leaves out its marker and the blanks at both ends. -/
def commentBody (comment : String) : String :=
  let letters := comment.toList
  let body :=
    match letters with
    | '/' :: '/' :: rest => rest
    | '#' :: rest => rest
    | _ => letters
  String.ofList (Text.trim body)

/-- A margin describes what stands before the current place. The block holds the lines just above
the current one that hold a comment and nothing else, latest first. The comment is that of the
current line, if no lexeme stands on it. The comment beside the last lexeme ends its line. -/
structure Margin where
  block : List String
  comment : Option String
  beside : Option String
  onFreshLine : Bool
  deriving DecidableEq, Repr

/-- A text begins on a fresh line. -/
def Margin.opening : Margin := ⟨[], none, none, true⟩

/-- After a lexeme the line is not fresh. -/
def Margin.afterLexeme : Margin := ⟨[], none, none, false⟩

/-- A comment belongs to the lexeme on its line, or else to the line alone. -/
def Margin.addComment (margin : Margin) (text : String) : Margin :=
  if margin.onFreshLine then { margin with comment := some text }
  else { margin with beside := some text }

/-- The end of a line adds its comment to the block, and a line without one ends the block. -/
def Margin.endLine (margin : Margin) : Margin :=
  match margin.comment with
  | some text => ⟨text :: margin.block, none, margin.beside, true⟩
  | none => ⟨[], none, margin.beside, true⟩

/-- The comment above the current line has the lines of the block in the order of the text. -/
def Margin.above (margin : Margin) : Option String :=
  match margin.block with
  | [] => none
  | block => some ("\n".intercalate block.reverse)

end StorageSchema
