/-
This file counts rows and columns of a text, both from zero, where a column counts characters.
-/
import StorageSchema.Text.Size

namespace StorageSchema.Text

/-- A position is a row and a column of a text. -/
structure Position where
  row : Nat
  column : Nat
  deriving DecidableEq, Repr

/-- The position after a line feed begins a row, and after any other character it is a column on. -/
def Position.next (position : Position) (letter : Char) : Position :=
  if letter = '\n' then ⟨position.row + 1, 0⟩ else ⟨position.row, position.column + 1⟩

/-- This function walks from a position to the character that holds the byte at the offset, and
beyond the end each byte is a column. -/
def Position.walk (position : Position) : List Char → Nat → Position
  | [], offset => ⟨position.row, position.column + offset⟩
  | letter :: rest, offset =>
      if offset < letter.utf8Size then position
      else (position.next letter).walk rest (offset - letter.utf8Size)

/-- The position of an offset is counted from the beginning of the text. -/
def positionOf (text : List Char) (offset : Nat) : Position := Position.walk ⟨0, 0⟩ text offset

theorem Position.walk_append (position : Position) (first second : List Char) (offset : Nat) :
    position.walk (first ++ second) (size first + offset) =
      (first.foldl Position.next position).walk second offset := by
  induction first generalizing position with
  | nil => simp
  | cons letter rest inductionHypothesis =>
      have positive : 0 < letter.utf8Size := letter.utf8Size_pos
      simp only [List.cons_append, size_cons, Position.walk, List.foldl_cons]
      rw [if_neg (by omega), show letter.utf8Size + size rest + offset - letter.utf8Size =
        size rest + offset by omega, inductionHypothesis]

end StorageSchema.Text
