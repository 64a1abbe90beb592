/-
This file counts the single-character edits that lead from one text to another.
-/

namespace StorageSchema.Text

/-- A row of distances leads from one text to every ending of another, longest first. This function
puts a letter before the first text, given the row of that text. -/
def distanceRow (letter : Char) : List Char → List Nat → List Nat
  | [], below => [below.headD 0 + 1]
  | other :: rest, below =>
      let shorter := distanceRow letter rest below.tail
      let change := below.tail.headD 0 + if letter = other then 0 else 1
      min change (min (below.headD 0) (shorter.headD 0) + 1) :: shorter

/-- From the empty text every ending is as far as it is long. -/
def emptyRow : List Char → List Nat
  | [] => [0]
  | _ :: rest => (rest.length + 1) :: emptyRow rest

/-- The edit distance is the least number of insertions, deletions and changes of a character. -/
def editDistance (source target : List Char) : Nat :=
  (source.foldr (fun letter below => distanceRow letter target below) (emptyRow target)).headD 0

end StorageSchema.Text
