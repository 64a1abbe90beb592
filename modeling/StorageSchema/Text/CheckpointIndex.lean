/-
This file holds an index from offsets to positions. The index divides the text into chunks, so that
an offset is found by a search among the chunks and a short count inside one of them.
-/
import StorageSchema.Text.Position

namespace StorageSchema.Text

/-- A checkpoint begins a chunk. Its widths are those of the first characters of the chunk in bytes,
and all characters after them are one byte wide. -/
structure Checkpoint where
  offset : Nat
  position : Position
  widths : List Nat
  deriving DecidableEq, Repr

/-- This function counts the characters that end within the distance. -/
def columnsWithin : List Nat → Nat → Nat
  | [], distance => distance
  | width :: widths, distance =>
      if distance < width then 0 else columnsWithin widths (distance - width) + 1

/-- The position of an offset in or after a chunk counts on from the position of its checkpoint. -/
def Checkpoint.locate (checkpoint : Checkpoint) (offset : Nat) : Position :=
  ⟨checkpoint.position.row,
    checkpoint.position.column + columnsWithin checkpoint.widths (offset - checkpoint.offset)⟩

/-- A survey has divided the beginning of a text into chunks. Its lists have the latest entry first,
`recorded` counts the bytes that the widths cover, and `plain` counts the one-byte characters after
them. -/
structure Survey where
  finished : List Checkpoint
  offset : Nat
  position : Position
  widths : List Nat
  recorded : Nat
  plain : Nat
  current : Position

/-- The first chunk begins the text. -/
def Survey.start : Survey := ⟨[], 0, ⟨0, 0⟩, [], 0, 0, ⟨0, 0⟩⟩

/-- The open chunk begins here. -/
def Survey.checkpoint (survey : Survey) : Checkpoint :=
  ⟨survey.offset, survey.position, survey.widths.reverse⟩

/-- The survey ends the open chunk and begins another one where it stands. -/
def Survey.divide (survey : Survey) : Survey :=
  { survey with
    finished := survey.checkpoint :: survey.finished
    offset := survey.offset + survey.recorded + survey.plain
    position := survey.current
    widths := []
    recorded := 0
    plain := 0 }

/-- The survey passes a character, and it records the widths up to a wide one. -/
def Survey.pass (survey : Survey) (letter : Char) : Survey :=
  if 1 < letter.utf8Size then
    { survey with
      widths := letter.utf8Size :: (List.replicate survey.plain 1 ++ survey.widths)
      recorded := survey.recorded + survey.plain + letter.utf8Size
      plain := 0
      current := survey.current.next letter }
  else { survey with plain := survey.plain + 1, current := survey.current.next letter }

/-- A chunk ends after a line feed, after it has recorded more bytes than the limit, and before a
wide character that would make it record more than the limit of plain ones at once. -/
def Survey.add (limit : Nat) (survey : Survey) (letter : Char) : Survey :=
  let before :=
    if 1 < letter.utf8Size ∧ limit < survey.plain then survey.divide else survey
  let after := before.pass letter
  if letter = '\n' ∨ limit < after.recorded then after.divide else after

/-- An index holds the checkpoints of a text, of which the first begins the text. -/
structure CheckpointIndex where
  first : Checkpoint
  others : Array Checkpoint
  deriving DecidableEq, Repr

/-- This function surveys a text with the limit on the record of one chunk. -/
def CheckpointIndex.ofText (limit : Nat) (text : List Char) : CheckpointIndex :=
  let survey := text.foldl (Survey.add limit) Survey.start
  match (survey.checkpoint :: survey.finished).reverse with
  | [] => ⟨survey.checkpoint, #[]⟩
  | first :: others => ⟨first, others.toArray⟩

/-- The search counts the checkpoints that do not begin after the offset, given that `low` of them
do not and that those from `high` on do. -/
def countUpTo (checkpoints : Array Checkpoint) (offset low high : Nat)
    (within : high ≤ checkpoints.size) : Nat :=
  if unfinished : low < high then
    have inside : (low + high) / 2 < checkpoints.size := by omega
    if checkpoints[(low + high) / 2].offset ≤ offset then
      countUpTo checkpoints offset ((low + high) / 2 + 1) high within
    else countUpTo checkpoints offset low ((low + high) / 2) (by omega)
  else low
termination_by high - low

/-- The last checkpoint that does not begin after the offset is the one to count from. -/
def CheckpointIndex.checkpointFor (index : CheckpointIndex) (offset : Nat) : Checkpoint :=
  match countUpTo index.others offset 0 index.others.size (Nat.le_refl _) with
  | 0 => index.first
  | count + 1 => index.others[count]?.getD index.first

/-- The position of an offset is counted from its checkpoint. -/
def CheckpointIndex.locate (index : CheckpointIndex) (offset : Nat) : Position :=
  (index.checkpointFor offset).locate offset

end StorageSchema.Text
