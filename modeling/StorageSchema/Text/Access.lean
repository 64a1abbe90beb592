/-
This file looks at a text by offsets into its bytes. What is asked for at an offset where it cannot
be is not answered.
-/
import StorageSchema.Span

namespace StorageSchema.Text

/-- A byte of a text is taken for the character with its number, and one beyond ASCII is then not a
character of the text. There is no byte from the end on. -/
def byteAt? (text : String) (offset : Nat) : Option Char :=
  if inside : offset < text.utf8ByteSize then
    some (Char.ofNat (text.getUTF8Byte ⟨offset⟩ inside).toNat)
  else none

theorem lt_of_byteAt? {text : String} {offset : Nat} {byte : Char}
    (found : byteAt? text offset = some byte) : offset < text.utf8ByteSize := by
  rw [byteAt?] at found
  split at found
  · next inside => exact inside
  · cases found

/-- The bytes that pass the test are skipped. -/
def skipWhile (test : Char → Bool) (text : String) (offset : Nat) : Nat :=
  match found : byteAt? text offset with
  | some byte => if test byte then skipWhile test text (offset + 1) else offset
  | none => offset
termination_by text.utf8ByteSize - offset
decreasing_by
  have inside := lt_of_byteAt? found
  omega

/-- The width of the character at a boundary is its number of bytes, and at the end it is one. Inside
a character or beyond the end there is no width. -/
def widthAt? (text : String) (offset : Nat) : Option Nat :=
  (text.pos? ⟨offset⟩).map fun boundary =>
    if inside : boundary = text.endPos then 1 else (boundary.get inside).utf8Size

/-- The part of a text at a span is cut out of it. There is none if the span ends before it starts or
does not stand between boundaries. -/
def part? (text : String) (span : Span) : Option String :=
  if span.isNowhere then none
  else do
    let start ← text.pos? ⟨span.start⟩
    let stop ← text.pos? ⟨span.stop⟩
    some (text.extract start stop)

end StorageSchema.Text
