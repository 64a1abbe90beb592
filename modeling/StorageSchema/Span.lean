/-
This file holds the places of a source text, which are ranges of bytes.
-/

namespace StorageSchema

/-- A span is a range of bytes, and one that stops before it starts is no place at all. -/
structure Span where
  start : Nat
  stop : Nat
  deriving DecidableEq, Repr

/-- This span marks a thing that has no place in the text. -/
def Span.nowhere : Span := ⟨1, 0⟩

/-- This function recognises the spans without a place. -/
def Span.isNowhere (span : Span) : Bool := span.stop < span.start

/-- The empty span stands just before the byte at the offset. -/
def Span.point (offset : Nat) : Span := ⟨offset, offset⟩

/-- The union covers both spans, and a span without a place adds nothing to it. -/
protected def Span.union (left right : Span) : Span :=
  if right.isNowhere then left
  else if left.isNowhere then right
  else ⟨min left.start right.start, max left.stop right.stop⟩

instance : Union Span := ⟨Span.union⟩

/-- The description names both ends, except that the span `Span.nowhere` has a name of its own. -/
def Span.describe (span : Span) : String :=
  if span = Span.nowhere then "DUMMY_RANGE"
  else
    String.join ["CodeRange \x7b start: ", toString span.start, ", end: ", toString span.stop,
      " \x7d"]

theorem Span.union_def (left right : Span) : left ∪ right = left.union right := rfl

theorem Span.union_nowhere (span : Span) : span ∪ Span.nowhere = span := rfl

theorem Span.union_eq {left right : Span} (leftPlaced : left.start ≤ left.stop)
    (rightPlaced : right.start ≤ right.stop) :
    left ∪ right = ⟨min left.start right.start, max left.stop right.stop⟩ := by
  simp [Span.union_def, Span.union, Span.isNowhere, Nat.not_lt.2 leftPlaced,
    Nat.not_lt.2 rightPlaced]

end StorageSchema
