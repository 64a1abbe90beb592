/-
This file finds the place at which a pattern of bytes occurs in a text of bytes.
-/
import StorageSchema.Span

namespace StorageSchema.Text

/-- The search looks at every offset from which the pattern still fits. It counts the occurrences
that come before the wanted one down, and one may begin inside another. -/
def occurrenceFrom (pattern : List UInt8) (start place : Nat) : List UInt8 → Span
  | [] => if pattern = [] ∧ place = 0 then ⟨start, start⟩ else Span.nowhere
  | byte :: rest =>
      if pattern.length ≤ rest.length + 1 then
        if (byte :: rest).take pattern.length = pattern then
          match place with
          | 0 => ⟨start, start + pattern.length⟩
          | place + 1 => occurrenceFrom pattern (start + 1) place rest
        else occurrenceFrom pattern (start + 1) place rest
      else Span.nowhere

/-- The span of an occurrence is found by its place among all of them, counted from zero. -/
def occurrence (text pattern : List UInt8) (place : Nat) : Span :=
  occurrenceFrom pattern 0 place text

end StorageSchema.Text
