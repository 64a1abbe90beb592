/-
This file puts the text of a document into modern words, where each scalar is written by its
keyword.
-/
import StorageSchema.Document.Node
import StorageSchema.Span
import StorageSchema.Text.Size

namespace StorageSchema

variable {Mark : Type}

/-- This function puts new words in place of slices of a text that begins at the offset. The slices
come one after the other. -/
def Text.replaceAll? : Nat → List Char → List (Span × String) → Option (List Char)
  | _, text, [] => some text
  | offset, text, (span, new) :: rest =>
      if offset ≤ span.start ∧ span.start ≤ span.stop then do
        let outer ← Text.splitAt? text (span.start - offset)
        let inner ← Text.splitAt? outer.2 (span.stop - span.start)
        let after ← replaceAll? span.stop inner.2 rest
        some (outer.1 ++ new.toList ++ after)
      else none

/-- Some of the nodes of a document are scalars. -/
def Node.scalar? : Node Mark → Option (Mark × Scalar)
  | .type (.scalar mark kind) => some (mark, kind)
  | _ => none

/-- These are the scalars of a type in the order of the text. -/
def TypeExpr.scalars (type : TypeExpr Mark) : List (Mark × Scalar) :=
  type.nodes.filterMap Node.scalar?

/-- These are the scalars of a document in the order of the text. -/
def Document.scalars (document : Document Mark) : List (Mark × Scalar) :=
  document.nodes.filterMap Node.scalar?

/-- The modern text has the keyword of each scalar in place of what stands there. -/
def Document.modernText? (document : Document Span) (text : String) : Option String :=
  (Text.replaceAll? 0 text.toList
    (document.scalars.map fun scalar => (scalar.1, scalar.2.keyword))).map String.ofList

end StorageSchema
