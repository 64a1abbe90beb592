/-
This file collects diagnostics about one text and turns them into failures.
-/
import StorageSchema.Check.Schema
import StorageSchema.Draft
import StorageSchema.Reader.Document

namespace StorageSchema

/-- A chunk of the index ends after it has recorded more bytes than this. -/
def Review.chunkLimit : Nat := 32

/-- A review holds a text with its index, and the diagnostics that no failure has taken away. -/
structure Review where
  text : String
  index : Text.CheckpointIndex
  pending : List Diagnostic
  index_eq : index = Text.CheckpointIndex.ofText Review.chunkLimit text.toList

/-- A failure holds the diagnostics that led to it, and shows them unless one of them does not fit
the text. -/
structure Failure where
  diagnostics : List Diagnostic
  rendered : Option String
  deriving DecidableEq, Repr

/-- A review begins with nothing pending. -/
def Review.ofText (text : String) : Review := ⟨text, _, [], rfl⟩

/-- A diagnostic that is noted is pending after those noted before. -/
def Review.note (review : Review) (diagnostic : Diagnostic) : Review :=
  { review with pending := review.pending ++ [diagnostic] }

/-- This function notes several diagnostics in their order. -/
def Review.noteAll (review : Review) (diagnostics : List Diagnostic) : Review :=
  { review with pending := review.pending ++ diagnostics }

/-- A review is clear if nothing is pending. -/
def Review.isClear (review : Review) : Bool := review.pending.isEmpty

/-- Lines and columns are shown from one, and an offset beyond the text is taken for its end. -/
def Review.lineAndColumn (review : Review) (offset : Nat) : Nat × Nat :=
  let position := review.index.locate (min offset review.text.utf8ByteSize)
  (position.row + 1, position.column + 1)

/-- A diagnostic is shown against the text of the review. -/
def Review.render? (review : Review) (diagnostic : Diagnostic) : Option String :=
  diagnostic.render? review.text.toList review.index

/-- A list of diagnostics is shown only if each of them is. -/
def Review.renderAll? (review : Review) (diagnostics : List Diagnostic) : Option String :=
  (diagnostics.mapM review.render?).map ("\n".intercalate ·)

/-- The failure takes everything that is pending away from the review. -/
def Review.fail (review : Review) : Failure × Review :=
  (⟨review.pending, review.renderAll? review.pending⟩, { review with pending := [] })

/-- A review that is clear does not fail. -/
def Review.failUnlessClear (review : Review) : Option Failure × Review :=
  if review.isClear then (none, review) else (some review.fail.1, review.fail.2)

/-- A syntax error is shown at its lexeme. -/
def SyntaxError.diagnostic (error : SyntaxError Span) : Diagnostic :=
  ⟨error.lexeme.mark, error.message⟩

/-- A review stops with the failure that takes what is pending. This is also what it does where an
answer is missing. -/
def Review.stop {Value : Type} (review : Review) : Except Failure Value × Review :=
  (.error review.fail.1, review.fail.2)

/-- The text is read into a document, and a syntax error in it fails the review. -/
def Review.read (review : Review) (legacy : Bool) : Except Failure (Document Span) × Review :=
  match Document.read? legacy review.text with
  | some (.ok document) => (.ok document, review)
  | some (.error diagnostic) => (review.note diagnostic).stop
  | none => review.stop

/-- All problems of a document are noted, and whatever is pending then fails the review. -/
def Review.conclude (review : Review) (checked : Except (List (Problem Span)) (Schema Span)) :
    Except Failure (Schema Span) × Review :=
  let noted :=
    match checked with
    | .ok _ => review
    | .error problems => review.noteAll (problems.map Problem.diagnostic)
  match checked, noted.pending with
  | .ok schema, [] => (.ok schema, noted)
  | _, _ => noted.stop

/-- The document is checked, and the review concludes from it. -/
def Review.check (review : Review) (document : Document Span) :
    Except Failure (Schema Span) × Review :=
  match document.check? with
  | some checked => review.conclude checked
  | none => review.stop

end StorageSchema
