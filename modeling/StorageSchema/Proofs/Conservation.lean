/-
This file shows that diagnostics are conserved over every run of one review. Whatever is done with a
review, each diagnostic that is reported is either pending or in one of the failures.
-/
import StorageSchema.Proofs.Check.Answer
import StorageSchema.Proofs.Reader.Document

namespace StorageSchema

/-- An operation is one of the things that can be done with a review. -/
inductive Review.Operation where
  | note (diagnostic : Diagnostic)
  | fail
  | failUnlessClear
  | read (legacy : Bool)
  | check (document : Document Span)

/-- Only the failure of a review matters here, and not what it gives otherwise. -/
def Review.failureOf {Result : Type} (outcome : Except Failure Result × Review) :
    Option Failure × Review :=
  match outcome with
  | (.ok _, review) => (none, review)
  | (.error failure, review) => (some failure, review)

/-- An operation returns a failure or none, and leaves a review. -/
def Review.perform (review : Review) : Review.Operation → Option Failure × Review
  | .note diagnostic => (none, review.note diagnostic)
  | .fail => (some review.fail.1, review.fail.2)
  | .failUnlessClear => review.failUnlessClear
  | .read legacy => Review.failureOf (review.read legacy)
  | .check document => Review.failureOf (review.check document)

/-- A run performs operations one after another and returns their failures. -/
def Review.run (review : Review) : List Review.Operation → List Failure × Review
  | [] => ([], review)
  | operation :: rest =>
      let first := review.perform operation
      let later := first.2.run rest
      (first.1.toList ++ later.1, later.2)

/-- A caller reports what it notes, reading reports the syntax error of a text that has one, and
checking reports the problems of the document. -/
def Review.Operation.reports (text : String) : Review.Operation → List Diagnostic
  | .note diagnostic => [diagnostic]
  | .fail | .failUnlessClear => []
  | .read legacy =>
      match Document.ofText legacy text with
      | .ok _ => []
      | .error error => [error.diagnostic]
  | .check document => document.problems.map Problem.diagnostic

/-- An operation conserves diagnostics if what it reports comes after what was pending, and all of
this is returned or left pending. -/
structure Review.Conserves (review : Review) (reports : List Diagnostic)
    (outcome : Option Failure × Review) : Prop where
  text : outcome.2.text = review.text
  kept : outcome.1.toList.flatMap Failure.diagnostics ++ outcome.2.pending =
    review.pending ++ reports
  drained : outcome.1.isSome → outcome.2.pending = []

theorem Review.conserves_note (review : Review) (diagnostic : Diagnostic) :
    review.Conserves [diagnostic] (none, review.note diagnostic) :=
  ⟨rfl, rfl, fun failed => absurd failed (by simp)⟩

theorem Review.conserves_nothing (review : Review) : review.Conserves [] (none, review) :=
  ⟨rfl, by simp, fun failed => absurd failed (by simp)⟩

theorem Review.conserves_fail (review : Review) (reports : List Diagnostic) :
    review.Conserves reports
      (some (review.noteAll reports).fail.1, (review.noteAll reports).fail.2) :=
  ⟨rfl, by simp [Review.fail, Review.noteAll], fun _ => rfl⟩

theorem Review.conserves_failUnlessClear (review : Review) :
    review.Conserves [] review.failUnlessClear := by
  rw [Review.failUnlessClear]
  split
  · exact review.conserves_nothing
  · exact ⟨rfl, by simp [Review.fail], fun _ => rfl⟩

/-- Reading leaves the review alone, or else it fails with what was pending and one more. -/
theorem Review.read_eq (review : Review) (legacy : Bool) :
    match Document.ofText legacy review.text with
    | .ok document => review.read legacy = (.ok document, review)
    | .error error =>
        review.read legacy = (.error (review.noteAll [error.diagnostic]).fail.1,
          (review.noteAll [error.diagnostic]).fail.2) := by
  rw [Review.read_eq_ofText]
  cases Document.ofText legacy review.text <;> rfl

/-- Checking leaves a clear review alone if the document is accepted, or else it fails with what was
pending and then the problems of the document. -/
theorem Review.check_eq (review : Review) (document : Document Span) :
    (∃ schema, review.pending = [] ∧ document.problems = [] ∧
      review.check document = (.ok schema, review)) ∨
    review.check document =
      (.error (review.noteAll (document.problems.map Problem.diagnostic)).fail.1,
        (review.noteAll (document.problems.map Problem.diagnostic)).fail.2) := by
  rw [Review.check_eq_conclude]
  cases checked : document.check with
  | ok schema =>
      obtain ⟨_, -, none, -⟩ := (document.check_eq_ok_iff schema).1 checked
      have same : review.noteAll [] = review := by simp [Review.noteAll]
      cases waiting : review.pending with
      | nil => exact .inl ⟨schema, rfl, none, by simp [Review.conclude, waiting]⟩
      | cons first rest =>
          right
          rw [none, List.map_nil, same]
          simp [Review.conclude, Review.stop, waiting]
  | error problems =>
      obtain ⟨rfl, -⟩ := (document.check_eq_error_iff problems).1 checked
      exact .inr (by simp [Review.conclude, Review.stop])

/-- Every operation conserves diagnostics. -/
theorem Review.conserves_perform (review : Review) (operation : Review.Operation) :
    review.Conserves (operation.reports review.text) (review.perform operation) := by
  cases operation with
  | note diagnostic => exact review.conserves_note diagnostic
  | fail =>
      have failed := review.conserves_fail []
      rwa [show review.noteAll [] = review by simp [Review.noteAll]] at failed
  | failUnlessClear => exact review.conserves_failUnlessClear
  | read legacy =>
      have outcome := review.read_eq legacy
      rw [Review.perform, Review.Operation.reports]
      cases read : Document.ofText legacy review.text with
      | ok document =>
          rw [read] at outcome
          rw [outcome]
          exact review.conserves_nothing
      | error error =>
          rw [read] at outcome
          rw [outcome]
          exact review.conserves_fail [error.diagnostic]
  | check document =>
      rw [Review.perform, Review.Operation.reports]
      rcases review.check_eq document with ⟨schema, -, none, outcome⟩ | outcome
      · rw [outcome, none]
        exact review.conserves_nothing
      · rw [outcome]
        exact review.conserves_fail (document.problems.map Problem.diagnostic)

/-- What a run returns and leaves pending is what was pending and what it reports. -/
theorem Review.run_conserves (review : Review) (operations : List Review.Operation) :
    (review.run operations).2.text = review.text ∧
    (review.run operations).1.flatMap Failure.diagnostics ++ (review.run operations).2.pending =
      review.pending ++ operations.flatMap (Review.Operation.reports review.text) := by
  induction operations generalizing review with
  | nil => simp [Review.run]
  | cons operation rest inductionHypothesis =>
      obtain ⟨text, kept, -⟩ := review.conserves_perform operation
      obtain ⟨laterText, later⟩ := inductionHypothesis (review.perform operation).2
      rw [text] at laterText later
      refine ⟨laterText, ?_⟩
      rw [Review.run, List.flatMap_append, List.append_assoc, later, ← List.append_assoc, kept,
        List.append_assoc, List.flatMap_cons]

/-- For every text and every sequence of operations on its review, the diagnostics of the failures
and then those that are pending are all that have been reported, in the order of the reports. Nothing
is pending after a failure. Reading leaves what is pending, or it fails with that and one diagnostic
more. Checking succeeds only if nothing is pending, and in any case nothing is pending after it. -/
theorem Review.diagnostics_conserved (text : String) (operations : List Review.Operation) :
    let failures := ((Review.ofText text).run operations).1
    let review := ((Review.ofText text).run operations).2
    failures.flatMap Failure.diagnostics ++ review.pending =
      operations.flatMap (Review.Operation.reports text) ∧
    (∀ operation, match review.perform operation with
      | (none, _) => True
      | (some _, next) => next.pending = []) ∧
    (∀ legacy, match review.read legacy with
      | (.ok _, next) => next.pending = review.pending
      | (.error failure, next) => next.pending = [] ∧
          ∃ diagnostic, failure.diagnostics = review.pending ++ [diagnostic]) ∧
    ∀ document, match review.check document with
      | (.ok _, next) => review.pending = [] ∧ next.pending = []
      | (.error _, next) => next.pending = [] := by
  obtain ⟨-, kept⟩ := (Review.ofText text).run_conserves operations
  refine ⟨kept, ?_, ?_, ?_⟩
  · intro operation
    have drained :=
      (Review.conserves_perform ((Review.ofText text).run operations).2 operation).drained
    split
    · trivial
    · next failed =>
        rw [failed] at drained
        exact drained rfl
  · intro legacy
    have outcome := Review.read_eq ((Review.ofText text).run operations).2 legacy
    split at outcome
    · rw [outcome]
    · rw [outcome]
      exact ⟨rfl, _, rfl⟩
  · intro document
    rcases Review.check_eq ((Review.ofText text).run operations).2 document with
      ⟨schema, clear, -, outcome⟩ | outcome
    · rw [outcome]
      exact ⟨clear, clear⟩
    · rw [outcome]
      rfl

end StorageSchema
