/-
This file shows that reformatting does not change what a text means. Texts with the same symbols are
read alike, and what is read of them is checked alike.
-/
import StorageSchema.Proofs.Check.Answer
import StorageSchema.Proofs.Check.View
import StorageSchema.Proofs.Draft.Failure

namespace StorageSchema

variable {legacy : Bool}

/-- Two texts are read alike if both give the same document apart from its marks and comments, or if
both fail with the same message at significant tokens with the same index. -/
def Review.ReadAlike (first second : String) :
    Except Failure (Document Span) → Except Failure (Document Span) → Prop
  | .ok document, .ok other => document.outline false = other.outline false
  | .error failure, .error other =>
      ∃ (index : Nat) (token otherToken : Token) (message : String),
        (Token.significant first)[index]? = some token ∧
        (Token.significant second)[index]? = some otherToken ∧
        failure.diagnostics = [⟨token.span, message⟩] ∧
        other.diagnostics = [⟨otherToken.span, message⟩]
  | _, _ => False

/-- Two documents are checked alike if both are accepted with the same names and classes in one
order, or if both are rejected with the same messages in one order. -/
def Review.CheckedAlike :
    Except Failure (Schema Span) → Except Failure (Schema Span) → Prop
  | .ok schema, .ok other =>
      schema.root.name = other.root.name ∧ schema.root.isStatic = other.root.isStatic ∧
        schema.classes = other.classes
  | .error failure, .error other =>
      failure.diagnostics.map Diagnostic.message = other.diagnostics.map Diagnostic.message
  | _, _ => False

/-- What has been read up to a symbol that is refused is not read any further. -/
theorem Draft.Refuses.not_reads {before after : List Symbol} {symbol : Symbol}
    {draft last : Draft Unit} (refuses : draft.Refuses legacy symbol)
    (read : Draft.Reads legacy before Draft.empty draft) :
    ¬ Draft.Reads legacy (before ++ symbol :: after) Draft.empty last := by
  intro whole
  rw [Draft.Reads, List.map_append] at whole
  obtain ⟨middle, first, rest⟩ := whole.exists_middle
  obtain rfl := Draft.Reads.unique first read
  rcases rest with _ | ⟨step, _⟩
  exact refuses.1 _ step

/-- A list of symbols has one place at most up to which it is read and where it is refused. -/
theorem Draft.Refuses.before_unique {before after otherBefore otherAfter : List Symbol}
    {symbol otherSymbol : Symbol} {draft otherDraft : Draft Unit}
    (same : before ++ symbol :: after = otherBefore ++ otherSymbol :: otherAfter)
    (refuses : draft.Refuses legacy symbol)
    (read : Draft.Reads legacy before Draft.empty draft)
    (otherRefuses : otherDraft.Refuses legacy otherSymbol)
    (otherRead : Draft.Reads legacy otherBefore Draft.empty otherDraft) :
    before = otherBefore := by
  rcases List.append_eq_append_iff.1 same with ⟨between, rfl, rest⟩ | ⟨between, rfl, rest⟩
  · cases between with
    | nil => rw [List.append_nil]
    | cons next between =>
        obtain rfl : symbol = next := (List.cons.inj rest).1
        exact absurd otherRead (refuses.not_reads read)
  · cases between with
    | nil => rw [List.append_nil]
    | cons next between =>
        obtain rfl : otherSymbol = next := (List.cons.inj rest).1
        exact absurd read (otherRefuses.not_reads otherRead)

/-- The same symbols are refused at the same index. -/
theorem Document.refused_alike {first second : String}
    (same : Symbol.ofText first = Symbol.ofText second) {error other : SyntaxError Span}
    (failed : Document.ofText legacy first = .error error)
    (otherFailed : Document.ofText legacy second = .error other) :
    ∃ (index : Nat) (token otherToken : Token),
      (Token.significant first)[index]? = some token ∧
      (Token.significant second)[index]? = some otherToken ∧
      error.lexeme.mark = token.span ∧ other.lexeme.mark = otherToken.span := by
  obtain ⟨before, token, after, draft, divided, place, read, refuses⟩ :=
    Document.exists_refused failed
  obtain ⟨otherBefore, otherToken, otherAfter, otherDraft, otherDivided, otherPlace, otherRead,
    otherRefuses⟩ := Document.exists_refused otherFailed
  rw [Symbol.ofText, Symbol.ofText, divided, otherDivided, List.map_append, List.map_append] at same
  have symbols := refuses.before_unique same read otherRefuses otherRead
  have lengths : before.length = otherBefore.length := by
    simpa using congrArg List.length symbols
  refine ⟨before.length, token, otherToken, ?_, ?_, place, otherPlace⟩
  · rw [divided, List.getElem?_append_right (Nat.le_refl _), Nat.sub_self]
    rfl
  · rw [otherDivided, lengths, List.getElem?_append_right (Nat.le_refl _), Nat.sub_self]
    rfl

theorem Symbol.inside_eq_of_ofText_eq {first second : String}
    (same : Symbol.ofText first = Symbol.ofText second) :
    Symbol.inside first = Symbol.inside second := by
  rw [Symbol.ofText_eq, Symbol.ofText_eq] at same
  exact List.append_cancel_right same

/-- Reading depends on the symbols alone. -/
theorem Review.read_alike (legacy : Bool) {first second : String}
    (same : Symbol.ofText first = Symbol.ofText second) :
    Review.ReadAlike first second ((Review.ofText first).read legacy).1
      ((Review.ofText second).read legacy).1 := by
  have outlined := Document.outline_ofText legacy first
  rw [Symbol.inside_eq_of_ofText_eq same, ← Document.outline_ofText] at outlined
  simp only [Review.read_eq_ofText, Review.ofText]
  cases read : Document.ofText legacy first with
  | ok document =>
      cases otherRead : Document.ofText legacy second with
      | ok other =>
          rw [read, otherRead] at outlined
          exact Except.ok.inj outlined
      | error other =>
          rw [read, otherRead] at outlined
          cases outlined
  | error error =>
      cases otherRead : Document.ofText legacy second with
      | ok other =>
          rw [read, otherRead] at outlined
          cases outlined
      | error other =>
          obtain ⟨index, token, otherToken, found, otherFound, place, otherPlace⟩ :=
            Document.refused_alike same read otherRead
          rw [read, otherRead] at outlined
          have message : other.message = error.message :=
            (congrArg SyntaxError.message (Except.error.inj outlined)).symm
          refine ⟨index, token, otherToken, error.message, found, otherFound, ?_, ?_⟩
          · rw [← place]
            rfl
          · rw [← otherPlace, ← message]
            rfl

theorem Problem.messages_map {Mark : Type} (change : Mark → Unit) (problems : List (Problem Mark)) :
    (problems.map (Problem.map change)).map (fun problem => problem.fault.message) =
      problems.map fun problem => problem.fault.message := by
  rw [List.map_map]
  rfl

/-- The outline of a document is checked as the document is. -/
theorem Review.check_outline (text : String) (document : Document Span) :
    match (document.outline false).check with
    | .ok schema => ∃ accepted : Schema Span,
        ((Review.ofText text).check document).1 = .ok accepted ∧
          accepted.view (fun _ => ()) false = schema
    | .error problems => ∃ failure : Failure,
        ((Review.ofText text).check document).1 = .error failure ∧
          failure.diagnostics.map Diagnostic.message =
            problems.map fun problem => problem.fault.message := by
  rw [Document.outline_eq_view, Document.check_view, Review.check_eq_conclude]
  cases checked : document.check with
  | ok schema => exact ⟨schema, by simp [Review.conclude, Review.ofText], rfl⟩
  | error problems =>
      refine ⟨((Review.ofText text).noteAll (problems.map Problem.diagnostic)).fail.1, ?_, ?_⟩
      · simp [Review.conclude, Review.stop]
      · rw [Problem.messages_map]
        simp [Review.fail, Review.noteAll, Review.ofText, Problem.diagnostic]

/-- Checking depends on the outline alone. -/
theorem Review.check_alike (first second : String) {document other : Document Span}
    (same : document.outline false = other.outline false) :
    Review.CheckedAlike ((Review.ofText first).check document).1
      ((Review.ofText second).check other).1 := by
  have checked := Review.check_outline first document
  have otherChecked := Review.check_outline second other
  rw [← same] at otherChecked
  cases outlined : (document.outline false).check with
  | ok schema =>
      rw [outlined] at checked otherChecked
      obtain ⟨accepted, isAccepted, viewed⟩ := checked
      obtain ⟨otherAccepted, otherIsAccepted, otherViewed⟩ := otherChecked
      rw [isAccepted, otherIsAccepted]
      have views := viewed.trans otherViewed.symm
      refine ⟨?_, ?_, ?_⟩
      · exact congrArg (fun view : Schema Unit => view.root.name) views
      · exact congrArg (fun view : Schema Unit => view.root.isStatic) views
      · rw [← accepted.classes_view (fun _ => ()) false, views, Schema.classes_view]
  | error problems =>
      rw [outlined] at checked otherChecked
      obtain ⟨failure, failed, messages⟩ := checked
      obtain ⟨otherFailure, otherFailed, otherMessages⟩ := otherChecked
      rw [failed, otherFailed]
      exact messages.trans otherMessages.symm

/-- Texts that have the same symbols are read alike, and if they are read then their documents are
checked alike. -/
theorem Review.reformatting_faithful (legacy : Bool) (first second : String)
    (same : Symbol.ofText first = Symbol.ofText second) :
    Review.ReadAlike first second ((Review.ofText first).read legacy).1
        ((Review.ofText second).read legacy).1 ∧
      ∀ document other, ((Review.ofText first).read legacy).1 = .ok document →
        ((Review.ofText second).read legacy).1 = .ok other →
        Review.CheckedAlike ((Review.ofText first).check document).1
          ((Review.ofText second).check other).1 := by
  have alike := Review.read_alike legacy same
  refine ⟨alike, ?_⟩
  intro document other read otherRead
  rw [read, otherRead] at alike
  exact Review.check_alike first second alike

/-- Here a text on one line is read and checked like one with more lines and a comment. -/
theorem Review.reformatting_faithful_of_lines :
    ∃ document other,
      ((Review.ofText "type Storage\x7ba:A\x7dtype A\x7ba:A[]\x7d").read false).1 =
        .ok document ∧
      ((Review.ofText "type Storage \x7b\n  a: A // b\n\x7d\ntype A \x7ba: A[ ]\x7d").read
        false).1 = .ok other ∧
      document.outline false = other.outline false ∧
      Review.CheckedAlike
        ((Review.ofText "type Storage\x7ba:A\x7dtype A\x7ba:A[]\x7d").check document).1
        ((Review.ofText "type Storage \x7b\n  a: A // b\n\x7d\ntype A \x7ba: A[ ]\x7d").check
          other).1 := by
  obtain ⟨alike, checkedAlike⟩ := Review.reformatting_faithful false
    "type Storage\x7ba:A\x7dtype A\x7ba:A[]\x7d"
    "type Storage \x7b\n  a: A // b\n\x7d\ntype A \x7ba: A[ ]\x7d" (by decide +kernel)
  have reads : ((Review.ofText "type Storage\x7ba:A\x7dtype A\x7ba:A[]\x7d").read
      false).1.toOption.isSome = true := by
    rw [Review.read_eq_ofText]
    decide +kernel
  cases read : ((Review.ofText "type Storage\x7ba:A\x7dtype A\x7ba:A[]\x7d").read false).1 with
  | error failure =>
      rw [read] at reads
      cases reads
  | ok document =>
      cases otherRead : ((Review.ofText
          "type Storage \x7b\n  a: A // b\n\x7d\ntype A \x7ba: A[ ]\x7d").read false).1 with
      | error failure =>
          rw [read, otherRead] at alike
          cases alike
      | ok other =>
          rw [read, otherRead] at alike
          exact ⟨document, other, rfl, rfl, alike, checkedAlike document other read otherRead⟩

end StorageSchema
