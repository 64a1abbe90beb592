/-
This file shows that line endings do not matter. A text with a carriage return before each line feed
is read and checked as the text without them is.
-/
import StorageSchema.Proofs.Check.Answer
import StorageSchema.Proofs.Check.View
import StorageSchema.Proofs.Comments.Slots
import StorageSchema.Proofs.Reader.Document
import StorageSchema.Proofs.Text.CheckpointIndex
import StorageSchema.Proofs.Token.Returns
import StorageSchema.Proofs.Written.Normal

namespace StorageSchema

/-! ### Comments and lexemes -/

theorem Text.trim_blank {letter : Char} (blank : Text.isBlank letter = true) (text : List Char) :
    Text.trim (text ++ [letter]) = Text.trim text := by
  rw [Text.trim_eq, Text.trim_eq, List.dropWhile_append]
  split
  · next empty =>
      rw [List.dropWhile_cons_of_pos blank, List.isEmpty_iff.1 empty]
      rfl
  · rw [List.rdropWhile_concat_pos _ _ _ blank]

/-- A carriage return at the end of a comment is no part of its body. -/
theorem commentBody_return {comment other : String}
    (longer : other.toList = comment.toList ++ ['\r']) :
    commentBody other = commentBody comment := by
  have blank : Text.isBlank '\r' = true := by decide
  rw [commentBody, commentBody, longer]
  apply congrArg String.ofList
  refine (congrArg Text.trim ?_).trans (Text.trim_blank blank _)
  generalize comment.toList = letters
  split
  · next rest marked =>
      rcases letters with _ | ⟨first, _ | ⟨second, others⟩⟩
      · cases marked
      · cases marked
      · obtain ⟨rfl, rfl, rfl⟩ : first = '/' ∧ second = '/' ∧ others ++ ['\r'] = rest := by
          simpa using marked
        rfl
  · next rest marked =>
      rcases letters with _ | ⟨first, others⟩
      · cases marked
      · obtain ⟨rfl, rfl⟩ : first = '#' ∧ others ++ ['\r'] = rest := by simpa using marked
        rfl
  · next unmarked noHash =>
      split
      · next rest => exact absurd rfl (unmarked (rest ++ ['\r']))
      · next rest => exact absurd rfl (noHash (rest ++ ['\r']))
      · rfl

/-- A margin is moved by the kind of a token, and by its body if it is a comment. -/
theorem Margin.pass_congr (margin : Margin) {token other : Token} (kind : other.kind = token.kind)
    (body : token.kind = .comment → other.body = token.body) :
    margin.pass other = margin.pass token := by
  rw [Margin.pass, Margin.pass, kind]
  split
  · next isComment => rw [body isComment]
  · rfl
  · rfl

namespace Token.Returned

variable {change : Nat → Nat} {token other : Token}

theorem kind_eq (returned : Token.Returned change token other) : other.kind = token.kind := by
  cases returned with
  | moved kind _ _ => exact kind
  | newline isNewline still => exact still.trans isNewline.symm
  | longer _ kind _ _ => exact kind

theorem body_eq (returned : Token.Returned change token other) (isComment : token.kind = .comment) :
    other.body = token.body := by
  cases returned with
  | moved _ text _ => rw [Token.body, Token.body, text]
  | newline isNewline _ =>
      rw [isNewline] at isComment
      cases isComment
  | longer _ _ longer _ => exact commentBody_return longer

theorem isSignificant_eq (returned : Token.Returned change token other) :
    other.isSignificant = token.isSignificant := by
  rw [Token.isSignificant, returned.kind_eq, Token.isSignificant]

end Token.Returned

/-- A lexeme is moved with its comments. Only a string that is open may have become longer. -/
inductive Lexeme.Returned (change : Nat → Nat) : Lexeme Span → Lexeme Span → Prop where
  | moved (lexeme : Lexeme Span) : Returned change lexeme (lexeme.view (Span.move change) true)
  | isOpen {lexeme other : Lexeme Span} : lexeme.kind = .unterminatedString →
      other.kind = .unterminatedString → other.mark.start = change lexeme.mark.start →
      Returned change lexeme other

theorem Token.Returned.lexeme {change : Nat → Nat} {token other : Token}
    (returned : Token.Returned change token other) (significant : token.isSignificant = true)
    (above beside : Option String) :
    Lexeme.Returned change ⟨token.kind, token.text, token.span, above, beside⟩
      ⟨other.kind, other.text, other.span, above, beside⟩ := by
  cases returned with
  | moved kind text span =>
      rw [kind, text, span]
      exact .moved ⟨token.kind, token.text, token.span, above, beside⟩
  | newline isNewline _ => simp [Token.isSignificant, isNewline] at significant
  | longer takes kind _ starts =>
      rcases takes with isComment | isOpen
      · simp [Token.isSignificant, isComment] at significant
      · exact .isOpen isOpen (kind.trans isOpen) starts

theorem Lexeme.returned_ofTokens {change : Nat → Nat} {tokens others : List Token}
    (returned : List.Forall₂ (Token.Returned change) tokens others) (margin : Margin) :
    List.Forall₂ (Lexeme.Returned change) (Lexeme.ofTokens margin tokens)
      (Lexeme.ofTokens margin others) := by
  induction returned generalizing margin with
  | nil => exact .nil
  | @cons token other tokens others first _ inductionHypothesis =>
      cases significant : token.isSignificant with
      | true =>
          rw [Lexeme.ofTokens_significant _ _ significant,
            Lexeme.ofTokens_significant _ _ (first.isSignificant_eq.trans significant)]
          exact .cons (first.lexeme significant _ _) (inductionHypothesis _)
      | false =>
          rw [Lexeme.ofTokens_insignificant _ _ significant,
            Lexeme.ofTokens_insignificant _ _ (first.isSignificant_eq.trans significant),
            margin.pass_congr first.kind_eq first.body_eq]
          exact inductionHypothesis _

/-! ### Documents -/

/-- This is the text with a carriage return before each of its line feeds. -/
def textWithReturns (text : String) : String := String.ofList (Text.withReturns text.toList)

/-- An error is the same at the place where its lexeme has moved to. -/
structure SyntaxError.Returned (change : Nat → Nat) (error other : SyntaxError Span) : Prop where
  message : other.message = error.message
  start : other.lexeme.mark.start = change error.lexeme.mark.start

theorem SyntaxError.returned_view (change : Nat → Nat) (error : SyntaxError Span) :
    SyntaxError.Returned change error (error.view (Span.move change) true) := ⟨rfl, rfl⟩

/-- A string that is open cannot stand anywhere. -/
theorem Draft.add_isOpen {Mark : Type} [Union Mark] {legacy : Bool} (draft : Draft Mark)
    {lexeme : Lexeme Mark} (isOpen : lexeme.kind = .unterminatedString) :
    draft.add legacy lexeme = lexeme.refuse draft.stage.expectation := by
  rcases draft with ⟨finished, stage⟩
  rcases lexeme with ⟨kind, text, mark, above, beside⟩
  obtain rfl : kind = .unterminatedString := isOpen
  cases stage with
  | type opened named around typeDraft =>
      rcases around with ⟨members, layers⟩
      cases typeDraft with
      | complete item => rcases layers with _ | ⟨⟨_ | _ | _, _⟩, _⟩ <;> rfl
      | _ => rfl
  | _ => rfl

/-- An open string is refused with one message, whatever its text is. -/
theorem SyntaxError.returned_isOpen {change : Nat → Nat} {lexeme other : Lexeme Span}
    (isOpen : lexeme.kind = .unterminatedString) (otherIsOpen : other.kind = .unterminatedString)
    (starts : other.mark.start = change lexeme.mark.start) (expectation : Expectation) :
    SyntaxError.Returned change ⟨lexeme, .expected expectation⟩ ⟨other, .expected expectation⟩ := by
  refine ⟨?_, starts⟩
  simp only [SyntaxError.message, isOpen, otherIsOpen]
  cases expectation <;> rfl

/-- Two outcomes are the same apart from where they are. -/
inductive SyntaxError.SameOutcome {Result : Type} (change : Nat → Nat) (moved : Result → Result) :
    Except (SyntaxError Span) Result → Except (SyntaxError Span) Result → Prop where
  | ok (result : Result) : SameOutcome change moved (.ok result) (.ok (moved result))
  | error {error other : SyntaxError Span} : error.Returned change other →
      SameOutcome change moved (.error error) (.error other)

theorem SyntaxError.sameOutcome_view {Result : Type} (change : Nat → Nat) (moved : Result → Result)
    (outcome : Except (SyntaxError Span) Result) :
    SyntaxError.SameOutcome change moved outcome
      (SyntaxError.viewOutcome (Span.move change) true moved outcome) := by
  cases outcome with
  | ok result => exact .ok result
  | error error => exact .error (error.returned_view change)

variable {change : Nat → Nat}

theorem Draft.add_returned (increasing : StrictMono change) (legacy : Bool)
    {lexeme other : Lexeme Span} (returned : lexeme.Returned change other) (draft : Draft Span) :
    SyntaxError.SameOutcome change (Draft.view (Span.move change) true) (draft.add legacy lexeme)
      ((draft.view (Span.move change) true).add legacy other) := by
  cases returned with
  | moved =>
      rw [Draft.add_view true (Span.preservesUnions_move increasing)]
      exact SyntaxError.sameOutcome_view change _ _
  | isOpen isOpen otherIsOpen starts =>
      rw [Draft.add_isOpen draft isOpen, Draft.add_isOpen _ otherIsOpen, Draft.view,
        Stage.expectation_view]
      exact .error (SyntaxError.returned_isOpen isOpen otherIsOpen starts _)

theorem Draft.addAll_returned (increasing : StrictMono change) (legacy : Bool)
    {lexemes others : List (Lexeme Span)}
    (returned : List.Forall₂ (Lexeme.Returned change) lexemes others) (draft : Draft Span) :
    SyntaxError.SameOutcome change (Draft.view (Span.move change) true)
      (draft.addAll legacy lexemes)
      ((draft.view (Span.move change) true).addAll legacy others) := by
  induction returned generalizing draft with
  | nil => exact .ok draft
  | @cons lexeme other lexemes others first _ inductionHypothesis =>
      have added := Draft.add_returned increasing legacy first draft
      rw [Draft.addAll, Draft.addAll, List.foldlM_cons, List.foldlM_cons]
      generalize draft.add legacy lexeme = outcome at added
      generalize (draft.view (Span.move change) true).add legacy other = otherOutcome at added
      cases added with
      | ok next => exact inductionHypothesis next
      | error returned => exact .error returned

/-- A document that ends is moved as a whole. -/
theorem Draft.finish_returned (text : String) (draft : Draft Span) :
    SyntaxError.SameOutcome (Text.passReturns text.toList)
      (Document.map (Span.move (Text.passReturns text.toList)))
      (draft.finish ⟨0, text.utf8ByteSize⟩ (Lexeme.endOf text))
      ((draft.view (Span.move (Text.passReturns text.toList)) true).finish
        ⟨0, (textWithReturns text).utf8ByteSize⟩
        (Lexeme.endOf (textWithReturns text))) := by
  have first : Text.passReturns text.toList 0 = 0 := Text.passReturns_size [] text.toList
  have last : Text.passReturns text.toList text.utf8ByteSize =
      (textWithReturns text).utf8ByteSize := by
    have last := Text.passReturns_end text.toList
    rwa [Text.size_toList, Text.size_eq_utf8ByteSize] at last
  have whole : Span.move (Text.passReturns text.toList) ⟨0, text.utf8ByteSize⟩ =
      ⟨0, (textWithReturns text).utf8ByteSize⟩ := by
    rw [Span.move, first, last]
  have ending : (Lexeme.endOf text).view (Span.move (Text.passReturns text.toList)) true =
      Lexeme.endOf (textWithReturns text) := by
    change Lexeme.mk .ending "" (Span.move _ ⟨text.utf8ByteSize, text.utf8ByteSize⟩) none none =
      ⟨.ending, "", ⟨_, _⟩, none, none⟩
    rw [Span.move, last]
    rfl
  rw [← whole, ← ending, Draft.finish_view]
  exact SyntaxError.sameOutcome_view _ _ _

/-- The text with carriage returns is read as the text without them, at other places. -/
theorem Document.ofText_withReturns (legacy : Bool) (text : String) :
    SyntaxError.SameOutcome (Text.passReturns text.toList)
      (Document.map (Span.move (Text.passReturns text.toList)))
      (Document.ofText legacy text)
      (Document.ofText legacy (textWithReturns text)) := by
  have tokens : List.Forall₂ (Token.Returned (Text.passReturns text.toList)) (Token.ofText text)
      (Token.ofText (textWithReturns text)) := by
    rw [Token.ofText, Token.ofText, textWithReturns, String.toList_ofList]
    exact Token.returned_scan [] rfl
  have read := Draft.addAll_returned (Text.strictMono_passReturns text.toList) legacy
    (Lexeme.returned_ofTokens tokens Margin.opening) Draft.empty
  rw [Document.ofText, Document.ofText, Document.ofLexemes_eq, Document.ofLexemes_eq]
  change SyntaxError.SameOutcome _ _ (Draft.empty.addAll legacy (Lexeme.ofText text))
    (Draft.empty.addAll legacy (Lexeme.ofText _)) at read
  generalize Draft.empty.addAll legacy (Lexeme.ofText text) = outcome at read
  generalize Draft.empty.addAll legacy (Lexeme.ofText (textWithReturns _)) = otherOutcome at read
  cases read with
  | ok last => exact Draft.finish_returned text last
  | error returned => exact .error returned

/-! ### Reviews -/

/-- Two failures say the same if they have the same messages in one order, and each of them is about
the same line and column of its text. -/
def Review.FailSame (text other : String) (failure otherFailure : Failure) : Prop :=
  List.Forall₂ (fun diagnostic otherDiagnostic =>
    otherDiagnostic.message = diagnostic.message ∧
      (Review.ofText other).lineAndColumn otherDiagnostic.span.start =
        (Review.ofText text).lineAndColumn diagnostic.span.start)
    failure.diagnostics otherFailure.diagnostics

/-- Two texts are read the same if both give the same document apart from its marks, or if their
failures say the same. -/
def Review.ReadSame (text other : String) :
    Except Failure (Document Span) → Except Failure (Document Span) → Prop
  | .ok document, .ok otherDocument => otherDocument.outline true = document.outline true
  | .error failure, .error otherFailure => Review.FailSame text other failure otherFailure
  | _, _ => False

/-- Two documents are checked the same if both are accepted with the same names and classes in one
order, or if their failures say the same. -/
def Review.CheckSame (text other : String) :
    Except Failure (Schema Span) → Except Failure (Schema Span) → Prop
  | .ok schema, .ok otherSchema =>
      otherSchema.all.map (fun classified => (classified.name, classified.isStatic)) =
        schema.all.map fun classified => (classified.name, classified.isStatic)
  | .error failure, .error otherFailure => Review.FailSame text other failure otherFailure
  | _, _ => False

/-- Carriage returns do not change lines and columns. -/
theorem Review.lineAndColumn_withReturns (text : String) (offset : Nat) :
    (Review.ofText (textWithReturns text)).lineAndColumn
        (Text.passReturns text.toList offset) =
      (Review.ofText text).lineAndColumn offset := by
  have increasing := Text.strictMono_passReturns text.toList
  have last := Text.passReturns_end text.toList
  rw [Text.size_toList, Text.size_eq_utf8ByteSize] at last
  simp only [Review.lineAndColumn, Review.ofText, Text.CheckpointIndex.locate_ofText,
    textWithReturns, ← last, ← increasing.monotone.map_min, String.toList_ofList,
    Text.positionOf_withReturns]

theorem Problem.diagnostic_map (change : Nat → Nat) (problem : Problem Span) :
    (problem.map (Span.move change)).diagnostic =
      ⟨problem.span.move change, problem.fault.message⟩ := by
  rcases problem with ⟨mark, fault⟩
  cases fault <;> rfl

theorem Schema.flags_view {Mark Other : Type} (change : Mark → Other) (comments : Bool)
    (schema : Schema Mark) :
    (schema.view change comments).all.map
        (fun classified => (classified.name, classified.isStatic)) =
      schema.all.map fun classified => (classified.name, classified.isStatic) :=
  congrArg (List.cons _) (schema.classes_view change comments)

/-- The document with moved marks is checked with the same outcome. -/
theorem Review.check_withReturns (text : String) (document : Document Span) :
    Review.CheckSame text (textWithReturns text) ((Review.ofText text).check document).1
      ((Review.ofText (textWithReturns text)).check
        (document.map (Span.move (Text.passReturns text.toList)))).1 := by
  have moved := document.check_view (Span.move (Text.passReturns text.toList)) true
  rw [Document.view_true] at moved
  cases checked : document.check with
  | ok schema =>
      rw [checked] at moved
      rw [(Review.check_eq_ok_iff _ _ _).2 ⟨rfl, checked⟩,
        (Review.check_eq_ok_iff _ _ _).2 ⟨rfl, moved⟩]
      exact schema.flags_view _ true
  | error problems =>
      rw [checked] at moved
      simp only [Review.check_eq_conclude, Review.conclude, Review.stop, checked, moved]
      change List.Forall₂ _ (problems.map Problem.diagnostic)
        ((problems.map (Problem.map _)).map Problem.diagnostic)
      rw [List.forall₂_map_left_iff, List.map_map, List.forall₂_map_right_iff, List.forall₂_same]
      intro problem _
      rw [Function.comp_apply, problem.diagnostic_map]
      exact ⟨rfl, Review.lineAndColumn_withReturns text problem.span.start⟩

/-- Line endings do not matter. With a carriage return before each line feed a text is read as the
same document with the same comments, or fails with the same message at the same line and column,
and then the document is checked with the same outcome. -/
theorem Review.line_endings_irrelevant (legacy : Bool) (text : String) :
    Review.ReadSame text (textWithReturns text) ((Review.ofText text).read legacy).1
        ((Review.ofText (textWithReturns text)).read legacy).1 ∧
      ∀ document other, ((Review.ofText text).read legacy).1 = .ok document →
        ((Review.ofText (textWithReturns text)).read legacy).1 = .ok other →
        Review.CheckSame text (textWithReturns text) ((Review.ofText text).check document).1
          ((Review.ofText (textWithReturns text)).check other).1 := by
  have same := Document.ofText_withReturns legacy text
  cases read : Document.ofText legacy text with
  | ok document =>
      generalize moved : Document.ofText legacy (textWithReturns text) = outcome at same
      rw [read] at same
      cases same
      rw [Review.read_eq_ok_iff.2 read, Review.read_eq_ok_iff.2 moved]
      refine ⟨document.outline_map _, ?_⟩
      rintro _ _ ⟨⟩ ⟨⟩
      exact Review.check_withReturns text document
  | error error =>
      generalize moved : Document.ofText legacy (textWithReturns text) = outcome at same
      rw [read] at same
      cases same with
      | error returned =>
          obtain ⟨failure, failed, shown⟩ := Review.exists_failure read
          obtain ⟨otherFailure, otherFailed, otherShown⟩ := Review.exists_failure moved
          rw [failed, otherFailed]
          refine ⟨?_, fun _ _ isRead => nomatch isRead⟩
          have line := Review.lineAndColumn_withReturns text error.lexeme.mark.start
          rw [← returned.start] at line
          simp only [Review.ReadSame, Review.FailSame, shown, otherShown]
          exact .cons ⟨returned.message, line⟩ .nil

/-- Here a text with a comment at the end of a line is read and checked alike with and without
carriage returns. -/
theorem Review.line_endings_irrelevant_of_comment :
    ∃ document other,
      ((Review.ofText "type Storage \x7b\n  a: A // b\n\x7d").read false).1 = .ok document ∧
      ((Review.ofText "type Storage \x7b\r\n  a: A // b\r\n\x7d").read false).1 = .ok other ∧
      other.outline true = document.outline true ∧
      Review.CheckSame "type Storage \x7b\n  a: A // b\n\x7d"
        "type Storage \x7b\r\n  a: A // b\r\n\x7d"
        ((Review.ofText "type Storage \x7b\n  a: A // b\n\x7d").check document).1
        ((Review.ofText "type Storage \x7b\r\n  a: A // b\r\n\x7d").check other).1 := by
  have returns : textWithReturns "type Storage \x7b\n  a: A // b\n\x7d" =
      "type Storage \x7b\r\n  a: A // b\r\n\x7d" := by decide
  have irrelevant := Review.line_endings_irrelevant false
    "type Storage \x7b\n  a: A // b\n\x7d"
  rw [returns] at irrelevant
  obtain ⟨same, checked⟩ := irrelevant
  have reads : ((Review.ofText "type Storage \x7b\n  a: A // b\n\x7d").read
      false).1.toOption.isSome = true := by
    rw [Review.read_eq_ofText]
    decide +kernel
  cases read : ((Review.ofText "type Storage \x7b\n  a: A // b\n\x7d").read false).1 with
  | error failure =>
      rw [read] at reads
      cases reads
  | ok document =>
      cases otherRead : ((Review.ofText
          "type Storage \x7b\r\n  a: A // b\r\n\x7d").read false).1 with
      | error failure =>
          rw [read, otherRead] at same
          cases same
      | ok other =>
          rw [read, otherRead] at same
          exact ⟨document, other, rfl, rfl, same, checked document other read otherRead⟩

end StorageSchema
