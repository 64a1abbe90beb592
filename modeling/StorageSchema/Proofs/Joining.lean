/-
This file joins two texts with an empty line between them. The definitions of the joined text are
those of the first one and then those of the second one, moved to their new place.
-/
import StorageSchema.Proofs.Check.Acceptance
import StorageSchema.Proofs.Comments.Slots
import StorageSchema.Proofs.Comments.TextLines
import StorageSchema.Proofs.Draft.View

namespace StorageSchema

/-! ### Tokens further on in a text -/

/-- A token stands further on by this distance. -/
def Token.shift (distance : Nat) (token : Token) : Token :=
  { token with start := token.start + distance }

/-- A span stands further on by this distance. -/
def Span.shift (distance : Nat) : Span → Span := Span.move (· + distance)

theorem Token.span_shift (distance : Nat) (token : Token) :
    (token.shift distance).span = token.span.shift distance := by
  simp only [Token.span, Token.shift, Span.shift, Span.move, Nat.add_right_comm]

/-- A text is divided in the same way wherever it begins. -/
theorem Token.scan_shift (start distance : Nat) (text : List Char) :
    Token.scan (start + distance) text = (Token.scan start text).map (Token.shift distance) := by
  induction start, text using Token.scan.induct with
  | case1 start => rw [Token.scan_nil, Token.scan_nil, List.map_nil]
  | case2 start first rest space inductionHypothesis =>
      rw [Token.scan_space _ _ space, Token.scan_space _ _ space, ← inductionHypothesis,
        Nat.add_right_comm]
  | case3 start first rest solid measured text inductionHypothesis =>
      rw [Token.scan_token _ _ solid, Token.scan_token _ _ solid, List.map_cons,
        ← inductionHypothesis, Nat.add_right_comm start]
      rfl

/-! ### Lexemes of joined texts -/

/-- The comments around lexemes do not depend on where the tokens stand. -/
theorem Lexeme.ofTokens_shift (distance : Nat) (margin : Margin) (tokens : List Token) :
    Lexeme.ofTokens margin (tokens.map (Token.shift distance)) =
      (Lexeme.ofTokens margin tokens).map (Lexeme.view (Span.shift distance) true) := by
  induction tokens generalizing margin with
  | nil => rfl
  | cons token rest inductionHypothesis =>
      have same : (token.shift distance).isSignificant = token.isSignificant := rfl
      cases significant : token.isSignificant with
      | true =>
          rw [List.map_cons, Lexeme.ofTokens_significant _ _ (same.trans significant),
            inductionHypothesis, Lexeme.ofTokens_significant _ _ significant, List.map_cons,
            Token.span_shift]
          rfl
      | false =>
          rw [List.map_cons, Lexeme.ofTokens_insignificant _ _ (same.trans significant),
            inductionHypothesis, Lexeme.ofTokens_insignificant _ _ significant]
          rfl

/-- The first of some lexemes comes after a lexeme with this comment beside it. -/
def Lexeme.afterBeside {Mark : Type} (beside : Option String) :
    List (Lexeme Mark) → List (Lexeme Mark)
  | [] => []
  | first :: rest => { first with beside } :: rest

/-- A line that is fresh stays so, and the comment beside the last lexeme stays with it. -/
theorem Margin.pass_fresh {margin : Margin} (fresh : margin.onFreshLine = true) {token : Token}
    (insignificant : token.isSignificant = false) (beside : Option String) :
    ({ margin with beside } : Margin).pass token = { margin.pass token with beside } ∧
      (margin.pass token).onFreshLine = true := by
  rcases Token.isComment_or_isNewline insignificant with isComment | isNewline
  · simp [Margin.pass_comment _ isComment, Margin.addComment, fresh]
  · rw [Margin.pass_newline _ isNewline, Margin.pass_newline _ isNewline, Margin.endLine,
      Margin.endLine]
    cases margin.comment <;> exact ⟨rfl, rfl⟩

/-- On a fresh line only the first lexeme sees the comment beside the one before it. -/
theorem Lexeme.ofTokens_beside {margin : Margin} (fresh : margin.onFreshLine = true)
    (beside : Option String) (tokens : List Token) :
    Lexeme.ofTokens { margin with beside } tokens =
      Lexeme.afterBeside beside (Lexeme.ofTokens margin tokens) := by
  induction tokens generalizing margin with
  | nil => rfl
  | cons token rest inductionHypothesis =>
      cases significant : token.isSignificant with
      | true =>
          rw [Lexeme.ofTokens_significant _ _ significant,
            Lexeme.ofTokens_significant _ _ significant]
          rfl
      | false =>
          obtain ⟨passed, still⟩ := Margin.pass_fresh fresh significant beside
          rw [Lexeme.ofTokens_insignificant _ _ significant, passed, inductionHypothesis still,
            Lexeme.ofTokens_insignificant _ _ significant]

/-- After an empty line a margin is that of the opening, apart from the comment beside the last
lexeme. -/
theorem Margin.endLine_endLine (margin : Margin) :
    margin.endLine.endLine = ⟨[], none, margin.beside, true⟩ := by
  unfold Margin.endLine
  cases margin.comment <;> rfl

/-- The lexemes of the joined text are those of both texts. Those of the second text are further on,
and a comment at the end of the first text stands beside the first of them. -/
theorem Lexeme.ofText_joined (first second : String) :
    ∃ beside, Lexeme.ofText (first ++ "\n\n" ++ second) = Lexeme.ofText first ++
      Lexeme.afterBeside beside ((Lexeme.ofText second).map
        (Lexeme.view (Span.shift (first.utf8ByteSize + 2)) true)) := by
  have letters : (first ++ "\n\n" ++ second).toList =
      first.toList ++ '\n' :: ([] ++ '\n' :: second.toList) := by
    simp
  have tokens : Token.ofText (first ++ "\n\n" ++ second) = Token.ofText first ++
      (⟨.newline, "\n", first.utf8ByteSize⟩ :: ⟨.newline, "\n", first.utf8ByteSize + 1⟩ ::
        (Token.ofText second).map (Token.shift (first.utf8ByteSize + 2))) := by
    have further := Token.scan_shift 0 (first.utf8ByteSize + 2) second.toList
    rw [Nat.zero_add] at further
    rw [Token.ofText, letters, Token.scan_line, Token.scan_line, Text.size_toList, Token.scan_nil,
      Nat.zero_add]
    rw [Token.ofText, Token.ofText, ← further]
    rfl
  have opened (beside : Option String) (tokens : List Token) :
      Lexeme.ofTokens ⟨[], none, beside, true⟩ tokens =
        Lexeme.afterBeside beside (Lexeme.ofTokens Margin.opening tokens) := by
    apply Lexeme.ofTokens_beside (rfl : Margin.opening.onFreshLine = true)
  refine ⟨(Margin.after (Token.ofText first)).beside, ?_⟩
  rw [Lexeme.ofText, tokens, Lexeme.ofTokens_append, Lexeme.ofTokens, Lexeme.ofTokens]
  change _ ++ Lexeme.ofTokens (Margin.after (Token.ofText first)).endLine.endLine _ = _
  rw [Margin.endLine_endLine, opened, Lexeme.ofTokens_shift]
  rfl

/-! ### Drafts of joined texts -/

variable {Mark : Type} [Union Mark] {legacy : Bool}

/-- A draft has some more definitions that were finished before. -/
def Draft.onTopOf (finished : List (Definition Mark)) (draft : Draft Mark) : Draft Mark :=
  { draft with finished := draft.finished ++ finished }

/-- No step looks at the finished definitions. -/
theorem Draft.Step.onTopOf {lexeme : Lexeme Mark} {draft next : Draft Mark}
    (step : Draft.Step legacy lexeme draft next) (finished : List (Definition Mark)) :
    Draft.Step legacy lexeme (draft.onTopOf finished) (next.onTopOf finished) := by
  cases step with
  | keyword isWord isKeyword => exact .keyword isWord isKeyword
  | typeName isWord => exact .typeName isWord
  | openBrace isBrace => exact .openBrace isBrace
  | closeBrace isBrace between => exact .closeBrace isBrace between
  | fieldName isWord between => exact .fieldName isWord between
  | question isMark => exact .question isMark
  | colon isColon => exact .colon isColon
  | optionalColon isColon => exact .optionalColon isColon
  | type part => exact .type part
  | comma isComma => exact .comma isComma

/-- Outside the definitions the comment beside the last lexeme is not looked at. -/
theorem Lexeme.Run.afterBeside {lexemes : List (Lexeme Mark)} {finished : List (Definition Mark)}
    {last : Draft Mark} (run : Lexeme.Run (Draft.Step legacy) lexemes ⟨finished, .outside⟩ last)
    (beside : Option String) :
    Lexeme.Run (Draft.Step legacy) (Lexeme.afterBeside beside lexemes) ⟨finished, .outside⟩
      last := by
  cases run with
  | nil => exact .nil
  | cons step rest =>
      refine .cons ?_ rest
      cases step with
      | keyword isWord isKeyword => exact Draft.Step.keyword isWord isKeyword
      | closeBrace _ between | fieldName _ between => cases between

/-- A run can be made with other marks if unions are preserved. -/
theorem Lexeme.Run.view {Other : Type} [Union Other] {change : Mark → Other}
    (unions : PreservesUnions change) {lexemes : List (Lexeme Mark)} {draft last : Draft Mark}
    (run : Lexeme.Run (Draft.Step legacy) lexemes draft last) (comments : Bool) :
    Lexeme.Run (Draft.Step legacy) (lexemes.map (Lexeme.view change comments))
      (draft.view change comments) (last.view change comments) :=
  (Lexeme.Run.view_iff (Draft.Step.view_iff unions)).2 ⟨last, run, rfl⟩

/-- If two texts are read, then the text that joins them with an empty line in between is read too.
It has the definitions of the first text as they are, and then those of the second text, which are
only moved. -/
theorem Document.ofText_join (legacy : Bool) (first second : String)
    (document other : Document Span) (read : Document.ofText legacy first = .ok document)
    (otherRead : Document.ofText legacy second = .ok other) :
    Document.ofText legacy (first ++ "\n\n" ++ second) =
      .ok ⟨⟨0, first.utf8ByteSize + 2 + second.utf8ByteSize⟩, document.definitions ++
        other.definitions.map (Definition.map (Span.shift (first.utf8ByteSize + 2)))⟩ := by
  have increasing : StrictMono (· + (first.utf8ByteSize + 2)) :=
    fun _ _ less => Nat.add_lt_add_right less _
  have size : (first ++ "\n\n" ++ second).utf8ByteSize =
      first.utf8ByteSize + 2 + second.utf8ByteSize := by
    rw [String.utf8ByteSize_append, String.utf8ByteSize_append]
    rfl
  obtain ⟨finished, run, rfl⟩ := Document.ofLexemes_eq_ok_iff.1 read
  obtain ⟨others, otherRun, rfl⟩ := Document.ofLexemes_eq_ok_iff.1 otherRead
  obtain ⟨beside, lexemes⟩ := Lexeme.ofText_joined first second
  have moved := (otherRun.view (Span.preservesUnions_move increasing) true).afterBeside beside
  have onTop := moved.lift (Draft.onTopOf finished) fun _ _ _ step => step.onTopOf finished
  refine Document.ofLexemes_eq_ok_iff.2 ⟨_, lexemes ▸ run.append onTop, ?_⟩
  rw [size, List.map_reverse, ← List.reverse_append]
  rfl

/-- Here a comment at the end of the first text is dropped, and the one at the beginning of the
second text is kept. -/
theorem Document.ofText_join_of_comments :
    ∃ document other,
      Document.ofText false "// a\ntype Storage \x7ba: A\x7d\n// b" = .ok document ∧
      Document.ofText false "// c\ntype A \x7bs: string // d\n\x7d" = .ok other ∧
      Document.ofText false ("// a\ntype Storage \x7ba: A\x7d\n// b" ++ "\n\n" ++
          "// c\ntype A \x7bs: string // d\n\x7d") =
        .ok ⟨⟨0, 60⟩,
          document.definitions ++ other.definitions.map (Definition.map (Span.shift 31))⟩ ∧
      document.definitions.map Definition.leadingComment = [some "a"] ∧
      other.definitions.map (fun definition => (definition.mark, definition.leadingComment)) =
        [(⟨5, 29⟩, some "c")] := by
  obtain ⟨document, read, comments⟩ := Document.exists_of_text
    (fun document => document.definitions.map Definition.leadingComment) [some "a"]
    (by decide +kernel : (Document.ofText false
      "// a\ntype Storage \x7ba: A\x7d\n// b").toOption.map _ = _)
    fun _ _ viewed => viewed
  obtain ⟨other, otherRead, otherComments⟩ := Document.exists_of_text
    (fun document => document.definitions.map fun definition =>
      (definition.mark, definition.leadingComment)) [(⟨5, 29⟩, some "c")]
    (by decide +kernel : (Document.ofText false
      "// c\ntype A \x7bs: string // d\n\x7d").toOption.map _ = _)
    fun _ _ viewed => viewed
  have joined := Document.ofText_join false _ _ document other read otherRead
  exact ⟨document, other, read, otherRead, joined, comments, otherComments⟩

end StorageSchema
