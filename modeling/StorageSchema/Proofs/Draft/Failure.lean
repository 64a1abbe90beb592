/-
This file shows that a text that is not read fails at the first of its tokens with which no text can
go on.
-/
import StorageSchema.Proofs.Draft.Completion
import StorageSchema.Proofs.Reader.Document

namespace StorageSchema

variable {Mark : Type} {legacy : Bool}

theorem error_of_map_eq_error {Fault Result Other : Type} {outcome : Except Fault Result}
    {change : Result → Other} {error : Fault} (mapped : outcome.map change = .error error) :
    outcome = .error error := by
  cases outcome with
  | error _ => exact congrArg Except.error (Except.error.inj mapped)
  | ok _ => cases mapped

/-- A lexeme is refused because another one is expected, or because it is a legacy spelling of a
scalar where these are not read. -/
inductive Lexeme.Refused (legacy : Bool) (lexeme : Lexeme Mark) : SyntaxError Mark → Prop where
  | expected (expectation : Expectation) : Refused legacy lexeme ⟨lexeme, .expected expectation⟩
  | legacyScalar {kind : Scalar} : legacy = false → lexeme.kind = .identifier →
      Word.ofText lexeme.text = .legacyScalar kind →
      Refused legacy lexeme ⟨lexeme, .legacyScalar kind⟩

/-- The error names the lexeme that is refused. -/
theorem Lexeme.Refused.lexeme_eq {lexeme : Lexeme Mark} {error : SyntaxError Mark}
    (refused : lexeme.Refused legacy error) : error.lexeme = lexeme := by
  cases refused <;> rfl

theorem TypeDraft.refused_of_ofLexeme {lexeme : Lexeme Mark} {error : SyntaxError Mark}
    (failed : TypeDraft.ofLexeme legacy lexeme = .error error) : lexeme.Refused legacy error := by
  simp only [TypeDraft.ofLexeme, TypeDraft.ofWord] at failed
  split at failed
  · cases failed
  · cases failed
  · next isWord =>
      split at failed
      · cases failed
      · cases failed
      · cases failed
      · next means =>
          cases legacy with
          | false => exact Except.error.inj failed ▸ .legacyScalar rfl isWord means
          | true => cases failed
      · cases failed
  · exact Except.error.inj failed ▸ .expected _

theorem TypeDraft.refused_of_add [Union Mark] {around : Surroundings Mark}
    {draft : TypeDraft Mark} {lexeme : Lexeme Mark} {error : SyntaxError Mark}
    (failed : draft.add legacy around lexeme = .error error) : lexeme.Refused legacy error := by
  cases draft with
  | empty => exact TypeDraft.refused_of_ofLexeme (error_of_map_eq_error failed)
  | complete item =>
      simp only [TypeDraft.add, TypeDraft.extend] at failed
      split at failed <;> cases failed
      exact .expected _
  | _ =>
      simp only [TypeDraft.add] at failed
      split at failed <;> cases failed
      exact .expected _

theorem Draft.refused_of_addInBody [Union Mark] {draft : Draft Mark}
    {opened : OpenDefinition Mark} {lexeme : Lexeme Mark} {error : SyntaxError Mark}
    (failed : draft.addInBody opened lexeme = .error error) : lexeme.Refused legacy error := by
  simp only [Draft.addInBody] at failed
  split at failed <;> cases failed
  exact .expected _

theorem Draft.refused_of_add [Union Mark] {draft : Draft Mark} {lexeme : Lexeme Mark}
    {error : SyntaxError Mark} (failed : draft.add legacy lexeme = .error error) :
    lexeme.Refused legacy error := by
  rcases draft with ⟨finished, stage⟩
  cases stage with
  | body opened => exact Draft.refused_of_addInBody failed
  | comma opened field => exact Draft.refused_of_addInBody failed
  | type opened named around typeDraft =>
      simp only [Draft.add, Draft.addInType] at failed
      split at failed
      · cases failed
      · exact Draft.refused_of_addInBody failed
      · exact Draft.refused_of_addInBody failed
      · exact TypeDraft.refused_of_add (error_of_map_eq_error failed)
  | _ =>
      simp only [Draft.add] at failed
      split at failed <;> cases failed
      exact .expected _

/-- What cannot be read as a whole can be read up to a lexeme that is refused. -/
theorem Draft.addAll_eq_error [Union Mark] {draft : Draft Mark} {lexemes : List (Lexeme Mark)}
    {error : SyntaxError Mark} (failed : draft.addAll legacy lexemes = .error error) :
    ∃ before lexeme after next, lexemes = before ++ lexeme :: after ∧
      draft.addAll legacy before = .ok next ∧ next.add legacy lexeme = .error error := by
  induction lexemes generalizing draft with
  | nil => cases failed
  | cons lexeme rest inductionHypothesis =>
      rw [Draft.addAll, List.foldlM_cons] at failed
      cases added : draft.add legacy lexeme with
      | error refusal =>
          rw [added] at failed
          cases failed
          exact ⟨[], lexeme, rest, draft, rfl, rfl, added⟩
      | ok next =>
          rw [added] at failed
          obtain ⟨before, last, after, reached, rfl, read, refused⟩ := inductionHypothesis failed
          refine ⟨lexeme :: before, last, after, reached, rfl, ?_, refused⟩
          rw [Draft.addAll, List.foldlM_cons, added]
          exact read

theorem Draft.refused_of_finish {draft : Draft Mark} {mark : Mark} {ending : Lexeme Mark}
    {error : SyntaxError Mark} (failed : draft.finish mark ending = .error error) :
    ending.Refused legacy error := by
  obtain ⟨finished, stage⟩ := draft
  cases stage <;> cases failed <;> exact .expected _

/-- Reading fails at one of the lexemes or at the end. -/
theorem Draft.exists_refused_of_error [Union Mark] {draft : Draft Mark} {mark : Mark}
    {lexemes : List (Lexeme Mark)} {ending : Lexeme Mark} {error : SyntaxError Mark}
    (failed : (draft.addAll legacy lexemes >>= fun last => last.finish mark ending) =
      .error error) :
    ∃ before lexeme after, lexemes ++ [ending] = before ++ lexeme :: after ∧
      lexeme.Refused legacy error := by
  cases added : draft.addAll legacy lexemes with
  | error refusal =>
      rw [added] at failed
      obtain rfl : refusal = error := Except.error.inj failed
      obtain ⟨before, lexeme, after, _, rfl, -, refused⟩ := Draft.addAll_eq_error added
      exact ⟨before, lexeme, after ++ [ending], List.append_assoc _ _ _,
        Draft.refused_of_add refused⟩
  | ok last =>
      rw [added] at failed
      exact ⟨lexemes, ending, [], rfl, Draft.refused_of_finish failed⟩

/-- A draft refuses a symbol that takes no step of it, and the end of the text inside a
definition. -/
def Draft.Refuses (legacy : Bool) (draft : Draft Unit) (symbol : Symbol) : Prop :=
  (∀ next, ¬ Draft.Step legacy symbol.lexeme draft next) ∧
    (symbol = .ending → draft.stage ≠ .outside)

theorem Draft.Reads.unique {word : List Symbol} {draft first second : Draft Unit}
    (left : Draft.Reads legacy word draft first) (right : Draft.Reads legacy word draft second) :
    first = second := by
  have same := Draft.addAll_eq_ok_iff.2 left
  rw [Draft.addAll_eq_ok_iff.2 right] at same
  exact (Except.ok.inj same).symm

/-- No text that is read goes on with a symbol that is refused. -/
theorem Draft.Refuses.not_prefix {word : List Symbol} {symbol : Symbol} {draft : Draft Unit}
    (refuses : draft.Refuses legacy symbol) (read : Draft.Reads legacy word Draft.empty draft)
    {text : String} {document : Document Span}
    (accepted : Document.ofText legacy text = .ok document) :
    ¬ word ++ [symbol] <+: Symbol.ofText text := by
  rintro ⟨rest, joined⟩
  have outlined := Document.outline_ofText legacy text
  rw [accepted] at outlined
  obtain ⟨finished, whole, -⟩ := Document.ofSymbols_eq_ok_iff.1 outlined.symm
  rw [Symbol.ofText_eq] at joined
  rcases List.eq_nil_or_concat rest with rfl | ⟨others, last, rfl⟩
  · rw [List.append_nil] at joined
    obtain ⟨rfl, ending⟩ := List.append_inj' joined rfl
    obtain rfl := whole.unique read
    exact refuses.2 (List.cons.inj ending).1 rfl
  · rw [List.concat_eq_append, ← List.append_assoc] at joined
    obtain ⟨same, -⟩ := List.append_inj' joined rfl
    rw [← same, List.append_assoc] at whole
    rw [Draft.Reads, List.map_append] at whole
    obtain ⟨middle, before, after⟩ := whole.exists_middle
    obtain rfl := Draft.Reads.unique before read
    rcases after with _ | ⟨step, _⟩
    exact refuses.1 _ step

/-- What an error shows of a lexeme is its place, and the grammar sees its symbol. -/
def Lexeme.origin (lexeme : Lexeme Span) : Symbol × Span :=
  (⟨lexeme.kind, lexeme.text⟩, lexeme.mark)

def Token.origin (token : Token) : Symbol × Span := (token.symbol, token.span)

/-- The lexemes of a text stand where its significant tokens do. -/
theorem Lexeme.origins_ofTokens (margin : Margin) (tokens : List Token) :
    (Lexeme.ofTokens margin tokens).map Lexeme.origin =
      (tokens.filter Token.isSignificant).map Token.origin := by
  induction tokens generalizing margin with
  | nil => rfl
  | cons token rest inductionHypothesis =>
      rcases token with ⟨kind, text, start⟩
      rw [Lexeme.ofTokens]
      cases kind with
      | comment | newline => exact inductionHypothesis _
      | _ => exact congrArg (_ :: ·) (inductionHypothesis _)

/-- What is read of the lexemes is read of the symbols of their tokens. -/
theorem Draft.reads_of_addAll {lexemes : List (Lexeme Span)} {tokens : List Token}
    {draft : Draft Span} (origins : lexemes.map Lexeme.origin = tokens.map Token.origin)
    (read : Draft.empty.addAll legacy lexemes = .ok draft) :
    Draft.Reads legacy (tokens.map Token.symbol) Draft.empty (draft.outline false) := by
  have symbols : lexemes.map (Lexeme.outline false) =
      (tokens.map Token.symbol).map Symbol.lexeme := by
    have same := congrArg (List.map fun origin : Symbol × Span => origin.1.lexeme) origins
    rw [List.map_map, List.map_map] at same
    rw [List.map_map]
    exact same
  have outlined := Draft.addAll_outline legacy false Draft.empty lexemes
  rw [read, symbols] at outlined
  exact Draft.addAll_eq_ok_iff.1 outlined

/-- A lexeme that is refused is so whatever its place and its comments are. -/
theorem Draft.refuses_of_add {draft : Draft Span} {lexeme : Lexeme Span}
    {error : SyntaxError Span} {token : Token} (refused : draft.add legacy lexeme = .error error)
    (same : lexeme.origin = token.origin) (inside : token.kind ≠ .ending) :
    (draft.outline false).Refuses legacy token.symbol := by
  have symbol : lexeme.outline false = token.symbol.lexeme :=
    congrArg (fun origin : Symbol × Span => origin.1.lexeme) same
  constructor
  · intro next step
    have added := Draft.add_eq_ok_iff.2 step
    rw [← symbol, Draft.add_outline, refused] at added
    cases added
  · intro ending
    exact absurd (congrArg Symbol.kind ending) inside

/-- Reading stops at a token that is refused. -/
theorem Draft.exists_refused {text : String} {error : SyntaxError Span}
    (failed : Draft.empty.addAll legacy (Lexeme.ofText text) = .error error) :
    ∃ before token after draft,
      (Token.ofText text).filter Token.isSignificant = before ++ token :: after ∧
      error.lexeme.mark = token.span ∧
      Draft.Reads legacy (before.map Token.symbol) Draft.empty draft ∧
      draft.Refuses legacy token.symbol := by
  have origins := Lexeme.origins_ofTokens Margin.opening (Token.ofText text)
  obtain ⟨lexemes, lexeme, others, draft, listed, read, refused⟩ := Draft.addAll_eq_error failed
  rw [← Lexeme.ofText, listed, List.map_append, List.map_cons] at origins
  obtain ⟨before, rest, divided, same, restSame⟩ := List.map_eq_append_iff.1 origins.symm
  obtain ⟨token, after, rfl, origin, -⟩ := List.map_eq_cons_iff.1 restSame
  have present : token ∈ (Token.ofText text).filter Token.isSignificant := by
    rw [divided]
    exact List.mem_append_right before List.mem_cons_self
  have inside := Token.kind_ne_ending_of_mem_scan (List.mem_filter.1 present).1
  refine ⟨before, token, after, draft.outline false, divided, ?_,
    Draft.reads_of_addAll same.symm read, Draft.refuses_of_add refused origin.symm inside⟩
  rw [(Draft.refused_of_add refused).lexeme_eq]
  exact (congrArg Prod.snd origin).symm

/-- The end of a text is refused inside a definition only. -/
theorem Draft.finish_eq_error {draft : Draft Span} {mark : Span} {ending : Lexeme Span}
    {error : SyntaxError Span} (failed : draft.finish mark ending = .error error) :
    ending.Refused legacy error ∧ (draft.outline false).Refuses legacy .ending := by
  refine ⟨Draft.refused_of_finish failed, fun _ step => step.isSolid.2.2.2.2 rfl, fun _ => ?_⟩
  obtain ⟨finished, stage⟩ := draft
  rintro closed
  cases stage <;> cases closed
  cases failed

/-- A text that is not read can be read up to one of its significant tokens, which is refused. -/
theorem Document.exists_refused {text : String} {error : SyntaxError Span}
    (failed : Document.ofText legacy text = .error error) :
    ∃ before token after draft, Token.significant text = before ++ token :: after ∧
      error.lexeme.mark = token.span ∧
      Draft.Reads legacy (before.map Token.symbol) Draft.empty draft ∧
      draft.Refuses legacy token.symbol := by
  have divided : Token.significant text =
      (Token.ofText text).filter Token.isSignificant ++ [Token.endOf text] := by
    rw [Token.significant, List.filter_append]
    rfl
  rw [Document.ofText, Document.ofLexemes_eq] at failed
  cases added : Draft.addAll legacy Draft.empty (Lexeme.ofText text) with
  | error refusal =>
      rw [added] at failed
      obtain rfl : refusal = error := Except.error.inj failed
      obtain ⟨before, token, after, draft, scanned, place, read, refuses⟩ :=
        Draft.exists_refused added
      refine ⟨before, token, after ++ [Token.endOf text], draft, ?_, place, read, refuses⟩
      rw [divided, scanned, List.append_assoc, List.cons_append]
  | ok draft =>
      rw [added] at failed
      obtain ⟨refused, refuses⟩ := Draft.finish_eq_error failed
      have read := Draft.reads_of_addAll (Lexeme.origins_ofTokens Margin.opening _) added
      refine ⟨_, Token.endOf text, [], draft.outline false, divided, ?_, read, refuses⟩
      rw [refused.lexeme_eq]
      rfl

/-- A text that is not read fails with one diagnostic. It shows a significant token, and what stands
before that token is the beginning of a text that is read, but not together with it. -/
theorem Review.read_failure (review : Review) (legacy : Bool) (clear : review.pending = [])
    (failure : Failure) (failed : (review.read legacy).1 = .error failure) :
    ∃ before token after message,
      Token.significant review.text = before ++ token :: after ∧
      failure.diagnostics = [⟨token.span, message⟩] ∧
      (∃ text document, Document.ofText legacy text = .ok document ∧
        before.map Token.symbol <+: Symbol.ofText text) ∧
      ∀ text document, Document.ofText legacy text = .ok document →
        ¬ before.map Token.symbol ++ [token.symbol] <+: Symbol.ofText text := by
  rw [Review.read_eq_ofText] at failed
  split at failed
  · cases failed
  · next error refused =>
      obtain ⟨before, token, after, draft, divided, place, read, refuses⟩ :=
        Document.exists_refused refused
      refine ⟨before, token, after, error.message, divided, ?_, ?_, ?_⟩
      · rw [← Except.error.inj failed, ← place]
        simp [Review.fail, Review.note, clear, SyntaxError.diagnostic]
      · refine Draft.exists_text_of_reads ?_ read
        intro symbol present solid
        obtain ⟨earlier, isEarlier, rfl⟩ := List.mem_map.1 present
        have significant : earlier ∈ Token.significant review.text := by
          rw [divided]
          exact List.mem_append_left _ isEarlier
        exact Token.isSpelled_of_mem (List.mem_filter.1 significant).1 solid
      · intro text document accepted
        exact refuses.not_prefix read accepted

/-- Here the text fails at a spelling of a scalar that is not read without the option. -/
theorem Review.read_failure_of_legacy_scalar :
    ∃ failure, ((Review.ofText "type A \x7bb: Int\x7d").read false).1 = .error failure ∧
      ∃ before token after message,
        Token.significant "type A \x7bb: Int\x7d" = before ++ token :: after ∧
        failure.diagnostics = [⟨token.span, message⟩] ∧
        ∃ text document, Document.ofText false text = .ok document ∧
          before.map Token.symbol <+: Symbol.ofText text := by
  have fails :
      ((Review.ofText "type A \x7bb: Int\x7d").read false).1.toOption.isNone = true := by
    rw [Review.read_eq_ofText]
    decide +kernel
  cases read : ((Review.ofText "type A \x7bb: Int\x7d").read false).1 with
  | ok document =>
      rw [read] at fails
      cases fails
  | error failure =>
      obtain ⟨before, token, after, message, divided, shown, begins, -⟩ :=
        Review.read_failure (Review.ofText "type A \x7bb: Int\x7d") false rfl failure read
      exact ⟨failure, rfl, before, token, after, message, divided, shown, begins⟩

end StorageSchema
