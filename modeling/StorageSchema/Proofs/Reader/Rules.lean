/-
This file says what it means that a reading keeps to the drafts of its text, and how this is shown
for the parts of a reading one after another.
-/
import StorageSchema.Proofs.Draft.Step
import StorageSchema.Proofs.Reader.State
import StorageSchema.Review

namespace StorageSchema

/-! ### Where drafts lead to -/

section Drafts

variable {Mark : Type} [Union Mark] {legacy : Bool} {mark : Mark}
  {result : Except (SyntaxError Mark) (Document Mark)}

/-- A draft leads to a result over lexemes of which the last is the ending. It does so outside the
definitions with the ending, or at a lexeme that is refused, or by a step. -/
inductive Draft.LeadsTo (legacy : Bool) (mark : Mark)
    (result : Except (SyntaxError Mark) (Document Mark)) :
    Draft Mark → List (Lexeme Mark) → Prop where
  | ended {finished : List (Definition Mark)} {ending : Lexeme Mark} : ending.kind = .ending →
      result = .ok ⟨mark, finished.reverse⟩ →
      LeadsTo legacy mark result ⟨finished, .outside⟩ [ending]
  | refused {draft : Draft Mark} {lexeme : Lexeme Mark} {others : List (Lexeme Mark)}
      {error : SyntaxError Mark} : draft.add legacy lexeme = .error error →
      (lexeme.kind = .ending → draft.stage ≠ .outside) → result = .error error →
      LeadsTo legacy mark result draft (lexeme :: others)
  | step {draft next : Draft Mark} {lexeme : Lexeme Mark} {others : List (Lexeme Mark)} :
      Draft.Step legacy lexeme draft next → LeadsTo legacy mark result next others →
      LeadsTo legacy mark result draft (lexeme :: others)

/-- Inside a definition the ending is refused for the sake of what may come next. -/
theorem Draft.add_ending {draft : Draft Mark} {ending : Lexeme Mark}
    (isEnding : ending.kind = .ending) (inside : draft.stage ≠ .outside) :
    draft.add legacy ending = ending.refuse draft.stage.expectation := by
  obtain ⟨finished, stage⟩ := draft
  cases stage with
  | outside => exact absurd rfl inside
  | type opened named around typeDraft =>
      cases typeDraft <;>
        simp [Draft.add, Draft.addInType, TypeDraft.add, TypeDraft.ofLexeme, TypeDraft.extend,
          isEnding, Stage.expectation, TypeDraft.expectation, Lexeme.refuse, Except.map]
  | _ => simp [Draft.add, Draft.addInBody, isEnding, Stage.expectation]

/-- No step takes the ending. -/
theorem Draft.Step.kind_ne_ending {draft next : Draft Mark} {lexeme : Lexeme Mark}
    (step : Draft.Step legacy lexeme draft next) : lexeme.kind ≠ .ending := by
  intro isEnding
  by_cases outside : draft.stage = .outside
  · cases step with
    | keyword isWord _ =>
        rw [isEnding] at isWord
        cases isWord
    | closeBrace _ between | fieldName _ between =>
        obtain rfl := outside
        cases between
    | _ => cases outside
  · have added := Draft.add_eq_ok_iff.2 step
    rw [Draft.add_ending isEnding outside] at added
    cases added

/-- Every draft leads to what comes of reading all lexemes and then the ending. -/
theorem Draft.leadsTo_addAll {draft : Draft Mark} {lexemes : List (Lexeme Mark)}
    (inside : ∀ lexeme ∈ lexemes, lexeme.kind ≠ .ending) {ending : Lexeme Mark}
    (isEnding : ending.kind = .ending) :
    draft.LeadsTo legacy mark (draft.addAll legacy lexemes >>= fun last => last.finish mark ending)
      (lexemes ++ [ending]) := by
  induction lexemes generalizing draft with
  | nil =>
      change draft.LeadsTo legacy mark (draft.finish mark ending) [ending]
      by_cases outside : draft.stage = .outside
      · obtain ⟨finished, stage⟩ := draft
        obtain rfl : stage = .outside := outside
        exact .ended isEnding rfl
      · refine .refused (Draft.add_ending isEnding outside) (fun _ => outside) ?_
        unfold Draft.finish
        split
        · next same => exact absurd same outside
        · rfl
  | cons lexeme others inductionHypothesis =>
      obtain ⟨solid, later⟩ := List.forall_mem_cons.1 inside
      rw [Draft.addAll, List.foldlM_cons]
      cases added : draft.add legacy lexeme with
      | ok next => exact .step (Draft.add_eq_ok_iff.1 added) (inductionHypothesis later)
      | error error => exact .refused added (fun isLast => absurd isLast solid) rfl

variable {draft next : Draft Mark} {lexeme : Lexeme Mark} {others : List (Lexeme Mark)}

theorem Draft.LeadsTo.of_step (leadsTo : draft.LeadsTo legacy mark result (lexeme :: others))
    (step : Draft.Step legacy lexeme draft next) : next.LeadsTo legacy mark result others := by
  cases leadsTo with
  | ended isEnding _ => exact absurd isEnding step.kind_ne_ending
  | refused added _ _ =>
      rw [Draft.add_eq_ok_iff.2 step] at added
      cases added
  | step taken leadsTo =>
      have same := (Draft.add_eq_ok_iff.2 taken).symm.trans (Draft.add_eq_ok_iff.2 step)
      exact Except.ok.inj same ▸ leadsTo

theorem Draft.LeadsTo.of_refused (leadsTo : draft.LeadsTo legacy mark result (lexeme :: others))
    {error : SyntaxError Mark} (refused : draft.add legacy lexeme = .error error)
    (notEnded : lexeme.kind = .ending → draft.stage ≠ .outside) : result = .error error := by
  cases leadsTo with
  | ended isEnding _ => exact absurd rfl (notEnded isEnding)
  | refused added _ failed =>
      cases added.symm.trans refused
      exact failed
  | step taken _ =>
      rw [Draft.add_eq_ok_iff.2 taken] at refused
      cases refused

theorem Draft.LeadsTo.of_ending {finished : List (Definition Mark)}
    (leadsTo : Draft.LeadsTo legacy mark result ⟨finished, .outside⟩ (lexeme :: others))
    (isEnding : lexeme.kind = .ending) : result = .ok ⟨mark, finished.reverse⟩ := by
  cases leadsTo with
  | ended _ accepted => exact accepted
  | refused _ notEnded _ => exact absurd rfl (notEnded isEnding)
  | step taken _ => exact absurd isEnding taken.kind_ne_ending

end Drafts

/-! ### Readings that keep to drafts -/

/-- The kind of a lexeme tells what is said about it where another one is expected. -/
theorem SyntaxError.diagnostic_expected (lexeme : Lexeme Span) {expectation : Expectation}
    (other : expectation ≠ .objectName) :
    SyntaxError.diagnostic ⟨lexeme, .expected expectation⟩ = ⟨lexeme.mark,
      match lexeme.kind with
      | .ending => String.join ["unexpected end of input, ", expectation.message]
      | .invalid => String.join ["unexpected character `", lexeme.text, "`"]
      | .unterminatedString => "unterminated string literal"
      | _ => String.join ["unexpected `", lexeme.text, "`, ", expectation.message]⟩ := by
  cases expectation <;> first | rfl | exact absurd rfl other

namespace Reading

variable {legacy : Bool} {text : String} {result : Except (SyntaxError Span) (Document Span)}
  {Value Other Step Result : Type} {reader : Reader}

/-- A reading keeps to the result of a text if it has an answer. It may have a value that is as it
should be afterwards, and it fails only with the error that is the result. -/
inductive KeepsTo (result : Except (SyntaxError Span) (Document Span)) (reading : Reading Value)
    (reader : Reader) (post : Value → Reader → Prop) : Prop where
  | returned {value : Value} {next : Reader} : reading.run reader = some (.ok (value, next)) →
      post value next → KeepsTo result reading reader post
  | refused {error : SyntaxError Span} : reading.run reader = some (.error error.diagnostic) →
      result = .error error → KeepsTo result reading reader post

theorem KeepsTo.pure {post : Value → Reader → Prop} {value : Value} (holds : post value reader) :
    KeepsTo result (pure value) reader post := .returned rfl holds

theorem run_bind_of_ok {first : Reading Value} {value : Value} {next : Reader}
    (run : first.run reader = some (.ok (value, next))) (rest : Value → Reading Other) :
    (first >>= rest).run reader = (rest value).run next := by
  change (first.run reader).bind _ = _
  rw [run]
  rfl

theorem run_bind_of_error {first : Reading Value} {diagnostic : Diagnostic}
    (run : first.run reader = some (.error diagnostic)) (rest : Value → Reading Other) :
    (first >>= rest).run reader = some (.error diagnostic) := by
  change (first.run reader).bind _ = _
  rw [run]
  rfl

theorem KeepsTo.bind {first : Reading Value} {rest : Value → Reading Other}
    {middle : Value → Reader → Prop} {post : Other → Reader → Prop}
    (begun : KeepsTo result first reader middle)
    (goesOn : ∀ value next, middle value next → KeepsTo result (rest value) next post) :
    KeepsTo result (first >>= rest) reader post := by
  cases begun with
  | refused run failed => exact .refused (run_bind_of_error run rest) failed
  | returned run holds =>
      cases goesOn _ _ holds with
      | refused later failed => exact .refused ((run_bind_of_ok run rest).trans later) failed
      | returned later holds => exact .returned ((run_bind_of_ok run rest).trans later) holds

theorem KeepsTo.mono {reading : Reading Value} {strong weak : Value → Reader → Prop}
    (keepsTo : KeepsTo result reading reader strong)
    (implied : ∀ value next, strong value next → weak value next) :
    KeepsTo result reading reader weak := by
  cases keepsTo with
  | returned run holds => exact .returned run (implied _ _ holds)
  | refused run failed => exact .refused run failed

theorem KeepsTo.ofStep {step : Reader → Option (Value × Reader)} {post : Value → Reader → Prop}
    {value : Value} {next : Reader} (answered : step reader = some (value, next))
    (holds : post value next) : KeepsTo result (ofStep step) reader post := by
  refine .returned ?_ holds
  change (step reader).map Except.ok = _
  rw [answered]
  rfl

theorem KeepsTo.ask {answer : Reader → Option Value} {value : Value}
    (answered : answer reader = some value) :
    KeepsTo result (ask answer) reader fun other next => other = value ∧ next = reader := by
  refine .ofStep ?_ ⟨rfl, rfl⟩
  rw [answered]
  rfl

theorem KeepsTo.failAt {span : Span} {message : String} {post : Value → Reader → Prop}
    {error : SyntaxError Span} (failed : result = .error error)
    (shown : error.diagnostic = ⟨span, message⟩) :
    KeepsTo result (failAt span message) reader post := by
  refine .refused ?_ failed
  rw [shown]
  rfl

/-- A loop keeps to a result if each of its rounds does, and if fewer lexemes are left after a round
that does not end it. -/
theorem KeepsTo.loop {round : Step → Reading (Step ⊕ Result)} {post : Result → Reader → Prop}
    (invariant : List (Lexeme Span) → Step → Reader → Prop)
    (nonempty : ∀ lexemes step reader, invariant lexemes step reader → lexemes ≠ [])
    (kept : ∀ lexemes step reader, invariant lexemes step reader →
      KeepsTo result (round step) reader fun outcome next =>
        match outcome with
        | .inl step => ∃ later, later.length < lexemes.length ∧ invariant later step next
        | .inr value => post value next)
    {rounds : Nat} {lexemes : List (Lexeme Span)} (enough : lexemes.length ≤ rounds) {step : Step}
    (holds : invariant lexemes step reader) :
    KeepsTo result (loop round rounds step) reader post := by
  induction rounds generalizing lexemes step reader with
  | zero =>
      have none : lexemes = [] := List.eq_nil_of_length_eq_zero (Nat.le_zero.1 enough)
      exact absurd none (nonempty lexemes step reader holds)
  | succ rounds inductionHypothesis =>
      apply KeepsTo.bind (kept lexemes step reader holds)
      rintro (step | value) next outcome
      · obtain ⟨later, fewer, holds⟩ := outcome
        exact inductionHypothesis (by omega) holds
      · exact .pure outcome

/-! ### Readings of lexemes -/

/-- A reader stands at a draft if the lexemes that it awaits lead from there to the result. Outside
the definitions it may not have taken anything yet. -/
structure At (legacy : Bool) (text : String)
    (result : Except (SyntaxError Span) (Document Span)) (draft : Draft Span)
    (lexemes : List (Lexeme Span)) (reader : Reader) : Prop where
  awaits : reader.Awaits text lexemes
  leadsTo : draft.LeadsTo legacy ⟨0, text.utf8ByteSize⟩ result lexemes
  hasTaken : draft.stage ≠ .outside → reader.hasTaken = true

/-- It looks at a lexeme there if that is the first of them. -/
structure LooksAt (legacy : Bool) (text : String)
    (result : Except (SyntaxError Span) (Document Span)) (draft : Draft Span)
    (lexeme : Lexeme Span) (others : List (Lexeme Span)) (reader : Reader) : Prop
    extends At legacy text result draft (lexeme :: others) reader where
  looks : reader.Looks text lexeme others

variable {draft next : Draft Span} {lexeme : Lexeme Span} {others lexemes : List (Lexeme Span)}

theorem KeepsTo.limit (stands : At legacy text result draft lexemes reader) :
    KeepsTo result limit reader fun rounds next =>
      rounds = text.utf8ByteSize + 1 ∧ next = reader := by
  apply KeepsTo.ask
  rw [stands.awaits.text_eq]

/-- Looking tells the first of the lexemes. -/
theorem KeepsTo.look (stands : At legacy text result draft lexemes reader) :
    KeepsTo result look reader fun cut next => ∃ lexeme others, lexemes = lexeme :: others ∧
      cut = lexeme.cut ∧ LooksAt legacy text result draft lexeme others next := by
  obtain ⟨lexeme, others, next, rfl, looked, same, looks⟩ := stands.awaits.look?
  apply KeepsTo.bind (.limit stands)
  rintro rounds reader ⟨rfl, rfl⟩
  refine .ofStep looked ⟨lexeme, others, rfl, rfl, ⟨looks.awaits, stands.leadsTo, ?_⟩, looks⟩
  rw [same]
  exact stands.hasTaken

/-- Looking again tells the same. -/
theorem KeepsTo.lookAgain (looksAt : LooksAt legacy text result draft lexeme others reader) :
    KeepsTo result Reading.look reader fun cut next => cut = lexeme.cut ∧ next = reader := by
  apply KeepsTo.bind (.limit looksAt.toAt)
  rintro rounds reader ⟨rfl, rfl⟩
  exact .ofStep (looksAt.looks.look? _) ⟨rfl, rfl⟩

/-- A reader has taken the lexeme with which a draft goes on. -/
structure TookAt (legacy : Bool) (text : String)
    (result : Except (SyntaxError Span) (Document Span)) (draft : Draft Span)
    (lexeme : Lexeme Span) (others : List (Lexeme Span)) (reader : Reader) : Prop where
  awaits : reader.Awaits text others
  leadsTo : draft.LeadsTo legacy ⟨0, text.utf8ByteSize⟩ result (lexeme :: others)
  hasTaken : reader.hasTaken = true
  fits : lexeme.FitsText text

/-- A lexeme that has been taken is a step of the draft. -/
theorem TookAt.step (took : TookAt legacy text result draft lexeme others reader)
    (step : Draft.Step legacy lexeme draft next) : At legacy text result next others reader :=
  ⟨took.awaits, took.leadsTo.of_step step, fun _ => took.hasTaken⟩

theorem KeepsTo.take (looksAt : LooksAt legacy text result draft lexeme others reader)
    (inside : lexeme.kind ≠ .ending) :
    KeepsTo result take reader fun cut after => cut = lexeme.cut ∧
      TookAt legacy text result draft lexeme others after := by
  obtain ⟨after, taken, hasTaken, awaits⟩ := looksAt.looks.take inside
  exact .ofStep taken ⟨rfl, awaits, looksAt.leadsTo, hasTaken, looksAt.looks.fits⟩

/-- A lexeme is taken by a step of the draft. -/
theorem KeepsTo.takeStep (looksAt : LooksAt legacy text result draft lexeme others reader)
    (step : Draft.Step legacy lexeme draft next) :
    KeepsTo result Reading.take reader fun cut after => cut = lexeme.cut ∧
      At legacy text result next others after := by
  apply KeepsTo.mono (.take looksAt step.kind_ne_ending)
  rintro cut after ⟨rfl, took⟩
  exact ⟨rfl, took.step step⟩

/-- The text of a lexeme is selected wherever the reader stands. -/
theorem KeepsTo.select (fits : lexeme.FitsText text) (textEq : reader.text = text) :
    KeepsTo result (select lexeme.mark) reader fun part next =>
      part = lexeme.text ∧ next = reader := by
  apply KeepsTo.ask
  rw [textEq]
  exact fits.part

/-- What is said about a lexeme that is not expected is what is said about the error. -/
theorem KeepsTo.unexpected {expectation : Expectation} {post : Value → Reader → Prop}
    (looksAt : LooksAt legacy text result draft lexeme others reader)
    (refused : draft.add legacy lexeme = lexeme.refuse expectation)
    (notEnded : lexeme.kind = .ending → draft.stage ≠ .outside)
    (other : expectation ≠ .objectName) :
    KeepsTo result (unexpected lexeme.cut expectation) reader post := by
  have failed := looksAt.leadsTo.of_refused refused notEnded
  have selected : KeepsTo result (Reading.select lexeme.cut.span) reader fun part next =>
      part = lexeme.text ∧ next = reader := .select looksAt.looks.fits looksAt.awaits.text_eq
  have shown := SyntaxError.diagnostic_expected lexeme other
  unfold Reading.unexpected
  change KeepsTo result (match lexeme.kind with
    | .ending => _
    | .invalid => _
    | .unterminatedString => _
    | _ => _) reader post
  split
  · next kind =>
      refine .failAt failed ?_
      rw [shown, kind]
      rfl
  · next kind =>
      apply KeepsTo.bind selected
      rintro part next ⟨rfl, rfl⟩
      refine .failAt failed ?_
      rw [shown, kind]
      rfl
  · next kind =>
      refine .failAt failed ?_
      rw [shown, kind]
      rfl
  · next noEnding noInvalid noString =>
      apply KeepsTo.bind selected
      rintro part next ⟨rfl, rfl⟩
      refine .failAt failed ?_
      rw [shown]
      split
      · next same => exact absurd same noEnding
      · next same => exact absurd same noInvalid
      · next same => exact absurd same noString
      · rfl

/-- The token that is expected is taken by a step, and any other is refused. -/
theorem KeepsTo.expect {kind : Token.Kind} {expectation : Expectation}
    (stands : At legacy text result draft (lexeme :: others) reader)
    (inside : draft.stage ≠ .outside) (other : expectation ≠ .objectName)
    (step : lexeme.kind = kind → Draft.Step legacy lexeme draft next)
    (refused : lexeme.kind ≠ kind → draft.add legacy lexeme = lexeme.refuse expectation) :
    KeepsTo result (expect kind expectation) reader fun cut after => cut = lexeme.cut ∧
      lexeme.FitsText text ∧ At legacy text result next others after := by
  apply KeepsTo.bind (.look stands)
  rintro cut reader ⟨found, later, same, rfl, looksAt⟩
  obtain ⟨rfl, rfl⟩ := List.cons.inj same
  by_cases isKind : lexeme.kind = kind
  · rw [if_pos (show lexeme.cut.kind = kind from isKind)]
    apply KeepsTo.mono (.takeStep looksAt (step isKind))
    rintro cut after ⟨rfl, stands⟩
    exact ⟨rfl, looksAt.looks.fits, stands⟩
  · rw [if_neg (show ¬ lexeme.cut.kind = kind from isKind)]
    exact .unexpected looksAt (refused isKind) (fun _ => inside) other

end Reading

end StorageSchema
