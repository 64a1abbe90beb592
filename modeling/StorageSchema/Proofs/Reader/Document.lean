/-
This file shows that reading a document by recursive descent always has an answer, and that this is
what comes of its lexemes one after another.
-/
import StorageSchema.Proofs.Reader.TypeExpr
import StorageSchema.Reader.Document

namespace StorageSchema

/-- Between fields only a name or a closing brace may stand. -/
theorem Draft.addInBody_eq_refuse {draft : Draft Span} {opened : OpenDefinition Span}
    {lexeme : Lexeme Span} (noBrace : lexeme.kind ≠ .rightBrace)
    (noWord : lexeme.kind ≠ .identifier) :
    Draft.addInBody draft opened lexeme = lexeme.refuse .fieldName := by
  unfold Draft.addInBody
  split
  · next isBrace => exact absurd isBrace noBrace
  · next isWord => exact absurd isWord noWord
  · rfl

/-- After a complete type only a comma may stand, too. -/
theorem Draft.add_complete {legacy : Bool} {finished : List (Definition Span)}
    {opened : OpenDefinition Span} {label : Label Span} {members : List (TypeExpr Span)}
    {item : TypeExpr Span} {lexeme : Lexeme Span}
    (noBracket : lexeme.kind ≠ .leftBracket) (noBar : lexeme.kind ≠ .bar)
    (noComma : lexeme.kind ≠ .comma) (noBrace : lexeme.kind ≠ .rightBrace)
    (noWord : lexeme.kind ≠ .identifier) :
    Draft.add legacy ⟨finished, .type opened label ⟨members, []⟩ (.complete item)⟩ lexeme =
      lexeme.refuse .fieldName := by
  have refused : TypeDraft.extend ⟨members, []⟩ item lexeme = lexeme.refuse .fieldName :=
    TypeDraft.extend_eq_refuse legacy fun next step => by
      cases step with
      | openBracket isBracket => exact noBracket isBracket
      | bar isBar => exact noBar isBar
  simp only [Draft.add, Draft.addInType]
  split
  · next isComma => exact absurd isComma noComma
  · next isWord => exact absurd isWord noWord
  · next isBrace => exact absurd isBrace noBrace
  · rw [TypeDraft.add, refused]
    rfl

namespace Reading

variable {legacy : Bool} {text : String} {result : Except (SyntaxError Span) (Document Span)}
  {finished : List (Definition Span)} {opened : OpenDefinition Span} {label : Label Span}
  {draft next : Draft Span} {lexeme : Lexeme Span} {others lexemes : List (Lexeme Span)}
  {reader : Reader}

theorem KeepsTo.commentAbove (looksAt : LooksAt legacy text result draft lexeme others reader)
    (inside : lexeme.kind ≠ .ending) :
    KeepsTo result commentAbove reader fun comment next =>
      comment = lexeme.above ∧ next = reader :=
  .ask (looksAt.looks.above inside)

/-- The comment beside what has been taken is that of the next lexeme, unless it is the ending. -/
theorem KeepsTo.commentBeside (stands : At legacy text result draft lexemes reader)
    (inside : draft.stage ≠ .outside) :
    KeepsTo result commentBeside reader fun comment next => ∃ lexeme others,
      lexemes = lexeme :: others ∧ (lexeme.kind ≠ .ending → comment = lexeme.beside) ∧
        LooksAt legacy text result draft lexeme others next := by
  apply KeepsTo.bind (.look stands)
  rintro cut next ⟨lexeme, others, rfl, rfl, looksAt⟩
  obtain ⟨comment, found, same⟩ := looksAt.looks.beside (looksAt.hasTaken inside)
  apply (KeepsTo.ask found).mono
  rintro other after ⟨rfl, rfl⟩
  exact ⟨lexeme, others, rfl, same, looksAt⟩

/-- A token that may be there is taken by a step, and otherwise it is not the next one. -/
theorem KeepsTo.taken? {kind : Token.Kind} {next : Lexeme Span → Draft Span}
    (stands : At legacy text result draft lexemes reader)
    (step : ∀ lexeme : Lexeme Span, lexeme.kind = kind →
      Draft.Step legacy lexeme draft (next lexeme)) :
    KeepsTo result (taken? kind) reader fun found after => ∃ lexeme others,
      lexemes = lexeme :: others ∧
      match found with
      | some cut => cut = lexeme.cut ∧ At legacy text result (next lexeme) others after
      | none => lexeme.kind ≠ kind ∧ LooksAt legacy text result draft lexeme others after := by
  apply KeepsTo.bind (.look stands)
  rintro cut reader ⟨lexeme, others, rfl, rfl, looksAt⟩
  by_cases isKind : lexeme.kind = kind
  · rw [if_pos (show lexeme.cut.kind = kind from isKind)]
    apply KeepsTo.bind (.takeStep looksAt (step lexeme isKind))
    rintro cut after ⟨rfl, stands⟩
    exact .pure ⟨lexeme, others, rfl, rfl, stands⟩
  · rw [if_neg (show ¬ lexeme.cut.kind = kind from isKind)]
    exact .pure ⟨lexeme, others, rfl, isKind, looksAt⟩

/-! ### Fields -/

/-- Between two fields of a definition the next lexeme brings the comment of the last one. -/
inductive AmidFields (legacy : Bool) (text : String)
    (result : Except (SyntaxError Span) (Document Span)) (finished : List (Definition Span))
    (opened : OpenDefinition Span) : List (Lexeme Span) → Reader → Prop where
  | mk {stage : Stage Span} {lexeme : Lexeme Span} {others : List (Lexeme Span)}
      {reader : Reader} : stage ≠ .outside →
      (lexeme.kind ≠ .ending → stage.Between lexeme opened) →
      (lexeme.kind ≠ .rightBrace → lexeme.kind ≠ .identifier →
        Draft.add legacy ⟨finished, stage⟩ lexeme = lexeme.refuse .fieldName) →
      At legacy text result ⟨finished, stage⟩ (lexeme :: others) reader →
      AmidFields legacy text result finished opened (lexeme :: others) reader

/-- The mark of an optional field may stand before the colon. -/
inductive AtColon (legacy : Bool) (text : String)
    (result : Except (SyntaxError Span) (Document Span)) (finished : List (Definition Span))
    (opened : OpenDefinition Span) (label : Label Span) (bound : Nat) :
    Option Cut → Reader → Prop where
  | plain {lexeme : Lexeme Span} {others : List (Lexeme Span)} {reader : Reader} :
      others.length < bound → lexeme.kind ≠ .question →
      At legacy text result ⟨finished, .label opened label⟩ (lexeme :: others) reader →
      AtColon legacy text result finished opened label bound none reader
  | optional {cut : Cut} {lexemes : List (Lexeme Span)} {reader : Reader} :
      lexemes.length < bound →
      At legacy text result ⟨finished, .optionalLabel opened { label with isOptional := true }⟩
        lexemes reader →
      AtColon legacy text result finished opened label bound (some cut) reader

theorem KeepsTo.question
    (stands : At legacy text result ⟨finished, .label opened label⟩ lexemes reader) :
    KeepsTo result (Reading.taken? .question) reader
      (AtColon legacy text result finished opened label lexemes.length) := by
  apply (KeepsTo.taken? stands fun _ isMark => .question isMark).mono
  rintro found next ⟨lexeme, others, rfl, outcome⟩
  cases found with
  | some cut => exact .optional (Nat.lt_succ_self _) outcome.2
  | none => exact .plain (Nat.lt_succ_self _) outcome.1 outcome.2.toAt

theorem KeepsTo.colon {bound : Nat} {question : Option Cut}
    (atColon : AtColon legacy text result finished opened label bound question reader)
    (plain : label.isOptional = false) :
    KeepsTo result (Reading.expect .colon .colon) reader fun _ next =>
      ∃ later, later.length < bound ∧ At legacy text result ⟨finished, .type opened
        { label with isOptional := question.isSome } Surroundings.outermost .empty⟩ later next := by
  cases atColon with
  | @plain lexeme others _ fewer noMark stands =>
      have expected : KeepsTo result (Reading.expect .colon .colon) reader _ :=
        .expect stands (by simp) (by simp) (fun isColon => .colon isColon) fun noColon => by
          simp only [Draft.add]
      apply expected.mono
      rintro cut next ⟨-, -, stands⟩
      obtain ⟨name, isOptional, comment⟩ := label
      obtain rfl : isOptional = false := plain
      exact ⟨others, fewer, stands⟩
  | @optional cut lexemes _ fewer stands =>
      obtain ⟨colon, others, rfl⟩ := stands.awaits.exists_cons
      have expected : KeepsTo result (Reading.expect .colon .colon) reader _ :=
        .expect stands (by simp) (by simp) (fun isColon => .optionalColon isColon)
          fun noColon => if_neg noColon
      apply expected.mono
      rintro cut next ⟨-, -, stands⟩
      exact ⟨others, Nat.lt_of_succ_lt fewer, stands⟩

/-- A field ends with its type or with a comma after it, and it is complete but for the comment
beside it. -/
inductive AtFieldEnd (legacy : Bool) (text : String)
    (result : Except (SyntaxError Span) (Document Span)) (finished : List (Definition Span))
    (opened : OpenDefinition Span) (bound : Nat) (field : Field Span) (reader : Reader) : Prop where
  | type {label : Label Span} {members : List (TypeExpr Span)} {item : TypeExpr Span}
      {lexeme : Lexeme Span} {others : List (Lexeme Span)} : others.length + 1 < bound →
      field = label.field (Surroundings.finish ⟨members, []⟩ item) →
      lexeme.kind ≠ .leftBracket → lexeme.kind ≠ .bar → lexeme.kind ≠ .comma →
      At legacy text result ⟨finished, .type opened label ⟨members, []⟩ (.complete item)⟩
        (lexeme :: others) reader →
      AtFieldEnd legacy text result finished opened bound field reader
  | comma {lexemes : List (Lexeme Span)} : lexemes.length < bound →
      At legacy text result ⟨finished, .comma opened field⟩ lexemes reader →
      AtFieldEnd legacy text result finished opened bound field reader

theorem KeepsTo.comma {bound : Nat} {type : TypeExpr Span}
    (after : AfterType legacy text result finished opened label [] bound type reader) :
    KeepsTo result (Reading.taken? .comma) reader fun comma next =>
      AtFieldEnd legacy text result finished opened bound
        { label.field type with
          mark := match comma with
            | some comma => label.name.mark ∪ type.mark ∪ comma.span
            | none => label.name.mark ∪ type.mark } next := by
  obtain @⟨members, item, lexeme, others, rfl, shorter, noBracket, noBar, looksAt⟩ := after
  apply (KeepsTo.taken? looksAt.toAt fun _ isComma => .comma isComma).mono
  rintro found next ⟨same, rest, divided, outcome⟩
  obtain ⟨rfl, rfl⟩ := List.cons.inj divided
  cases found with
  | some cut =>
      obtain ⟨rfl, stands⟩ := outcome
      exact .comma (Nat.lt_of_succ_lt shorter) stands
  | none => exact .type shorter rfl noBracket noBar outcome.1 outcome.2.toAt

theorem KeepsTo.fieldEnd {bound : Nat} {field : Field Span}
    (atEnd : AtFieldEnd legacy text result finished opened bound field reader) :
    KeepsTo result Reading.commentBeside reader fun comment next => ∃ rest, rest.length < bound ∧
      AmidFields legacy text result finished
        { opened with fields := { field with trailingComment := comment } :: opened.fields }
        rest next := by
  cases atEnd with
  | @type label members item lexeme others shorter same noBracket noBar noComma stands =>
      apply (KeepsTo.commentBeside stands (by simp)).mono
      rintro comment next ⟨_, _, divided, beside, looksAt⟩
      obtain ⟨rfl, rfl⟩ := List.cons.inj divided
      refine ⟨lexeme :: others, shorter, .mk (by simp) ?_ ?_ looksAt.toAt⟩
      · intro inside
        rw [beside inside, same]
        exact .type
      · exact Draft.add_complete noBracket noBar noComma
  | comma shorter stands =>
      apply (KeepsTo.commentBeside stands (by simp)).mono
      rintro comment next ⟨lexeme, others, rfl, beside, looksAt⟩
      refine ⟨_, shorter, .mk (by simp) ?_ ?_ looksAt.toAt⟩
      · intro inside
        rw [beside inside]
        exact .comma
      · exact Draft.addInBody_eq_refuse

/-- A field is read to its end, with the comment that the next lexeme brings. -/
theorem KeepsTo.field {stage : Stage Span} (between : stage.Between lexeme opened)
    (isWord : lexeme.kind = .identifier)
    (looksAt : LooksAt legacy text result ⟨finished, stage⟩ lexeme others reader) :
    KeepsTo result (field legacy) reader fun field next => ∃ later,
      later.length < others.length + 1 ∧ AmidFields legacy text result finished
        { opened with fields := field :: opened.fields } later next := by
  have inside : lexeme.kind ≠ .ending := by
    rw [isWord]
    decide
  have textEq := looksAt.awaits.text_eq
  apply KeepsTo.bind (.commentAbove looksAt inside)
  rintro above reader ⟨rfl, rfl⟩
  apply KeepsTo.bind (.takeStep looksAt (.fieldName isWord between))
  rintro cut reader ⟨rfl, stands⟩
  apply KeepsTo.bind (.select looksAt.looks.fits stands.awaits.text_eq)
  rintro name reader ⟨rfl, rfl⟩
  apply KeepsTo.bind (.question stands)
  intro question reader atColon
  apply KeepsTo.bind (.colon atColon rfl)
  rintro _ reader ⟨later, fewer, stands⟩
  apply KeepsTo.bind (.limit stands)
  rintro depth reader ⟨rfl, rfl⟩
  apply KeepsTo.bind (KeepsTo.type _ _ _ _ _ _ _ stands.awaits.length_le stands)
  rintro type reader after
  have shorter {next : Reader} {opened' : OpenDefinition Span} : (∃ rest,
      rest.length < later.length ∧ AmidFields legacy text result finished opened' rest next) →
      ∃ rest, rest.length < others.length + 1 ∧
        AmidFields legacy text result finished opened' rest next := by
    rintro ⟨rest, less, amid⟩
    exact ⟨rest, by omega, amid⟩
  apply KeepsTo.bind (.comma after)
  intro comma reader atEnd
  apply KeepsTo.bind (.fieldEnd atEnd)
  rintro comment next amid
  exact .pure (shorter amid)

/-- A round reads one more field, or takes the brace after the last one. -/
theorem KeepsTo.fields {keyword : Span} {name : Name Span} {comment : Option String}
    {read : List (Field Span)}
    (amid : AmidFields legacy text result finished ⟨keyword, name, comment, read⟩ lexemes reader) :
    KeepsTo result (fields legacy read) reader fun outcome next =>
      match outcome with
      | .inl more => ∃ later, later.length < lexemes.length ∧
          AmidFields legacy text result finished ⟨keyword, name, comment, more⟩ later next
      | .inr (all, close) => ∃ later, later.length < lexemes.length ∧ At legacy text result
          ⟨⟨keyword ∪ close.span, name, all, comment⟩ :: finished, .outside⟩ later next := by
  cases amid with
  | @mk stage first rest _ inside between refused stands =>
      apply KeepsTo.bind (.look stands)
      rintro cut reader ⟨lexeme, others, divided, rfl, looksAt⟩
      obtain ⟨rfl, rfl⟩ := List.cons.inj divided
      split
      · next isBrace =>
          have solid : first.kind ≠ .ending := by
            rw [show first.kind = .rightBrace from isBrace]
            decide
          apply KeepsTo.bind (.takeStep looksAt (.closeBrace isBrace (between solid)))
          rintro cut reader ⟨rfl, stands⟩
          exact .pure ⟨rest, Nat.lt_succ_self _, stands⟩
      · next isWord =>
          have solid : first.kind ≠ .ending := by
            rw [show first.kind = .identifier from isWord]
            decide
          apply KeepsTo.bind (.field (between solid) isWord looksAt)
          rintro field next after
          exact .pure after
      · next noBrace noWord =>
          exact .unexpected looksAt (refused noBrace noWord) (fun _ => inside) (by simp)

/-- The body of a definition is read to its brace. -/
theorem KeepsTo.body {keyword : Span} {name : Name Span} {comment : Option String}
    {read : List (Field Span)} {rounds : Nat}
    (amid : AmidFields legacy text result finished ⟨keyword, name, comment, read⟩ lexemes reader)
    (enough : lexemes.length ≤ rounds) :
    KeepsTo result (Reading.loop (Reading.fields legacy) rounds read) reader fun body next =>
      ∃ later, later.length < lexemes.length ∧ At legacy text result
        ⟨⟨keyword ∪ body.2.span, name, body.1, comment⟩ :: finished, .outside⟩ later next := by
  refine .loop (fun later read reader => later.length ≤ lexemes.length ∧
    AmidFields legacy text result finished ⟨keyword, name, comment, read⟩ later reader) ?_ ?_
    enough ⟨Nat.le_refl _, amid⟩
  · rintro _ _ _ ⟨-, ⟨-⟩⟩
    exact List.cons_ne_nil _ _
  · rintro later read reader ⟨less, amid⟩
    apply (KeepsTo.fields amid).mono
    rintro (more | ⟨all, close⟩) next ⟨rest, fewer, after⟩
    · exact ⟨rest, fewer, by omega, after⟩
    · exact ⟨rest, by omega, after⟩

/-! ### Definitions -/

theorem KeepsTo.definition (isWord : lexeme.kind = .identifier) (isKeyword : lexeme.text = "type")
    (looksAt : LooksAt legacy text result ⟨finished, .outside⟩ lexeme others reader) :
    KeepsTo result (definition legacy) reader fun definition next => ∃ later,
      later.length < others.length ∧
        At legacy text result ⟨definition :: finished, .outside⟩ later next := by
  have inside : lexeme.kind ≠ .ending := by
    rw [isWord]
    decide
  apply KeepsTo.bind (.commentAbove looksAt inside)
  rintro above reader ⟨rfl, rfl⟩
  apply KeepsTo.bind (.takeStep looksAt (.keyword isWord isKeyword))
  rintro cut reader ⟨rfl, stands⟩
  obtain ⟨name, afterName, rfl⟩ := stands.awaits.exists_cons
  have named : KeepsTo result (Reading.expect .identifier .typeName) reader _ :=
    .expect stands (by simp) (by simp) (fun isName => .typeName isName) fun noName => if_neg noName
  apply KeepsTo.bind named
  rintro cut reader ⟨rfl, fits, stands⟩
  apply KeepsTo.bind (.select fits stands.awaits.text_eq)
  rintro part reader ⟨rfl, rfl⟩
  obtain ⟨brace, afterBrace, rfl⟩ := stands.awaits.exists_cons
  have opens : KeepsTo result (Reading.expect .leftBrace .openingBrace) reader _ :=
    .expect stands (by simp) (by simp) (fun isBrace => .openBrace isBrace)
      fun noBrace => if_neg noBrace
  apply KeepsTo.bind opens
  rintro cut reader ⟨rfl, -, stands⟩
  apply KeepsTo.bind (.limit stands)
  rintro rounds reader ⟨rfl, rfl⟩
  obtain ⟨first, rest, rfl⟩ := stands.awaits.exists_cons
  have begun : AmidFields legacy text result finished ⟨lexeme.mark, ⟨name.mark, name.text⟩,
      lexeme.above, []⟩ (first :: rest) reader :=
    .mk (by simp) (fun _ => .body) Draft.addInBody_eq_refuse stands
  apply KeepsTo.bind (.body begun stands.awaits.length_le)
  rintro ⟨all, close⟩ reader ⟨later, fewer, stands⟩
  refine .pure ⟨later, ?_, stands⟩
  simp only [List.length_cons] at fewer ⊢
  omega

theorem KeepsTo.definitions {read : List (Definition Span)}
    (stands : At legacy text result ⟨read, .outside⟩ lexemes reader) :
    KeepsTo result (definitions legacy read) reader fun outcome next =>
      match outcome with
      | .inl more => ∃ later, later.length < lexemes.length ∧
          At legacy text result ⟨more, .outside⟩ later next
      | .inr all => result = .ok ⟨⟨0, text.utf8ByteSize⟩, all⟩ ∧ next.text = text := by
  apply KeepsTo.bind (.look stands)
  rintro cut reader ⟨lexeme, others, rfl, rfl, looksAt⟩
  have refused (other : ¬ (lexeme.kind = .identifier ∧ lexeme.text = "type")) :
      Draft.add legacy ⟨read, .outside⟩ lexeme = lexeme.refuse .definition := if_neg other
  split
  · next isEnding =>
      exact .pure ⟨looksAt.leadsTo.of_ending isEnding, looksAt.awaits.text_eq⟩
  · next isWord =>
      apply KeepsTo.bind (.select looksAt.looks.fits looksAt.awaits.text_eq)
      rintro part reader ⟨rfl, rfl⟩
      by_cases isKeyword : lexeme.text = "type"
      · rw [if_pos isKeyword]
        apply KeepsTo.bind (.definition isWord isKeyword looksAt)
        rintro definition next ⟨later, fewer, stands⟩
        exact .pure ⟨later, Nat.lt_succ_of_lt fewer, stands⟩
      · rw [if_neg isKeyword]
        have inside : lexeme.kind ≠ .ending := by
          rw [show lexeme.kind = .identifier from isWord]
          decide
        exact .unexpected looksAt (refused fun both => isKeyword both.2)
          (fun isEnding => absurd isEnding inside) (by simp)
  · next noEnding noWord =>
      exact .unexpected looksAt (refused fun both => noWord both.1)
        (fun isEnding => absurd isEnding noEnding) (by simp)

theorem KeepsTo.document (stands : At legacy text result Draft.empty lexemes reader) :
    KeepsTo result (document legacy) reader fun document _ => result = .ok document := by
  apply KeepsTo.bind (.limit stands)
  rintro rounds reader ⟨rfl, rfl⟩
  have looped : KeepsTo result
      (Reading.loop (Reading.definitions legacy) (text.utf8ByteSize + 1) []) reader
      fun all next => result = .ok ⟨⟨0, text.utf8ByteSize⟩, all⟩ ∧ next.text = text := by
    refine .loop (fun later read reader => At legacy text result ⟨read, .outside⟩ later reader)
      ?_ ?_ stands.awaits.length_le stands
    · intro later read reader stands
      exact stands.awaits.ne_nil
    · intro later read reader stands
      apply (KeepsTo.definitions stands).mono
      rintro (more | all) next outcome <;> exact outcome
  apply KeepsTo.bind looped
  rintro all reader ⟨accepted, textEq⟩
  apply KeepsTo.bind (.ask rfl)
  rintro _ reader ⟨rfl, rfl⟩
  rw [textEq]
  exact .pure accepted

end Reading

/-- Reading a text token by token always has an answer. It is the document of the text, or else the
diagnostic of its first error. -/
theorem Document.read?_eq (legacy : Bool) (text : String) :
    Document.read? legacy text =
      some ((Document.ofText legacy text).mapError SyntaxError.diagnostic) := by
  have leadsTo : Draft.empty.LeadsTo legacy ⟨0, text.utf8ByteSize⟩ (Document.ofText legacy text)
      (Lexeme.ofText text ++ [Lexeme.endOf text]) :=
    Draft.leadsTo_addAll (fun _ present => Lexeme.kind_ne_ending present) rfl
  have stands : Reading.At legacy text (Document.ofText legacy text) Draft.empty
      (Lexeme.ofText text ++ [Lexeme.endOf text]) (Reader.ofText text) :=
    ⟨Reader.awaits_ofText text, leadsTo, fun inside => absurd rfl inside⟩
  unfold Document.read?
  cases Reading.KeepsTo.document stands with
  | returned run accepted =>
      rw [run, accepted]
      rfl
  | refused run failed =>
      rw [run, failed]
      rfl

/-- A review reads the document of its text, or else it fails with the first error. -/
theorem Review.read_eq_ofText (review : Review) (legacy : Bool) :
    review.read legacy =
      match Document.ofText legacy review.text with
      | .ok document => (.ok document, review)
      | .error error => (review.note error.diagnostic).stop := by
  rw [Review.read, Document.read?_eq]
  cases Document.ofText legacy review.text <;> rfl

theorem Review.read_eq_ok_iff {text : String} {legacy : Bool} {document : Document Span} :
    ((Review.ofText text).read legacy).1 = .ok document ↔
      Document.ofText legacy text = .ok document := by
  rw [Review.read_eq_ofText, Review.ofText]
  cases Document.ofText legacy text <;> simp [Review.stop]

/-- A text that cannot be read fails with its only error. -/
theorem Review.exists_failure {text : String} {legacy : Bool} {error : SyntaxError Span}
    (refused : Document.ofText legacy text = .error error) :
    ∃ failure, ((Review.ofText text).read legacy).1 = .error failure ∧
      failure.diagnostics = [error.diagnostic] := by
  rw [Review.read_eq_ofText, Review.ofText, refused]
  exact ⟨_, rfl, rfl⟩

theorem Review.exists_error {text : String} {legacy : Bool} {failure : Failure}
    (failed : ((Review.ofText text).read legacy).1 = .error failure) :
    ∃ error, Document.ofText legacy text = .error error ∧
      failure.diagnostics = [error.diagnostic] := by
  cases read : Document.ofText legacy text with
  | ok document =>
      rw [Review.read_eq_ok_iff.2 read] at failed
      cases failed
  | error error =>
      obtain ⟨other, found, shown⟩ := Review.exists_failure read
      rw [failed] at found
      exact ⟨error, rfl, Except.error.inj found ▸ shown⟩

end StorageSchema
