/-
This file shows that the reading of type expressions by recursive descent keeps to their drafts.
-/
import StorageSchema.Proofs.Reader.Rules
import StorageSchema.Proofs.Word

namespace StorageSchema

/-! ### Words -/

/-- The names of objects are the words that mean nothing else. -/
theorem isObjectName_iff (text : String) :
    isObjectName text = true ↔ Word.ofText text = .name := by
  rw [Word.ofText_eq_iff, Word.IsSpelling, IsTypeName, isObjectName,
    ← Scalar.ofLegacyKeyword?_eq_none_iff]
  simp

theorem Scalar.ofKeyword?_eq_none_of_ofText {text : String}
    (other : ∀ kind, Word.ofText text ≠ .scalar kind) : Scalar.ofKeyword? text = none := by
  rw [Option.eq_none_iff_forall_ne_some]
  intro kind recognised
  exact other kind (Word.ofText_eq_iff.2 (Scalar.ofKeyword?_eq_some_iff.1 recognised))

/-! ### Steps of a type -/

theorem TypeDraft.ofLexeme_eq_refuse {Mark : Type} {legacy : Bool} {lexeme : Lexeme Mark}
    (noString : lexeme.kind ≠ .string) (noNumber : lexeme.kind ≠ .number)
    (noWord : lexeme.kind ≠ .identifier) :
    TypeDraft.ofLexeme legacy lexeme = lexeme.refuse .type := by
  unfold TypeDraft.ofLexeme
  split
  · next isString => exact absurd isString noString
  · next isNumber => exact absurd isNumber noNumber
  · next isWord => exact absurd isWord noWord
  · rfl

section Steps

variable {Mark : Type} [Union Mark] {legacy : Bool} {lexeme : Lexeme Mark}
  {finished : List (Definition Mark)} {opened : OpenDefinition Mark} {label : Label Mark}
  {around : Surroundings Mark} {typeDraft : TypeDraft Mark}

theorem Draft.Step.inType {next : Surroundings Mark × TypeDraft Mark}
    (step : TypeDraft.Step legacy lexeme (around, typeDraft) next) :
    Draft.Step legacy lexeme ⟨finished, .type opened label around typeDraft⟩
      ⟨finished, .type opened label next.1 next.2⟩ := .type step

/-- What a type refuses is refused inside its field, unless the field may end there. -/
theorem Draft.add_inType {error : SyntaxError Mark}
    (refused : typeDraft.add legacy around lexeme = .error error)
    (solid : ∀ item, typeDraft = .complete item → around.layers ≠ []) :
    Draft.add legacy ⟨finished, .type opened label around typeDraft⟩ lexeme = .error error := by
  simp only [Draft.add, Draft.addInType]
  split
  · next complete layers _ => exact absurd layers (solid _ rfl)
  · next complete layers _ => exact absurd layers (solid _ rfl)
  · next complete layers _ => exact absurd layers (solid _ rfl)
  · rw [refused]
    rfl

/-- What is no step after a complete item is refused for the sake of what may follow the item. -/
theorem TypeDraft.extend_eq_refuse (legacy : Bool) {item : TypeExpr Mark}
    (noStep : ∀ next, ¬ TypeDraft.Step legacy lexeme (around, .complete item) next) :
    TypeDraft.extend around item lexeme = lexeme.refuse around.expectation := by
  cases extended : TypeDraft.extend around item lexeme with
  | ok next => exact absurd (.of_extend extended) (noStep next)
  | error error =>
      unfold TypeDraft.extend at extended
      split at extended <;> cases extended
      rfl

end Steps

theorem Span.union_self (span : Span) : span ∪ span = span := by
  rw [Span.union_def, Span.union, Nat.min_self, Nat.max_self]
  split <;> simp_all

namespace Reading

variable {legacy : Bool} {text : String} {result : Except (SyntaxError Span) (Document Span)}
  {finished : List (Definition Span)} {opened : OpenDefinition Span} {label : Label Span}
  {around : Surroundings Span} {lexeme : Lexeme Span} {others lexemes : List (Lexeme Span)}
  {reader : Reader}

/-! ### Literals and names -/

theorem KeepsTo.string (took : TookAt legacy text result
      ⟨finished, .type opened label around .empty⟩ lexeme others reader)
    (isString : lexeme.kind = .string) :
    KeepsTo result (string lexeme.mark) reader fun type next => At legacy text result
      ⟨finished, .type opened label around (.complete type)⟩ others next := by
  apply KeepsTo.bind (.select took.fits took.awaits.text_eq)
  rintro part reader ⟨rfl, rfl⟩
  apply KeepsTo.bind (.ask (took.fits.quoted isString))
  rintro value reader ⟨rfl, rfl⟩
  exact .pure (took.step (.inType (.string isString)))

theorem KeepsTo.number (took : TookAt legacy text result
      ⟨finished, .type opened label around .empty⟩ lexeme others reader)
    (isNumber : lexeme.kind = .number) :
    KeepsTo result (number lexeme.mark) reader fun type next => At legacy text result
      ⟨finished, .type opened label around (.complete type)⟩ others next := by
  apply KeepsTo.bind (.select took.fits took.awaits.text_eq)
  rintro part reader ⟨rfl, rfl⟩
  rw [took.fits.numeral isNumber]
  exact .pure (took.step (.inType (.number isNumber)))

theorem KeepsTo.named (took : TookAt legacy text result
      ⟨finished, .type opened label around .empty⟩ lexeme others reader)
    (isWord : lexeme.kind = .identifier)
    (plain : lexeme.text ∉ ["true", "false", "LiveObject", "LiveList", "LiveMap"]) :
    KeepsTo result (named legacy lexeme.mark lexeme.text) reader fun type next =>
      At legacy text result ⟨finished, .type opened label around (.complete type)⟩ others next := by
  unfold Reading.named
  cases means : Word.ofText lexeme.text with
  | boolean value =>
      obtain spelled : lexeme.text = if value then "true" else "false" := Word.ofText_eq_iff.1 means
      cases value <;> simp [spelled] at plain
  | wrapper kind =>
      obtain spelled : lexeme.text = kind.keyword := Word.ofText_eq_iff.1 means
      cases kind <;> simp [spelled, Wrapper.keyword] at plain
  | scalar kind =>
      obtain spelled : lexeme.text = kind.keyword := Word.ofText_eq_iff.1 means
      rw [Scalar.ofKeyword?_eq_some_iff.2 spelled]
      exact .pure (took.step (.inType (.scalar isWord (.inl means))))
  | legacyScalar kind =>
      have noKeyword : Scalar.ofKeyword? lexeme.text = none :=
        Scalar.ofKeyword?_eq_none_of_ofText (by simp [means])
      have spelled : lowercase lexeme.text ∈ kind.spellings := (Word.ofText_eq_iff.1 means).1
      rw [noKeyword, Scalar.ofLegacyKeyword?_eq_some_iff.2 spelled]
      cases legacy with
      | true => exact .pure (took.step (.inType (.scalar isWord (.inr ⟨rfl, means⟩))))
      | false =>
          have refused : TypeDraft.add false around .empty lexeme =
              .error ⟨lexeme, .legacyScalar kind⟩ := by
            simp [TypeDraft.add, TypeDraft.ofLexeme, TypeDraft.ofWord, isWord, means, Except.map]
          refine .failAt (took.leadsTo.of_refused (Draft.add_inType refused (by simp)) ?_) rfl
          simp
  | name =>
      have noKeyword : Scalar.ofKeyword? lexeme.text = none :=
        Scalar.ofKeyword?_eq_none_of_ofText (by simp [means])
      have isName : IsTypeName lexeme.text := Word.ofText_eq_iff.1 means
      rw [noKeyword, Scalar.ofLegacyKeyword?_eq_none_iff.2 isName.1]
      exact .pure (took.step (.inType (.reference isWord means)))

/-! ### Wrappers -/

/-- An item has been read that leaves fewer lexemes than before. -/
def AfterItem (legacy : Bool) (text : String)
    (result : Except (SyntaxError Span) (Document Span)) (finished : List (Definition Span))
    (opened : OpenDefinition Span) (label : Label Span) (around : Surroundings Span)
    (bound : Nat) (item : TypeExpr Span) (next : Reader) : Prop :=
  ∃ later, later.length < bound ∧ At legacy text result
    ⟨finished, .type opened label around (.complete item)⟩ later next

theorem AfterItem.of_at {item : TypeExpr Span} (stands : At legacy text result
    ⟨finished, .type opened label around (.complete item)⟩ others reader) :
    AfterItem legacy text result finished opened label around (others.length + 1) item reader :=
  ⟨others, Nat.lt_succ_self _, stands⟩

theorem AfterItem.weaken {bound : Nat} {item : TypeExpr Span}
    (after : AfterItem legacy text result finished opened label around bound item reader) :
    AfterItem legacy text result finished opened label around (bound + 1) item reader := by
  obtain ⟨later, less, stands⟩ := after
  exact ⟨later, Nat.lt_succ_of_lt less, stands⟩

/-- A type has been read with its union, and nothing goes on with it. -/
inductive AfterType (legacy : Bool) (text : String)
    (result : Except (SyntaxError Span) (Document Span)) (finished : List (Definition Span))
    (opened : OpenDefinition Span) (label : Label Span) (layers : List (Layer Span))
    (bound : Nat) (type : TypeExpr Span) (next : Reader) : Prop where
  | mk {members : List (TypeExpr Span)} {item : TypeExpr Span} {lexeme : Lexeme Span}
      {others : List (Lexeme Span)} : Surroundings.finish ⟨members, layers⟩ item = type →
      others.length + 1 < bound → lexeme.kind ≠ .leftBracket → lexeme.kind ≠ .bar →
      LooksAt legacy text result
        ⟨finished, .type opened label ⟨members, layers⟩ (.complete item)⟩ lexeme others next →
      AfterType legacy text result finished opened label layers bound type next

/-- A reading reads types if it does so wherever a type begins, with this many lexemes at most. -/
def ReadsTypes (legacy : Bool) (text : String)
    (result : Except (SyntaxError Span) (Document Span)) (bound : Nat)
    (inner : Reading (TypeExpr Span)) : Prop :=
  ∀ finished opened label layers lexemes reader, lexemes.length ≤ bound →
    At legacy text result ⟨finished, .type opened label ⟨[], layers⟩ .empty⟩ lexemes reader →
    KeepsTo result inner reader
      (AfterType legacy text result finished opened label layers lexemes.length)

/-- The token that is expected inside a type is taken by a step of the type. -/
theorem KeepsTo.expectInType {kind : Token.Kind} {expectation : Expectation}
    {typeDraft : TypeDraft Span} {next : Surroundings Span × TypeDraft Span}
    (stands : At legacy text result ⟨finished, .type opened label around typeDraft⟩
      (lexeme :: others) reader)
    (solid : ∀ item, typeDraft = .complete item → around.layers ≠ [])
    (other : expectation ≠ .objectName)
    (step : lexeme.kind = kind → TypeDraft.Step legacy lexeme (around, typeDraft) next)
    (refused : lexeme.kind ≠ kind →
      typeDraft.add legacy around lexeme = lexeme.refuse expectation) :
    KeepsTo result (Reading.expect kind expectation) reader fun cut after => cut = lexeme.cut ∧
      At legacy text result ⟨finished, .type opened label next.1 next.2⟩ others after := by
  have expected : KeepsTo result (Reading.expect kind expectation) reader _ :=
    .expect stands (by simp) other (fun isKind => .inType (step isKind)) fun isOther =>
      Draft.add_inType (refused isOther) solid
  apply expected.mono
  rintro cut after ⟨rfl, -, stands⟩
  exact ⟨rfl, stands⟩

theorem KeepsTo.openAngle {keyword : Span} {wrapper : Wrapper}
    (stands : At legacy text result
      ⟨finished, .type opened label around (.wrapper keyword wrapper)⟩ (lexeme :: others) reader) :
    KeepsTo result (Reading.expect .lessThan (.openingAngle wrapper)) reader fun _ after =>
      At legacy text result ⟨finished, .type opened label
        (TypeDraft.openWrapper around keyword wrapper).1
        (TypeDraft.openWrapper around keyword wrapper).2⟩ others after := by
  have expected : KeepsTo result (Reading.expect .lessThan (.openingAngle wrapper)) reader _ :=
    .expectInType stands (by simp) (by simp) (fun isAngle => .openAngle isAngle) fun noAngle => by
      simp [TypeDraft.add, noAngle]
  apply expected.mono
  rintro cut after ⟨-, stands⟩
  exact stands

theorem KeepsTo.namesObject {draft : Draft Span}
    (looksAt : LooksAt legacy text result draft lexeme others reader) :
    KeepsTo result (namesObject lexeme.cut) reader fun isName next => next = reader ∧
      (isName = true ↔ lexeme.kind = .identifier ∧ Word.ofText lexeme.text = .name) := by
  unfold Reading.namesObject
  by_cases isWord : lexeme.kind = .identifier
  · rw [if_pos (show lexeme.cut.kind = .identifier from isWord)]
    apply KeepsTo.bind (.select looksAt.looks.fits looksAt.awaits.text_eq)
    rintro part next ⟨rfl, rfl⟩
    refine .pure ⟨rfl, ?_⟩
    rw [isObjectName_iff]
    simp [isWord]
  · rw [if_neg (show ¬ lexeme.cut.kind = .identifier from isWord)]
    refine .pure ⟨rfl, ?_⟩
    simp [isWord]

theorem KeepsTo.liveObject {keyword : Span}
    (stands : At legacy text result
      ⟨finished, .type opened label around (.wrapper keyword .liveObject)⟩ lexemes reader) :
    KeepsTo result (liveObject keyword) reader
      (AfterItem legacy text result finished opened label around lexemes.length) := by
  obtain ⟨angle, afterAngle, rfl⟩ := stands.awaits.exists_cons
  apply KeepsTo.bind (.openAngle stands)
  intro _ reader stands
  change At legacy text result ⟨finished, .type opened label around (.object keyword)⟩ _ reader
    at stands
  apply KeepsTo.bind (.look stands)
  rintro cut reader ⟨lexeme, others, rfl, rfl, looksAt⟩
  apply KeepsTo.bind (.namesObject looksAt)
  rintro isName next ⟨rfl, means⟩
  by_cases named : isName = true
  · rw [if_pos named]
    obtain ⟨isWord, isOwn⟩ := means.1 named
    apply KeepsTo.bind (.takeStep looksAt (.inType (.objectName isWord isOwn)))
    rintro cut after ⟨rfl, stands⟩
    obtain ⟨close, later, rfl⟩ := stands.awaits.exists_cons
    have closes : KeepsTo result (Reading.expect .greaterThan .closingAngle) after _ :=
      .expectInType stands (by simp) (by simp) (fun isAngle => .closeObject isAngle)
        fun noAngle => by simp [TypeDraft.add, noAngle]
    apply KeepsTo.bind closes
    rintro cut after ⟨rfl, stands⟩
    apply KeepsTo.bind (.select looksAt.looks.fits stands.awaits.text_eq)
    rintro part after ⟨rfl, rfl⟩
    refine .pure ⟨later, ?_, stands⟩
    simp only [List.length_cons]
    omega
  · rw [if_neg named]
    have refused : TypeDraft.add legacy around (.object keyword) lexeme =
        lexeme.refuse .objectName := by
      rw [TypeDraft.add, if_neg fun isName => named (means.2 isName)]
    refine .failAt (looksAt.leadsTo.of_refused (Draft.add_inType refused (by simp)) (by simp)) rfl

theorem KeepsTo.liveList {inner : Reading (TypeExpr Span)} {bound : Nat}
    (reads : ReadsTypes legacy text result bound inner) {keyword : Span}
    (enough : lexemes.length ≤ bound + 1)
    (stands : At legacy text result
      ⟨finished, .type opened label around (.wrapper keyword .liveList)⟩ lexemes reader) :
    KeepsTo result (liveList inner keyword) reader
      (AfterItem legacy text result finished opened label around lexemes.length) := by
  obtain ⟨angle, afterAngle, rfl⟩ := stands.awaits.exists_cons
  apply KeepsTo.bind (.openAngle stands)
  intro _ reader stands
  apply KeepsTo.bind (reads _ _ _ _ _ _ (Nat.le_of_succ_le_succ enough) stands)
  rintro item reader ⟨finish, less, noBracket, noBar, looksAt⟩
  have closes : KeepsTo result (Reading.expect .greaterThan .closingAngle) reader _ :=
    .expectInType looksAt.toAt (by simp) (by simp) (fun isAngle => .closeList isAngle)
      fun noAngle => TypeDraft.extend_eq_refuse legacy fun next step => by
        cases step with
        | openBracket isBracket => exact noBracket isBracket
        | bar isBar => exact noBar isBar
        | closeList isAngle => exact noAngle isAngle
  apply KeepsTo.bind closes
  rintro cut after ⟨rfl, stands⟩
  rw [finish] at stands
  refine .pure ⟨_, ?_, stands⟩
  simp only [List.length_cons]
  omega

theorem KeepsTo.liveMap {inner : Reading (TypeExpr Span)} {bound : Nat}
    (reads : ReadsTypes legacy text result bound inner) {keyword : Span}
    (enough : lexemes.length ≤ bound + 1)
    (stands : At legacy text result
      ⟨finished, .type opened label around (.wrapper keyword .liveMap)⟩ lexemes reader) :
    KeepsTo result (liveMap inner keyword) reader
      (AfterItem legacy text result finished opened label around lexemes.length) := by
  obtain ⟨angle, afterAngle, rfl⟩ := stands.awaits.exists_cons
  have fewer : afterAngle.length ≤ bound := Nat.le_of_succ_le_succ enough
  apply KeepsTo.bind (.openAngle stands)
  intro _ reader stands
  apply KeepsTo.bind (reads _ _ _ _ _ _ fewer stands)
  rintro key reader ⟨keyFinish, keyLess, noBracket, noBar, looksAt⟩
  have divides : KeepsTo result (Reading.expect .comma .comma) reader _ :=
    .expectInType looksAt.toAt (by simp) (by simp) (fun isComma => .comma isComma)
      fun noComma => TypeDraft.extend_eq_refuse legacy fun next step => by
        cases step with
        | openBracket isBracket => exact noBracket isBracket
        | bar isBar => exact noBar isBar
        | comma isComma => exact noComma isComma
  apply KeepsTo.bind divides
  rintro cut reader ⟨rfl, stands⟩
  rw [keyFinish] at stands
  apply KeepsTo.bind (reads _ _ _ _ _ _ (by omega) stands)
  rintro value reader ⟨valueFinish, valueLess, noBracket, noBar, looksAt⟩
  have closes : KeepsTo result (Reading.expect .greaterThan .closingAngle) reader _ :=
    .expectInType looksAt.toAt (by simp) (by simp) (fun isAngle => .closeMap isAngle)
      fun noAngle => TypeDraft.extend_eq_refuse legacy fun next step => by
        cases step with
        | openBracket isBracket => exact noBracket isBracket
        | bar isBar => exact noBar isBar
        | closeMap isAngle => exact noAngle isAngle
  apply KeepsTo.bind closes
  rintro cut after ⟨rfl, stands⟩
  rw [valueFinish] at stands
  refine .pure ⟨_, ?_, stands⟩
  simp only [List.length_cons]
  omega

/-! ### Items -/

theorem KeepsTo.word {inner : Reading (TypeExpr Span)} {bound : Nat}
    (reads : ReadsTypes legacy text result bound inner) (enough : others.length ≤ bound + 1)
    (took : TookAt legacy text result ⟨finished, .type opened label around .empty⟩ lexeme others
      reader)
    (isWord : lexeme.kind = .identifier) :
    KeepsTo result (word legacy inner lexeme.mark) reader
      (AfterItem legacy text result finished opened label around (others.length + 1)) := by
  apply KeepsTo.bind (.select took.fits took.awaits.text_eq)
  rintro part reader ⟨rfl, rfl⟩
  have opens {kind : Wrapper} (spelled : lexeme.text = kind.keyword) : At legacy text result
      ⟨finished, .type opened label around (.wrapper lexeme.mark kind)⟩ others reader :=
    took.step (.inType (.wrapper isWord (Word.ofText_eq_iff.2 spelled)))
  have literal (value : Bool) (spelled : (Word.boolean value).IsSpelling lexeme.text) :
      At legacy text result
        ⟨finished, .type opened label around (.complete (.boolean lexeme.mark value))⟩ others
        reader :=
    took.step (.inType (.boolean isWord (Word.ofText_eq_iff.2 spelled)))
  unfold Reading.ofWord
  split
  · next spelled => exact .pure (.of_at (literal true spelled))
  · next spelled => exact .pure (.of_at (literal false spelled))
  · next spelled => exact (KeepsTo.liveObject (opens spelled)).mono fun _ _ => .weaken
  · next spelled => exact (KeepsTo.liveList reads enough (opens spelled)).mono fun _ _ => .weaken
  · next spelled => exact (KeepsTo.liveMap reads enough (opens spelled)).mono fun _ _ => .weaken
  · next noTrue noFalse noObject noList noMap =>
      have plain : lexeme.text ∉ ["true", "false", "LiveObject", "LiveList", "LiveMap"] := by
        simpa using ⟨noTrue, noFalse, noObject, noList, noMap⟩
      exact (KeepsTo.named took isWord plain).mono fun _ _ => .of_at

theorem KeepsTo.primary {inner : Reading (TypeExpr Span)} {bound : Nat}
    (reads : ReadsTypes legacy text result bound inner) (enough : lexemes.length ≤ bound + 1)
    (stands : At legacy text result ⟨finished, .type opened label around .empty⟩ lexemes reader) :
    KeepsTo result (primary legacy inner) reader
      (AfterItem legacy text result finished opened label around lexemes.length) := by
  apply KeepsTo.bind (.look stands)
  rintro cut reader ⟨lexeme, others, rfl, rfl, looksAt⟩
  have took {kind : Token.Kind} (isKind : lexeme.kind = kind) (solid : kind ≠ .ending) :
      KeepsTo result Reading.take reader _ := .take looksAt (isKind ▸ solid)
  split
  · next isString =>
      apply KeepsTo.bind (took isString (by decide))
      rintro cut reader ⟨rfl, took⟩
      exact (KeepsTo.string took isString).mono fun _ _ => .of_at
  · next isNumber =>
      apply KeepsTo.bind (took isNumber (by decide))
      rintro cut reader ⟨rfl, took⟩
      exact (KeepsTo.number took isNumber).mono fun _ _ => .of_at
  · next isWord =>
      apply KeepsTo.bind (took isWord (by decide))
      rintro cut reader ⟨rfl, took⟩
      exact KeepsTo.word reads (Nat.le_of_succ_le enough) took isWord
  · next noString noNumber noWord =>
      have refused : TypeDraft.add legacy around .empty lexeme = lexeme.refuse .type := by
        rw [TypeDraft.add, TypeDraft.ofLexeme_eq_refuse noString noNumber noWord]
        rfl
      exact .unexpected looksAt (Draft.add_inType refused (by simp)) (by simp) (by simp)

/-- After an item nothing makes an array of it. -/
inductive AfterArrays (legacy : Bool) (text : String)
    (result : Except (SyntaxError Span) (Document Span)) (finished : List (Definition Span))
    (opened : OpenDefinition Span) (label : Label Span) (around : Surroundings Span)
    (bound : Nat) (item : TypeExpr Span) (next : Reader) : Prop where
  | mk {lexeme : Lexeme Span} {others : List (Lexeme Span)} : others.length + 1 < bound →
      lexeme.kind ≠ .leftBracket → LooksAt legacy text result
        ⟨finished, .type opened label around (.complete item)⟩ lexeme others next →
      AfterArrays legacy text result finished opened label around bound item next

/-- A round takes a pair of brackets, or finds that there is none. -/
theorem KeepsTo.brackets {item : TypeExpr Span}
    (stands : At legacy text result ⟨finished, .type opened label around (.complete item)⟩ lexemes
      reader) :
    KeepsTo result (brackets item) reader fun outcome next =>
      match outcome with
      | .inl array => AfterItem legacy text result finished opened label around lexemes.length array
          next
      | .inr same => AfterArrays legacy text result finished opened label around
          (lexemes.length + 1) same next := by
  apply KeepsTo.bind (.look stands)
  rintro cut reader ⟨lexeme, others, rfl, rfl, looksAt⟩
  by_cases isBracket : lexeme.kind = .leftBracket
  · rw [if_pos (show lexeme.cut.kind = .leftBracket from isBracket)]
    apply KeepsTo.bind (.takeStep looksAt (.inType (.openBracket isBracket)))
    rintro cut reader ⟨rfl, stands⟩
    obtain ⟨close, later, rfl⟩ := stands.awaits.exists_cons
    have closes : KeepsTo result (Reading.expect .rightBracket .closingBracket) reader _ :=
      .expectInType stands (by simp) (by simp) (fun isClosing => .closeBracket isClosing)
        fun noClosing => by simp [TypeDraft.add, noClosing]
    apply KeepsTo.bind closes
    rintro cut after ⟨rfl, stands⟩
    refine .pure ⟨later, ?_, stands⟩
    simp only [List.length_cons]
    omega
  · rw [if_neg (show ¬ lexeme.cut.kind = .leftBracket from isBracket)]
    exact .pure ⟨by simp, isBracket, looksAt⟩

theorem KeepsTo.item {inner : Reading (TypeExpr Span)} {bound : Nat}
    (reads : ReadsTypes legacy text result bound inner) (enough : lexemes.length ≤ bound + 1)
    (stands : At legacy text result ⟨finished, .type opened label around .empty⟩ lexemes reader) :
    KeepsTo result (item legacy inner) reader
      (AfterArrays legacy text result finished opened label around lexemes.length) := by
  apply KeepsTo.bind (.primary reads enough stands)
  rintro type reader ⟨later, less, stands⟩
  apply KeepsTo.bind (.limit stands)
  rintro rounds reader ⟨rfl, rfl⟩
  apply KeepsTo.loop fun later type reader => later.length < lexemes.length ∧
    At legacy text result ⟨finished, .type opened label around (.complete type)⟩ later reader
  · intro later type reader ⟨_, stands⟩
    exact stands.awaits.ne_nil
  · intro later type reader ⟨less, stands⟩
    apply (KeepsTo.brackets stands).mono
    rintro (array | same) next outcome
    · obtain ⟨fewer, shorter, stands⟩ := outcome
      exact ⟨fewer, shorter, shorter.trans less, stands⟩
    · obtain ⟨shorter, noBracket, looksAt⟩ := outcome
      exact ⟨by omega, noBracket, looksAt⟩
  · exact stands.awaits.length_le
  · exact ⟨less, stands⟩

/-! ### Unions -/

/-- Two members or more make the union that the draft makes of them. -/
theorem unionOf?_eq {item : TypeExpr Span} {members : List (TypeExpr Span)}
    (several : members ≠ []) (layers : List (Layer Span)) :
    unionOf? (item :: members).reverse = some (Surroundings.finish ⟨members, layers⟩ item) := by
  have two : 2 ≤ (item :: members).reverse.length := by
    have positive := List.length_pos_iff.2 several
    rw [List.length_reverse, List.length_cons]
    omega
  rw [Surroundings.finish]
  generalize (item :: members).reverse = all at two
  rcases all with _ | ⟨first, _ | ⟨second, others⟩⟩
  · simp at two
  · simp at two
  · simp [unionOf?, Span.union_self]

/-- A round takes a bar and another member, or finds that there is no bar. -/
theorem KeepsTo.bars {inner : Reading (TypeExpr Span)} {bound : Nat}
    (reads : ReadsTypes legacy text result bound inner) (enough : others.length ≤ bound)
    {layers : List (Layer Span)} {members : List (TypeExpr Span)} {item : TypeExpr Span}
    (looksAt : LooksAt legacy text result
      ⟨finished, .type opened label ⟨members, layers⟩ (.complete item)⟩ lexeme others reader) :
    KeepsTo result (bars legacy inner (item :: members)) reader fun outcome next =>
      match outcome with
      | .inl longer => ∃ member, longer = member :: item :: members ∧
          AfterArrays legacy text result finished opened label ⟨item :: members, layers⟩
            others.length member next
      | .inr all => all = (item :: members).reverse ∧ lexeme.kind ≠ .bar ∧ next = reader := by
  apply KeepsTo.bind (.lookAgain looksAt)
  rintro cut next ⟨rfl, rfl⟩
  by_cases isBar : lexeme.kind = .bar
  · rw [if_pos (show lexeme.cut.kind = .bar from isBar)]
    apply KeepsTo.bind (.takeStep looksAt (.inType (.bar isBar)))
    rintro cut reader ⟨rfl, stands⟩
    apply KeepsTo.bind (.item reads (Nat.le_succ_of_le enough) stands)
    intro member reader after
    exact .pure ⟨member, rfl, after⟩
  · rw [if_neg (show ¬ lexeme.cut.kind = .bar from isBar)]
    exact .pure ⟨rfl, isBar, rfl⟩

/-- Between two rounds the reader looks at what follows the last member. If that is not the bar of
the first round, there are several members. -/
inductive AmidUnion (legacy : Bool) (text : String)
    (result : Except (SyntaxError Span) (Document Span)) (finished : List (Definition Span))
    (opened : OpenDefinition Span) (label : Label Span) (layers : List (Layer Span))
    (bound : Nat) : List (Lexeme Span) → List (TypeExpr Span) → Reader → Prop where
  | mk {members : List (TypeExpr Span)} {item : TypeExpr Span} {lexeme : Lexeme Span}
      {others : List (Lexeme Span)} {reader : Reader} : others.length + 1 < bound →
      lexeme.kind ≠ .leftBracket → (lexeme.kind ≠ .bar → members ≠ []) →
      LooksAt legacy text result
        ⟨finished, .type opened label ⟨members, layers⟩ (.complete item)⟩ lexeme others reader →
      AmidUnion legacy text result finished opened label layers bound (lexeme :: others)
        (item :: members) reader

/-- A union is read to its end. -/
theorem KeepsTo.union {inner : Reading (TypeExpr Span)} {bound : Nat}
    (reads : ReadsTypes legacy text result bound inner) (enough : lexemes.length ≤ bound + 1)
    {layers : List (Layer Span)} {members : List (TypeExpr Span)}
    (amid : AmidUnion legacy text result finished opened label layers lexemes.length
      (lexeme :: others) members reader) {rounds : Nat} (bounded : others.length < rounds) :
    KeepsTo result (do
      let all ← Reading.loop (Reading.bars legacy inner) rounds members
      Reading.ask fun _ => unionOf? all) reader
      (AfterType legacy text result finished opened label layers lexemes.length) := by
  have looped : KeepsTo result (Reading.loop (Reading.bars legacy inner) rounds members) reader
      fun all next => ∃ type, unionOf? all = some type ∧
        AfterType legacy text result finished opened label layers lexemes.length type next := by
    refine .loop (AmidUnion legacy text result finished opened label layers lexemes.length) ?_ ?_
      bounded amid
    · rintro _ _ _ ⟨-⟩
      exact List.cons_ne_nil _ _
    · rintro _ _ _ ⟨shorter, noBracket, several, looksAt⟩
      apply (KeepsTo.bars reads (by omega) looksAt).mono
      rintro (longer | all) after outcome
      · obtain ⟨member, rfl, fewer, noBracket, looksAt⟩ := outcome
        refine ⟨_, ?_, .mk (by omega) noBracket (fun _ => List.cons_ne_nil _ _) looksAt⟩
        simp only [List.length_cons]
        omega
      · obtain ⟨rfl, noBar, rfl⟩ := outcome
        exact ⟨_, unionOf?_eq (several noBar) layers, rfl, shorter, noBracket, noBar, looksAt⟩
  apply KeepsTo.bind looped
  rintro all next ⟨type, found, after⟩
  apply (KeepsTo.ask found).mono
  rintro _ _ ⟨rfl, rfl⟩
  exact after

theorem KeepsTo.typeAround {inner : Reading (TypeExpr Span)} {bound : Nat}
    (reads : ReadsTypes legacy text result bound inner) :
    ReadsTypes legacy text result (bound + 1) (typeAround legacy inner) := by
  intro finished opened label layers lexemes reader enough stands
  apply KeepsTo.bind (.item reads enough stands)
  rintro first reader @⟨lexeme, others, less, noBracket, looksAt⟩
  apply KeepsTo.bind (.lookAgain looksAt)
  rintro cut reader ⟨rfl, rfl⟩
  by_cases isBar : lexeme.kind = .bar
  · rw [if_pos (show lexeme.cut.kind = .bar from isBar)]
    apply KeepsTo.bind (.limit looksAt.toAt)
    rintro rounds reader ⟨rfl, rfl⟩
    exact .union reads enough (.mk less noBracket (fun noBar => absurd isBar noBar) looksAt)
      looksAt.awaits.length_le
  · rw [if_neg (show ¬ lexeme.cut.kind = .bar from isBar)]
    exact .pure ⟨rfl, less, noBracket, isBar, looksAt⟩

/-- Types are read down to any depth. -/
theorem KeepsTo.type (depth : Nat) :
    ReadsTypes legacy text result depth (type legacy depth) := by
  induction depth with
  | zero =>
      intro finished opened label layers lexemes reader enough stands
      have none : lexemes = [] := List.eq_nil_of_length_eq_zero (Nat.le_zero.1 enough)
      exact absurd none stands.awaits.ne_nil
  | succ depth inductionHypothesis => exact KeepsTo.typeAround inductionHypothesis

end Reading

end StorageSchema
