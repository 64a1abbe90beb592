/-
This file says once what a single lexeme can do to a draft. Whatever holds of all drafts is then
shown for each step, and for a run of steps by induction on it.
-/
import StorageSchema.Draft

namespace StorageSchema

variable {Mark State : Type}

/-- These are the steps of a type, each by one lexeme. -/
inductive TypeDraft.Step [Union Mark] (legacy : Bool) (lexeme : Lexeme Mark) :
    Surroundings Mark × TypeDraft Mark → Surroundings Mark × TypeDraft Mark → Prop where
  | string {around : Surroundings Mark} : lexeme.kind = .string →
      Step legacy lexeme (around, .empty) (around, .complete
        (.string lexeme.mark (String.ofList (Text.Quoted.decode lexeme.text.toList))))
  | number {around : Surroundings Mark} : lexeme.kind = .number →
      Step legacy lexeme (around, .empty) (around, .complete
        (.number lexeme.mark (Double.ofDecimal (Decimal.ofSpelling lexeme.text.toList))))
  | boolean {around : Surroundings Mark} {value : Bool} : lexeme.kind = .identifier →
      Word.ofText lexeme.text = .boolean value →
      Step legacy lexeme (around, .empty) (around, .complete (.boolean lexeme.mark value))
  | wrapper {around : Surroundings Mark} {kind : Wrapper} : lexeme.kind = .identifier →
      Word.ofText lexeme.text = .wrapper kind →
      Step legacy lexeme (around, .empty) (around, .wrapper lexeme.mark kind)
  | scalar {around : Surroundings Mark} {kind : Scalar} : lexeme.kind = .identifier →
      (Word.ofText lexeme.text = .scalar kind ∨
        legacy = true ∧ Word.ofText lexeme.text = .legacyScalar kind) →
      Step legacy lexeme (around, .empty) (around, .complete (.scalar lexeme.mark kind))
  | reference {around : Surroundings Mark} : lexeme.kind = .identifier →
      Word.ofText lexeme.text = .name →
      Step legacy lexeme (around, .empty) (around, .complete
        (.reference ⟨lexeme.mark, ⟨lexeme.mark, lexeme.text⟩, false⟩))
  | openBracket {around : Surroundings Mark} {item : TypeExpr Mark} :
      lexeme.kind = .leftBracket →
      Step legacy lexeme (around, .complete item) (around, .bracket item)
  | closeBracket {around : Surroundings Mark} {item : TypeExpr Mark} :
      lexeme.kind = .rightBracket →
      Step legacy lexeme (around, .bracket item)
        (around, .complete (.array (item.mark ∪ lexeme.mark) item))
  | bar {around : Surroundings Mark} {item : TypeExpr Mark} : lexeme.kind = .bar →
      Step legacy lexeme (around, .complete item) (⟨item :: around.members, around.layers⟩, .empty)
  | openAngle {around : Surroundings Mark} {keyword : Mark} {kind : Wrapper} :
      lexeme.kind = .lessThan →
      Step legacy lexeme (around, .wrapper keyword kind) (openWrapper around keyword kind)
  | closeList {inner members : List (TypeExpr Mark)} {layers : List (Layer Mark)}
      {keyword : Mark} {item : TypeExpr Mark} : lexeme.kind = .greaterThan →
      Step legacy lexeme (⟨inner, ⟨.list keyword, members⟩ :: layers⟩, .complete item)
        (⟨members, layers⟩, .complete (.liveList (keyword ∪ lexeme.mark)
          (Surroundings.finish ⟨inner, ⟨.list keyword, members⟩ :: layers⟩ item)))
  | comma {inner members : List (TypeExpr Mark)} {layers : List (Layer Mark)}
      {keyword : Mark} {item : TypeExpr Mark} : lexeme.kind = .comma →
      Step legacy lexeme (⟨inner, ⟨.mapKey keyword, members⟩ :: layers⟩, .complete item)
        (⟨[], ⟨.mapValue keyword
          (Surroundings.finish ⟨inner, ⟨.mapKey keyword, members⟩ :: layers⟩ item), members⟩ ::
            layers⟩, .empty)
  | closeMap {inner members : List (TypeExpr Mark)} {layers : List (Layer Mark)}
      {keyword : Mark} {key item : TypeExpr Mark} : lexeme.kind = .greaterThan →
      Step legacy lexeme (⟨inner, ⟨.mapValue keyword key, members⟩ :: layers⟩, .complete item)
        (⟨members, layers⟩, .complete (.liveMap (keyword ∪ lexeme.mark) key
          (Surroundings.finish ⟨inner, ⟨.mapValue keyword key, members⟩ :: layers⟩ item)))
  | objectName {around : Surroundings Mark} {keyword : Mark} : lexeme.kind = .identifier →
      Word.ofText lexeme.text = .name →
      Step legacy lexeme (around, .object keyword)
        (around, .namedObject keyword ⟨lexeme.mark, lexeme.text⟩)
  | closeObject {around : Surroundings Mark} {keyword : Mark} {name : Name Mark} :
      lexeme.kind = .greaterThan →
      Step legacy lexeme (around, .namedObject keyword name)
        (around, .complete (.reference ⟨keyword ∪ lexeme.mark, name, true⟩))

/-- A definition stands between two of its fields once the last of them has its comment. -/
inductive Stage.Between [Union Mark] (lexeme : Lexeme Mark) :
    Stage Mark → OpenDefinition Mark → Prop where
  | body {opened : OpenDefinition Mark} : Between lexeme (.body opened) opened
  | comma {opened : OpenDefinition Mark} {field : Field Mark} :
      Between lexeme (.comma opened field) (opened.addField field lexeme)
  | type {opened : OpenDefinition Mark} {named : Label Mark} {members : List (TypeExpr Mark)}
      {item : TypeExpr Mark} :
      Between lexeme (.type opened named ⟨members, []⟩ (.complete item))
        (opened.addField (named.field (Surroundings.finish ⟨members, []⟩ item)) lexeme)

/-- These are the steps of a document, each by one lexeme. -/
inductive Draft.Step [Union Mark] (legacy : Bool) (lexeme : Lexeme Mark) :
    Draft Mark → Draft Mark → Prop where
  | keyword {finished : List (Definition Mark)} : lexeme.kind = .identifier →
      lexeme.text = "type" →
      Step legacy lexeme ⟨finished, .outside⟩ ⟨finished, .keyword lexeme.mark lexeme.above⟩
  | typeName {finished : List (Definition Mark)} {keyword : Mark} {comment : Option String} :
      lexeme.kind = .identifier →
      Step legacy lexeme ⟨finished, .keyword keyword comment⟩
        ⟨finished, .heading keyword comment ⟨lexeme.mark, lexeme.text⟩⟩
  | openBrace {finished : List (Definition Mark)} {keyword : Mark} {comment : Option String}
      {name : Name Mark} : lexeme.kind = .leftBrace →
      Step legacy lexeme ⟨finished, .heading keyword comment name⟩
        ⟨finished, .body ⟨keyword, name, comment, []⟩⟩
  | closeBrace {finished : List (Definition Mark)} {stage : Stage Mark}
      {opened : OpenDefinition Mark} : lexeme.kind = .rightBrace → stage.Between lexeme opened →
      Step legacy lexeme ⟨finished, stage⟩ ⟨opened.close lexeme.mark :: finished, .outside⟩
  | fieldName {finished : List (Definition Mark)} {stage : Stage Mark}
      {opened : OpenDefinition Mark} : lexeme.kind = .identifier → stage.Between lexeme opened →
      Step legacy lexeme ⟨finished, stage⟩
        ⟨finished, .label opened ⟨⟨lexeme.mark, lexeme.text⟩, false, lexeme.above⟩⟩
  | question {finished : List (Definition Mark)} {opened : OpenDefinition Mark}
      {named : Label Mark} : lexeme.kind = .question →
      Step legacy lexeme ⟨finished, .label opened named⟩
        ⟨finished, .optionalLabel opened { named with isOptional := true }⟩
  | colon {finished : List (Definition Mark)} {opened : OpenDefinition Mark}
      {named : Label Mark} : lexeme.kind = .colon →
      Step legacy lexeme ⟨finished, .label opened named⟩
        ⟨finished, .type opened named Surroundings.outermost .empty⟩
  | optionalColon {finished : List (Definition Mark)} {opened : OpenDefinition Mark}
      {named : Label Mark} : lexeme.kind = .colon →
      Step legacy lexeme ⟨finished, .optionalLabel opened named⟩
        ⟨finished, .type opened named Surroundings.outermost .empty⟩
  | type {finished : List (Definition Mark)} {opened : OpenDefinition Mark} {named : Label Mark}
      {state next : Surroundings Mark × TypeDraft Mark} :
      TypeDraft.Step legacy lexeme state next →
      Step legacy lexeme ⟨finished, .type opened named state.1 state.2⟩
        ⟨finished, .type opened named next.1 next.2⟩
  | comma {finished : List (Definition Mark)} {opened : OpenDefinition Mark} {named : Label Mark}
      {members : List (TypeExpr Mark)} {item : TypeExpr Mark} : lexeme.kind = .comma →
      Step legacy lexeme ⟨finished, .type opened named ⟨members, []⟩ (.complete item)⟩
        ⟨finished, .comma opened
          { named.field (Surroundings.finish ⟨members, []⟩ item) with
            mark := (named.field (Surroundings.finish ⟨members, []⟩ item)).mark ∪ lexeme.mark }⟩

/-- A run takes one step for each lexeme. -/
inductive Lexeme.Run (step : Lexeme Mark → State → State → Prop) :
    List (Lexeme Mark) → State → State → Prop where
  | nil {state : State} : Run step [] state state
  | cons {lexeme : Lexeme Mark} {rest : List (Lexeme Mark)} {state next last : State} :
      step lexeme state next → Run step rest next last → Run step (lexeme :: rest) state last

theorem Lexeme.Run.append {step : Lexeme Mark → State → State → Prop}
    {first second : List (Lexeme Mark)} {state next last : State}
    (left : Lexeme.Run step first state next) (right : Lexeme.Run step second next last) :
    Lexeme.Run step (first ++ second) state last := by
  induction left with
  | nil => exact right
  | cons taken _ inductionHypothesis => exact .cons taken (inductionHypothesis right)

theorem Lexeme.Run.single {step : Lexeme Mark → State → State → Prop} {lexeme : Lexeme Mark}
    {state next : State} (taken : step lexeme state next) :
    Lexeme.Run step [lexeme] state next := .cons taken .nil

theorem Lexeme.Run.exists_middle {step : Lexeme Mark → State → State → Prop}
    {first second : List (Lexeme Mark)} {state last : State}
    (run : Lexeme.Run step (first ++ second) state last) :
    ∃ middle, Lexeme.Run step first state middle ∧ Lexeme.Run step second middle last := by
  induction first generalizing state with
  | nil => exact ⟨state, .nil, run⟩
  | cons lexeme rest inductionHypothesis =>
      rcases run with _ | ⟨taken, run⟩
      obtain ⟨middle, before, after⟩ := inductionHypothesis run
      exact ⟨middle, .cons taken before, after⟩

/-- A run is one of other steps too if each of its steps is. -/
theorem Lexeme.Run.lift {Other : Type} {step : Lexeme Mark → State → State → Prop}
    {other : Lexeme Mark → Other → Other → Prop} {lexemes : List (Lexeme Mark)}
    {state last : State} (run : Lexeme.Run step lexemes state last) (change : State → Other)
    (lifted : ∀ lexeme state next, step lexeme state next →
      other lexeme (change state) (change next)) :
    Lexeme.Run other lexemes (change state) (change last) := by
  induction run with
  | nil => exact .nil
  | cons taken _ inductionHypothesis => exact .cons (lifted _ _ _ taken) inductionHypothesis

variable [Union Mark] {legacy : Bool} {lexeme : Lexeme Mark}

/-- What is collected from a union member by member is collected so from a type that is finished. -/
theorem Surroundings.flatMap_finish {Part : Type} (collect : TypeExpr Mark → List Part)
    (ofUnion : ∀ mark members, collect (.union mark members) = members.flatMap collect)
    (around : Surroundings Mark) (item : TypeExpr Mark) :
    collect (around.finish item) = around.members.reverse.flatMap collect ++ collect item := by
  have listed : around.members.reverse.flatMap collect ++ collect item =
      (item :: around.members).reverse.flatMap collect := by
    rw [List.reverse_cons, List.flatMap_append, List.flatMap_singleton]
  rw [listed, Surroundings.finish]
  rcases divided : (item :: around.members).reverse with _ | ⟨first, _ | ⟨second, rest⟩⟩
  · exact absurd (List.reverse_eq_nil_iff.1 divided) (List.cons_ne_nil _ _)
  · obtain ⟨rfl, -⟩ := List.cons.inj (List.reverse_eq_iff.1 divided)
    exact (List.flatMap_singleton _ _).symm
  · exact ofUnion _ _

theorem exists_of_map_eq_ok {Fault Result Other : Type} {outcome : Except Fault Result}
    {change : Result → Other} {last : Other} (mapped : outcome.map change = .ok last) :
    ∃ result, outcome = .ok result ∧ change result = last := by
  cases outcome with
  | error _ => cases mapped
  | ok result => exact ⟨result, rfl, Except.ok.inj mapped⟩

theorem TypeDraft.Step.of_ofLexeme {around : Surroundings Mark} {next : TypeDraft Mark}
    (begun : TypeDraft.ofLexeme legacy lexeme = .ok next) :
    TypeDraft.Step legacy lexeme (around, .empty) (around, next) := by
  simp only [TypeDraft.ofLexeme] at begun
  split at begun
  · next isString => exact Except.ok.inj begun ▸ .string isString
  · next isNumber => exact Except.ok.inj begun ▸ .number isNumber
  · next isWord =>
      simp only [TypeDraft.ofWord] at begun
      split at begun
      · next means => exact Except.ok.inj begun ▸ .boolean isWord means
      · next means => exact Except.ok.inj begun ▸ .wrapper isWord means
      · next means => exact Except.ok.inj begun ▸ .scalar isWord (.inl means)
      · next means =>
          split at begun
          · next allowed => exact Except.ok.inj begun ▸ .scalar isWord (.inr ⟨allowed, means⟩)
          · cases begun
      · next means => exact Except.ok.inj begun ▸ .reference isWord means
  · cases begun

theorem TypeDraft.Step.of_extend {around : Surroundings Mark} {item : TypeExpr Mark}
    {next : Surroundings Mark × TypeDraft Mark}
    (extended : TypeDraft.extend around item lexeme = .ok next) :
    TypeDraft.Step legacy lexeme (around, .complete item) next := by
  rcases around with ⟨inner, layers⟩
  simp only [TypeDraft.extend] at extended
  split at extended
  · next isBracket => exact Except.ok.inj extended ▸ .openBracket isBracket
  · next isBar => exact Except.ok.inj extended ▸ .bar isBar
  · next isAngle => exact Except.ok.inj extended ▸ .closeList isAngle
  · next isComma => exact Except.ok.inj extended ▸ .comma isComma
  · next isAngle => exact Except.ok.inj extended ▸ .closeMap isAngle
  · cases extended

/-- A lexeme that is added to a type takes one of its steps, and no other. -/
theorem TypeDraft.add_eq_ok_iff {around : Surroundings Mark} {draft : TypeDraft Mark}
    {next : Surroundings Mark × TypeDraft Mark} :
    draft.add legacy around lexeme = .ok next ↔
      TypeDraft.Step legacy lexeme (around, draft) next := by
  constructor
  · intro added
    cases draft with
    | empty =>
        obtain ⟨item, begun, rfl⟩ := exists_of_map_eq_ok added
        exact .of_ofLexeme begun
    | complete item => exact .of_extend added
    | bracket item =>
        simp only [TypeDraft.add] at added
        split at added
        · next isBracket => exact Except.ok.inj added ▸ .closeBracket isBracket
        · cases added
    | wrapper keyword kind =>
        simp only [TypeDraft.add] at added
        split at added
        · next isAngle => exact Except.ok.inj added ▸ .openAngle isAngle
        · cases added
    | object keyword =>
        simp only [TypeDraft.add] at added
        split at added
        · next isName => exact Except.ok.inj added ▸ .objectName isName.1 isName.2
        · cases added
    | namedObject keyword name =>
        simp only [TypeDraft.add] at added
        split at added
        · next isAngle => exact Except.ok.inj added ▸ .closeObject isAngle
        · cases added
  · intro step
    cases step with
    | scalar isWord means =>
        rcases means with means | ⟨rfl, means⟩ <;>
          simp [TypeDraft.add, TypeDraft.ofLexeme, TypeDraft.ofWord, isWord, means, Except.map]
    | _ =>
        simp_all [TypeDraft.add, TypeDraft.ofLexeme, TypeDraft.ofWord, TypeDraft.extend, Except.map]

theorem Draft.Step.of_addInBody {finished : List (Definition Mark)} {stage : Stage Mark}
    {opened : OpenDefinition Mark} {next : Draft Mark} (between : stage.Between lexeme opened)
    (added : Draft.addInBody ⟨finished, stage⟩ opened lexeme = .ok next) :
    Draft.Step legacy lexeme ⟨finished, stage⟩ next := by
  simp only [Draft.addInBody] at added
  split at added
  · next isBrace => exact Except.ok.inj added ▸ .closeBrace isBrace between
  · next isName => exact Except.ok.inj added ▸ .fieldName isName between
  · cases added

theorem Draft.Step.of_addInType {finished : List (Definition Mark)} {opened : OpenDefinition Mark}
    {named : Label Mark} {around : Surroundings Mark} {typeDraft : TypeDraft Mark}
    {next : Draft Mark}
    (added : Draft.addInType legacy ⟨finished, .type opened named around typeDraft⟩ opened named
      around typeDraft lexeme = .ok next) :
    Draft.Step legacy lexeme ⟨finished, .type opened named around typeDraft⟩ next := by
  rcases around with ⟨members, layers⟩
  simp only [Draft.addInType] at added
  split at added
  · next isComma => exact Except.ok.inj added ▸ .comma isComma
  · next => exact .of_addInBody .type added
  · next => exact .of_addInBody .type added
  · obtain ⟨state, part, rfl⟩ := exists_of_map_eq_ok added
    exact .type (TypeDraft.add_eq_ok_iff.1 part)

/-- The part of a type that a lexeme can be is never the end of its field. -/
theorem Draft.addInType_of_step {draft : Draft Mark} {opened : OpenDefinition Mark}
    {named : Label Mark} {around : Surroundings Mark} {typeDraft : TypeDraft Mark}
    {next : Surroundings Mark × TypeDraft Mark}
    (step : TypeDraft.Step legacy lexeme (around, typeDraft) next) :
    draft.addInType legacy opened named around typeDraft lexeme =
      .ok { draft with stage := .type opened named next.1 next.2 } := by
  have added := TypeDraft.add_eq_ok_iff.2 step
  have passed : draft.addInType legacy opened named around typeDraft lexeme =
      (typeDraft.add legacy around lexeme).map fun next =>
        { draft with stage := .type opened named next.1 next.2 } := by
    cases step <;> simp_all [Draft.addInType]
  rw [passed, added]
  rfl

/-- A lexeme that is added to a document takes one of its steps, and no other. -/
theorem Draft.add_eq_ok_iff {draft next : Draft Mark} :
    draft.add legacy lexeme = .ok next ↔ Draft.Step legacy lexeme draft next := by
  constructor
  · intro added
    rcases draft with ⟨finished, stage⟩
    cases stage with
    | outside =>
        simp only [Draft.add] at added
        split at added
        · next isKeyword => exact Except.ok.inj added ▸ .keyword isKeyword.1 isKeyword.2
        · cases added
    | keyword keyword comment =>
        simp only [Draft.add] at added
        split at added
        · next isName => exact Except.ok.inj added ▸ .typeName isName
        · cases added
    | heading keyword comment name =>
        simp only [Draft.add] at added
        split at added
        · next isBrace => exact Except.ok.inj added ▸ .openBrace isBrace
        · cases added
    | body opened => exact .of_addInBody .body added
    | label opened named =>
        simp only [Draft.add] at added
        split at added
        · next isMark => exact Except.ok.inj added ▸ .question isMark
        · next isColon => exact Except.ok.inj added ▸ .colon isColon
        · cases added
    | optionalLabel opened named =>
        simp only [Draft.add] at added
        split at added
        · next isColon => exact Except.ok.inj added ▸ .optionalColon isColon
        · cases added
    | type opened named around typeDraft => exact .of_addInType added
    | comma opened field => exact .of_addInBody .comma added
  · intro step
    cases step with
    | type part => exact Draft.addInType_of_step part
    | closeBrace isBrace between =>
        cases between <;> simp [Draft.add, Draft.addInType, Draft.addInBody, isBrace]
    | fieldName isName between =>
        cases between <;> simp [Draft.add, Draft.addInType, Draft.addInBody, isName]
    | _ => simp_all [Draft.add, Draft.addInType]

/-- This function reads lexemes one after the other. -/
def Draft.addAll (legacy : Bool) (draft : Draft Mark) (lexemes : List (Lexeme Mark)) :
    Except (SyntaxError Mark) (Draft Mark) :=
  lexemes.foldlM (Draft.add legacy) draft

/-- The lexemes that are read without an error are those of a run. -/
theorem Draft.addAll_eq_ok_iff {draft last : Draft Mark} {lexemes : List (Lexeme Mark)} :
    draft.addAll legacy lexemes = .ok last ↔
      Lexeme.Run (Draft.Step legacy) lexemes draft last := by
  induction lexemes generalizing draft with
  | nil =>
      constructor
      · intro same
        exact Except.ok.inj same ▸ .nil
      · intro run
        cases run
        rfl
  | cons lexeme rest inductionHypothesis =>
      rw [Draft.addAll, List.foldlM_cons]
      constructor
      · intro read
        cases added : draft.add legacy lexeme with
        | error _ =>
            rw [added] at read
            cases read
        | ok next =>
            rw [added] at read
            exact .cons (Draft.add_eq_ok_iff.1 added) (inductionHypothesis.1 read)
      · intro run
        cases run with
        | cons taken run =>
            rw [Draft.add_eq_ok_iff.2 taken]
            exact inductionHypothesis.2 run

theorem Document.ofLexemes_eq (legacy : Bool) (mark : Mark) (lexemes : List (Lexeme Mark))
    (ending : Lexeme Mark) :
    Document.ofLexemes legacy mark lexemes ending =
      Draft.empty.addAll legacy lexemes >>= fun draft => draft.finish mark ending := rfl

/-- The lexemes of a document are those of a run that ends outside its definitions. -/
theorem Document.ofLexemes_eq_ok_iff {mark : Mark} {lexemes : List (Lexeme Mark)}
    {ending : Lexeme Mark} {document : Document Mark} :
    Document.ofLexemes legacy mark lexemes ending = .ok document ↔
      ∃ finished, Lexeme.Run (Draft.Step legacy) lexemes Draft.empty ⟨finished, .outside⟩ ∧
        document = ⟨mark, finished.reverse⟩ := by
  rw [Document.ofLexemes_eq]
  constructor
  · intro read
    cases added : Draft.empty.addAll legacy lexemes with
    | error _ =>
        rw [added] at read
        cases read
    | ok draft =>
        rw [added] at read
        obtain ⟨finished, stage⟩ := draft
        change Draft.finish ⟨finished, stage⟩ mark ending = _ at read
        cases stage with
        | outside => exact ⟨finished, Draft.addAll_eq_ok_iff.1 added, (Except.ok.inj read).symm⟩
        | _ => cases read
  · rintro ⟨finished, run, rfl⟩
    rw [Draft.addAll_eq_ok_iff.2 run]
    rfl

end StorageSchema
