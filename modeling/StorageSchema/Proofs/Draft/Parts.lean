/-
This file divides what a document has been read from into its definitions. Each of them is read from
some lexemes in a row, in which the types of its fields are found.
-/
import StorageSchema.Proofs.Draft.TypeParts
import StorageSchema.Proofs.Segment

namespace StorageSchema

variable {Mark : Type}

/-! ### Open definitions -/

/-- A leading comment takes the place of that of the open definition. -/
def Stage.withLeading (comment : Option String) : Stage Mark → Stage Mark
  | .outside => .outside
  | .keyword mark _ => .keyword mark comment
  | .heading mark _ name => .heading mark comment name
  | .body opened => .body { opened with leadingComment := comment }
  | .label opened named => .label { opened with leadingComment := comment } named
  | .optionalLabel opened named => .optionalLabel { opened with leadingComment := comment } named
  | .type opened named around draft =>
      .type { opened with leadingComment := comment } named around draft
  | .comma opened field => .comma { opened with leadingComment := comment } field

/-- These are the fields of the open definition whose types are complete, latest first. -/
def Stage.fields : Stage Mark → List (Field Mark)
  | .outside | .keyword _ _ | .heading _ _ _ => []
  | .body opened | .label opened _ | .optionalLabel opened _ | .type opened _ _ _ => opened.fields
  | .comma opened field => field :: opened.fields

/-- This is the type that is being read. -/
def Stage.type? : Stage Mark → Option (Surroundings Mark × TypeDraft Mark)
  | .type _ _ around draft => some (around, draft)
  | _ => none

variable [Union Mark] {legacy : Bool}

/-- A definition has been opened by its keyword and by the lexemes after it. -/
inductive Stage.Opened (legacy : Bool) (keyword : Lexeme Mark) :
    List (Lexeme Mark) → Stage Mark → Prop where
  | keyword : keyword.kind = .identifier → keyword.text = "type" →
      Opened legacy keyword [] (.keyword keyword.mark keyword.above)
  | next {inside : List (Lexeme Mark)} {lexeme : Lexeme Mark} {stage next : Stage Mark} :
      Opened legacy keyword inside stage →
      Draft.Step legacy lexeme ⟨[], stage⟩ ⟨[], next⟩ →
      Opened legacy keyword (inside ++ [lexeme]) next

/-- A definition is read from lexemes of which the first opens it and the last closes it. -/
def Definition.IsReadFrom (legacy : Bool) (word : List (Lexeme Mark))
    (definition : Definition Mark) : Prop :=
  ∃ keyword inside closing stage, word = keyword :: inside ++ [closing] ∧
    Stage.Opened legacy keyword inside stage ∧
    Draft.Step legacy closing ⟨[], stage⟩ ⟨[definition], .outside⟩

variable {keyword lexeme : Lexeme Mark} {inside : List (Lexeme Mark)} {stage next : Stage Mark}

theorem Stage.Opened.run (opened : Stage.Opened legacy keyword inside stage) :
    Lexeme.Run (Draft.Step legacy) (keyword :: inside) Draft.empty ⟨[], stage⟩ := by
  induction opened with
  | keyword isWord means => exact .single (.keyword isWord means)
  | next _ step inductionHypothesis => exact inductionHypothesis.append (.single step)

theorem Definition.IsReadFrom.run {word : List (Lexeme Mark)} {definition : Definition Mark}
    (read : definition.IsReadFrom legacy word) :
    Lexeme.Run (Draft.Step legacy) word Draft.empty ⟨[definition], .outside⟩ := by
  obtain ⟨keyword, inside, closing, stage, rfl, opened, closes⟩ := read
  exact opened.run.append (.single closes)

theorem Definition.IsReadFrom.ne_nil {word : List (Lexeme Mark)} {definition : Definition Mark}
    (read : definition.IsReadFrom legacy word) : word ≠ [] := by
  obtain ⟨keyword, inside, closing, stage, rfl, -, -⟩ := read
  simp

theorem Stage.Opened.ne_outside (opened : Stage.Opened legacy keyword inside stage) :
    stage ≠ .outside := by
  cases opened with
  | keyword _ _ => simp
  | next _ step => cases step <;> simp

/-! ### Leading comments -/

theorem Stage.Between.withLeading {opened : OpenDefinition Mark}
    (between : stage.Between lexeme opened) (comment : Option String) :
    (stage.withLeading comment).Between lexeme { opened with leadingComment := comment } := by
  cases between with
  | body => exact .body
  | comma => exact .comma
  | type => exact .type

/-- No step inside a definition looks at the comment above it. -/
theorem Draft.Step.withLeading (step : Draft.Step legacy lexeme ⟨[], stage⟩ ⟨[], next⟩)
    (inDefinition : stage ≠ .outside) (comment : Option String) :
    Draft.Step legacy lexeme ⟨[], stage.withLeading comment⟩ ⟨[], next.withLeading comment⟩ := by
  cases step with
  | keyword _ _ => exact absurd rfl inDefinition
  | typeName isWord => exact .typeName isWord
  | openBrace isBrace => exact .openBrace isBrace
  | fieldName isWord between => exact .fieldName isWord (between.withLeading comment)
  | question isMark => exact .question isMark
  | colon isColon => exact .colon isColon
  | optionalColon isColon => exact .optionalColon isColon
  | type part => exact .type part
  | comma isComma => exact .comma isComma

theorem Stage.Opened.withMargin (opened : Stage.Opened legacy keyword inside stage)
    (above beside : Option String) :
    Stage.Opened legacy { keyword with above, beside } inside (stage.withLeading above) := by
  induction opened with
  | keyword isWord means => exact .keyword isWord means
  | next before step inductionHypothesis =>
      exact .next inductionHypothesis (step.withLeading before.ne_outside above)

/-- In another margin a definition has another leading comment, and nothing else is changed. -/
theorem Definition.IsReadFrom.inMargin {word : List (Lexeme Mark)} {definition : Definition Mark}
    (read : definition.IsReadFrom legacy word) (margin : Margin) :
    Definition.IsReadFrom legacy (Lexeme.inMargin margin word)
      { definition with leadingComment := margin.above } := by
  obtain ⟨keyword, inside, closing, stage, rfl, opened, closes⟩ := read
  refine ⟨_, inside, closing, _, rfl, opened.withMargin margin.above margin.beside, ?_⟩
  cases closes with
  | closeBrace isBrace between => exact .closeBrace isBrace (between.withLeading margin.above)

/-! ### Types of fields -/

/-- The types that have been read in a definition are found in its lexemes. -/
structure Stage.TypesFound (legacy : Bool) (word : List (Lexeme Mark)) (stage : Stage Mark) :
    Prop where
  fields : ∀ field ∈ stage.fields, field.type.IsFoundIn legacy word
  type : ∀ state ∈ stage.type?, ∃ typeWord, typeWord <:+ word ∧ TypeFound legacy typeWord state

variable {word : List (Lexeme Mark)}

theorem Stage.TypesFound.between {opened : OpenDefinition Mark}
    (found : stage.TypesFound legacy word) (between : stage.Between lexeme opened) :
    ∀ field ∈ opened.fields, field.type.IsFoundIn legacy word := by
  cases between with
  | body => exact found.fields
  | comma =>
      obtain ⟨latest, others⟩ := List.forall_mem_cons.1 found.fields
      exact List.forall_mem_cons.2 ⟨latest, others⟩
  | type =>
      obtain ⟨typeWord, suffix, inType⟩ := found.type _ rfl
      exact List.forall_mem_cons.2 ⟨inType.finish.mono suffix.isInfix, found.fields⟩

theorem Stage.TypesFound.step (found : stage.TypesFound legacy word)
    (step : Draft.Step legacy lexeme ⟨[], stage⟩ ⟨[], next⟩) :
    next.TypesFound legacy (word ++ [lexeme]) := by
  have longer {fields : List (Field Mark)}
      (all : ∀ field ∈ fields, field.type.IsFoundIn legacy word) :
      ∀ field ∈ fields, field.type.IsFoundIn legacy (word ++ [lexeme]) :=
    fun field present => (all field present).mono (List.prefix_append word _).isInfix
  have noType {state : Surroundings Mark × TypeDraft Mark} (nothing : state ∈ none) :
      ∃ typeWord, typeWord <:+ word ++ [lexeme] ∧ TypeFound legacy typeWord state := by
    cases nothing
  have newType : ∀ state ∈ some (Surroundings.outermost, TypeDraft.empty),
      ∃ typeWord, typeWord <:+ word ++ [lexeme] ∧ TypeFound legacy typeWord state := by
    rintro _ ⟨⟩
    exact ⟨[], List.nil_suffix, .empty⟩
  cases step with
  | keyword _ _ | typeName _ | openBrace _ => exact ⟨List.forall_mem_nil _, fun _ => noType⟩
  | fieldName _ between => exact ⟨longer (found.between between), fun _ => noType⟩
  | question _ => exact ⟨longer found.fields, fun _ => noType⟩
  | colon _ | optionalColon _ => exact ⟨longer found.fields, newType⟩
  | type part =>
      refine ⟨longer found.fields, ?_⟩
      rintro _ ⟨⟩
      obtain ⟨typeWord, ⟨before, rfl⟩, inType⟩ := found.type _ rfl
      exact ⟨typeWord ++ [lexeme], ⟨before, (List.append_assoc _ _ _).symm⟩, inType.step part⟩
  | comma _ =>
      refine ⟨?_, fun _ => noType⟩
      obtain ⟨typeWord, suffix, inType⟩ := found.type _ rfl
      exact longer (List.forall_mem_cons.2 ⟨inType.finish.mono suffix.isInfix, found.fields⟩)

theorem Stage.Opened.typesFound (opened : Stage.Opened legacy keyword inside stage) :
    stage.TypesFound legacy inside := by
  induction opened with
  | keyword _ _ => exact ⟨List.forall_mem_nil _, fun _ nothing => by cases nothing⟩
  | next _ step inductionHypothesis => exact inductionHypothesis.step step

/-- The types of the fields are found in the lexemes of their definition. -/
theorem Definition.IsReadFrom.typesFound {definition : Definition Mark}
    (read : definition.IsReadFrom legacy word) :
    ∀ field ∈ definition.fields, field.type.IsFoundIn legacy word := by
  obtain ⟨keyword, inside, closing, stage, rfl, opened, closes⟩ := read
  cases closes with
  | closeBrace _ between =>
      intro field present
      have found := opened.typesFound.between between field (List.mem_reverse.1 present)
      exact found.mono ⟨[keyword], [closing], rfl⟩

/-! ### Documents -/

/-- A step does the same to the open definition whatever other definitions are finished. -/
theorem Draft.Step.alone {finished : List (Definition Mark)} {draft : Draft Mark}
    (step : Draft.Step legacy lexeme ⟨finished, stage⟩ draft) :
    (∃ after, draft = ⟨finished, after⟩ ∧ Draft.Step legacy lexeme ⟨[], stage⟩ ⟨[], after⟩) ∨
      ∃ definition, draft = ⟨definition :: finished, .outside⟩ ∧
        Draft.Step legacy lexeme ⟨[], stage⟩ ⟨[definition], .outside⟩ := by
  cases step with
  | keyword isWord means => exact .inl ⟨_, rfl, .keyword isWord means⟩
  | typeName isWord => exact .inl ⟨_, rfl, .typeName isWord⟩
  | openBrace isBrace => exact .inl ⟨_, rfl, .openBrace isBrace⟩
  | closeBrace isBrace between => exact .inr ⟨_, rfl, .closeBrace isBrace between⟩
  | fieldName isWord between => exact .inl ⟨_, rfl, .fieldName isWord between⟩
  | question isMark => exact .inl ⟨_, rfl, .question isMark⟩
  | colon isColon => exact .inl ⟨_, rfl, .colon isColon⟩
  | optionalColon isColon => exact .inl ⟨_, rfl, .optionalColon isColon⟩
  | type part => exact .inl ⟨_, rfl, .type part⟩
  | comma isComma => exact .inl ⟨_, rfl, .comma isComma⟩

/-- What has been read is divided into the finished definitions and the open one. -/
inductive Draft.Divided (legacy : Bool) : List (Lexeme Mark) → Draft Mark → Prop where
  | outside {words : List (List (Lexeme Mark))} {finished : List (Definition Mark)} :
      List.Forall₂ (Definition.IsReadFrom legacy) words finished.reverse →
      Divided legacy words.flatten ⟨finished, .outside⟩
  | opened {words : List (List (Lexeme Mark))} {finished : List (Definition Mark)}
      {keyword : Lexeme Mark} {inside : List (Lexeme Mark)} {stage : Stage Mark} :
      List.Forall₂ (Definition.IsReadFrom legacy) words finished.reverse →
      Stage.Opened legacy keyword inside stage →
      Divided legacy (words.flatten ++ keyword :: inside) ⟨finished, stage⟩

theorem Draft.Divided.step {draft last : Draft Mark} (divided : draft.Divided legacy word)
    (step : Draft.Step legacy lexeme draft last) : last.Divided legacy (word ++ [lexeme]) := by
  cases divided with
  | outside definitions =>
      cases step with
      | keyword isWord means => exact .opened definitions (.keyword isWord means)
      | closeBrace _ between | fieldName _ between => cases between
  | @opened words finished keyword inside stage definitions opened =>
      rw [List.append_assoc, List.cons_append]
      -- The finished definitions stay as they are, so only the open one is looked at.
      rcases step.alone with ⟨after, rfl, goesOn⟩ | ⟨definition, rfl, closes⟩
      · exact .opened definitions (.next opened goesOn)
      · have own : definition.IsReadFrom legacy (keyword :: inside ++ [lexeme]) :=
          ⟨keyword, inside, lexeme, stage, rfl, opened, closes⟩
        have all : List.Forall₂ (Definition.IsReadFrom legacy)
            (words ++ [keyword :: inside ++ [lexeme]]) (definition :: finished).reverse := by
          rw [List.reverse_cons]
          exact List.rel_append definitions (.cons own .nil)
        have joined := Draft.Divided.outside all
        rwa [List.flatten_append, List.flatten_singleton] at joined

theorem Draft.Divided.run {lexemes : List (Lexeme Mark)} {draft last : Draft Mark}
    (divided : draft.Divided legacy word)
    (run : Lexeme.Run (Draft.Step legacy) lexemes draft last) :
    last.Divided legacy (word ++ lexemes) := by
  induction run generalizing word with
  | nil => rwa [List.append_nil]
  | @cons lexeme rest _ _ _ step _ inductionHypothesis =>
      rw [List.append_cons]
      exact inductionHypothesis (divided.step step)

/-- The lexemes of a document are those of its definitions one after the other. -/
theorem Document.exists_lexemes {text : String} {document : Document Span}
    (read : Document.ofText legacy text = .ok document) :
    ∃ words : List (List (Lexeme Span)), Lexeme.ofText text = words.flatten ∧
      List.Forall₂ (Definition.IsReadFrom legacy) words document.definitions := by
  obtain ⟨finished, run, rfl⟩ := Document.ofLexemes_eq_ok_iff.1 read
  have nothing : Draft.Divided legacy [] (Draft.empty : Draft Span) :=
    @Draft.Divided.outside _ _ _ [] [] .nil
  have divided := nothing.run run
  rw [List.nil_append] at divided
  generalize lexemes : Lexeme.ofText text = all at divided
  cases divided with
  | outside definitions => exact ⟨_, rfl, definitions⟩
  | opened _ opened => exact absurd rfl opened.ne_outside

/-- Trees that stand on words one after the other each stand on a part of the whole. -/
theorem exists_infix_of_forall₂ {Element Tree : Type} {form : List Element → Tree → Prop}
    {words : List (List Element)} {trees : List Tree} (all : List.Forall₂ form words trees) :
    ∀ tree ∈ trees, ∃ word, word <:+: words.flatten ∧ form word tree := by
  induction all with
  | nil => exact List.forall_mem_nil _
  | @cons word _ rest _ own _ inductionHypothesis =>
      refine List.forall_mem_cons.2 ⟨⟨word, ⟨[], rest.flatten, rfl⟩, own⟩, ?_⟩
      intro tree among
      obtain ⟨other, within, stands⟩ := inductionHypothesis tree among
      exact ⟨other, within.trans (List.suffix_append word _).isInfix, stands⟩

/-- Every lexeme of a run can stand in a document. -/
theorem Lexeme.Run.isSolid {lexemes : List (Lexeme Mark)} {draft last : Draft Mark}
    (run : Lexeme.Run (Draft.Step legacy) lexemes draft last) :
    ∀ lexeme ∈ lexemes, lexeme.kind.IsSolid := by
  induction run with
  | nil => exact List.forall_mem_nil _
  | cons step _ inductionHypothesis =>
      exact List.forall_mem_cons.2 ⟨step.isSolid, inductionHypothesis⟩

end StorageSchema
