/-
This file shows that the reader takes every derivation of the grammar, symbol by symbol, to its
tree.
-/
import StorageSchema.Proofs.Draft.Prefix

namespace StorageSchema

variable {legacy : Bool}

/-- The steps of a type that take its symbols one after the other. -/
def TypeDraft.Reads (legacy : Bool) (word : List Symbol)
    (state next : Surroundings Unit × TypeDraft Unit) : Prop :=
  Lexeme.Run (TypeDraft.Step legacy) (word.map Symbol.lexeme) state next

theorem TypeDraft.Reads.append {first second : List Symbol}
    {state next last : Surroundings Unit × TypeDraft Unit}
    (left : TypeDraft.Reads legacy first state next)
    (right : TypeDraft.Reads legacy second next last) :
    TypeDraft.Reads legacy (first ++ second) state last := by
  rw [TypeDraft.Reads, List.map_append]
  exact Lexeme.Run.append left right

theorem TypeDraft.Reads.single (symbol : Symbol)
    {state next : Surroundings Unit × TypeDraft Unit}
    (step : TypeDraft.Step legacy symbol.lexeme state next) :
    TypeDraft.Reads legacy [symbol] state next := Lexeme.Run.single step

mutual

/-- A primary type is read wherever an item may begin. -/
theorem PrimaryForm.reads {word : List Symbol} {type : TypeExpr Unit} :
    PrimaryForm legacy word type → (around : Surroundings Unit) →
      TypeDraft.Reads legacy word (around, .empty) (around, .complete type)
  | .string _, _ => .single _ (.string rfl)
  | .number _, _ => .single _ (.number rfl)
  | .yes, _ => .single _ (.boolean rfl rfl)
  | .no, _ => .single _ (.boolean rfl rfl)
  | @PrimaryForm.liveObject _ name isName, around => by
      have opened : TypeDraft.Reads legacy [.word "LiveObject", .sign '<'] (around, .empty)
          (around, .object ()) := .cons (.wrapper rfl rfl) (.single (.openAngle rfl))
      have named : TypeDraft.Reads legacy [.word name] (around, .object ())
          (around, .namedObject () ⟨(), name⟩) :=
        .single _ (.objectName rfl (Word.ofText_eq_iff.2 isName))
      exact (opened.append named).append (.single (.sign '>') (.closeObject rfl))
  | .liveList item, around => by
      have opened : TypeDraft.Reads legacy [.word "LiveList", .sign '<'] (around, .empty)
          (around.enclose (.list ()), .empty) :=
        .cons (.wrapper rfl rfl) (.single (.openAngle rfl))
      obtain ⟨earlier, last, rfl, inside⟩ :=
        item.reads (⟨.list (), around.members⟩ :: around.layers)
      exact (opened.append inside).append (.single (.sign '>') (.closeList rfl))
  | @PrimaryForm.liveMap _ _ _ key value keyForm valueForm, around => by
      have opened : TypeDraft.Reads legacy [.word "LiveMap", .sign '<'] (around, .empty)
          (around.enclose (.mapKey ()), .empty) :=
        .cons (.wrapper rfl rfl) (.single (.openAngle rfl))
      obtain ⟨_, _, rfl, valueRead⟩ :=
        valueForm.reads (⟨.mapValue () key, around.members⟩ :: around.layers)
      obtain ⟨_, _, rfl, keyRead⟩ := keyForm.reads (⟨.mapKey (), around.members⟩ :: around.layers)
      have divided := (opened.append keyRead).append (.single (.sign ',') (.comma rfl))
      exact (divided.append valueRead).append (.single (.sign '>') (.closeMap rfl))
  | .scalar kind, _ => .single _ (.scalar rfl (.inl (Word.ofText_eq_iff.2 rfl)))
  | .legacyScalar allowed spelled, _ => by
      refine .single _ (.scalar rfl ?_)
      rcases Word.ofText_of_mem_spellings spelled with means | means
      · exact .inl means
      · exact .inr ⟨allowed, means⟩
  | .name isName, _ => .single _ (.reference rfl (Word.ofText_eq_iff.2 isName))

theorem ItemForm.reads {word : List Symbol} {type : TypeExpr Unit} :
    ItemForm legacy word type → (around : Surroundings Unit) →
      TypeDraft.Reads legacy word (around, .empty) (around, .complete type)
  | .primary form, around => form.reads around
  | .array form, around =>
      (form.reads around).append (.cons (.openBracket rfl) (.single (.closeBracket rfl)))

theorem MembersForm.reads {word : List Symbol} {members : List (TypeExpr Unit)} :
    MembersForm legacy word members → (layers : List (Layer Unit)) →
      ∃ earlier last, members = (last :: earlier).reverse ∧
        TypeDraft.Reads legacy word (⟨[], layers⟩, .empty) (⟨earlier, layers⟩, .complete last)
  | .first form, layers => ⟨[], _, rfl, form.reads ⟨[], layers⟩⟩
  | .next before form, layers => by
      obtain ⟨earlier, last, rfl, read⟩ := before.reads layers
      have goesOn := read.append (.single (.sign '|') (.bar rfl))
      exact ⟨last :: earlier, _, List.reverse_cons.symm, goesOn.append (form.reads _)⟩

/-- A type is read into an item that completes it. -/
theorem TypeForm.reads {word : List Symbol} {type : TypeExpr Unit} :
    TypeForm legacy word type → (layers : List (Layer Unit)) →
      ∃ earlier last, Surroundings.finish ⟨earlier, layers⟩ last = type ∧
        TypeDraft.Reads legacy word (⟨[], layers⟩, .empty) (⟨earlier, layers⟩, .complete last)
  | .single form, layers => ⟨[], type, rfl, form.reads ⟨[], layers⟩⟩
  | .union form, layers => by
      obtain ⟨earlier, last, listed, read⟩ := form.reads layers
      refine ⟨earlier, last, ?_, read⟩
      rw [Surroundings.finish, ← listed]

end

/-- The steps of a document that take its symbols one after the other. -/
def Draft.Reads (legacy : Bool) (word : List Symbol) (draft next : Draft Unit) : Prop :=
  Lexeme.Run (Draft.Step legacy) (word.map Symbol.lexeme) draft next

theorem Draft.Reads.append {first second : List Symbol} {draft next last : Draft Unit}
    (left : Draft.Reads legacy first draft next) (right : Draft.Reads legacy second next last) :
    Draft.Reads legacy (first ++ second) draft last := by
  rw [Draft.Reads, List.map_append]
  exact Lexeme.Run.append left right

theorem Draft.Reads.single (symbol : Symbol) {draft next : Draft Unit}
    (step : Draft.Step legacy symbol.lexeme draft next) : Draft.Reads legacy [symbol] draft next :=
  Lexeme.Run.single step

/-- The steps of a type are steps of the document around it. -/
theorem TypeDraft.Reads.inDraft {word : List Symbol}
    {state next : Surroundings Unit × TypeDraft Unit} (read : TypeDraft.Reads legacy word state next)
    (finished : List (Definition Unit)) (opened : OpenDefinition Unit) (named : Label Unit) :
    Draft.Reads legacy word ⟨finished, .type opened named state.1 state.2⟩
      ⟨finished, .type opened named next.1 next.2⟩ :=
  Lexeme.Run.lift read
    (fun state => (⟨finished, .type opened named state.1 state.2⟩ : Draft Unit))
    fun _ _ _ step => .type step

/-- A stage stands between the fields that have been read and another one. -/
def Stage.Precedes (stage : Stage Unit) (opened : OpenDefinition Unit) : Prop :=
  ∀ symbol : Symbol, stage.Between symbol.lexeme opened

/-- After its name a field is read to the end of its type. -/
theorem TypeForm.readsAfterName {word : List Symbol} {type : TypeExpr Unit}
    (form : TypeForm legacy word type) (finished : List (Definition Unit))
    (opened : OpenDefinition Unit) (name : Name Unit) (isOptional : Bool)
    (comment : Option String) :
    ∃ earlier last, Surroundings.finish ⟨earlier, []⟩ last = type ∧
      Draft.Reads legacy (Symbol.optional isOptional (.sign '?') ++ [.sign ':'] ++ word)
        ⟨finished, .label opened ⟨name, false, comment⟩⟩
        ⟨finished, .type opened ⟨name, isOptional, comment⟩ ⟨earlier, []⟩ (.complete last)⟩ := by
  have labelled : Draft.Reads legacy (Symbol.optional isOptional (.sign '?') ++ [.sign ':'])
      ⟨finished, .label opened ⟨name, false, comment⟩⟩
      ⟨finished, .type opened ⟨name, isOptional, comment⟩ Surroundings.outermost .empty⟩ := by
    cases isOptional with
    | false => exact .single (.sign ':') (.colon rfl)
    | true =>
        exact (Draft.Reads.single (.sign '?') (.question rfl)).append
          (.single (.sign ':') (.optionalColon rfl))
  obtain ⟨earlier, last, same, read⟩ := form.reads []
  exact ⟨earlier, last, same, labelled.append (read.inDraft finished opened _)⟩

theorem FieldForm.reads {word : List Symbol} {field : Field Unit}
    (form : FieldForm legacy word field) {stage : Stage Unit} {opened : OpenDefinition Unit}
    (precedes : stage.Precedes opened) (finished : List (Definition Unit)) :
    ∃ last : Stage Unit, last.Precedes { opened with fields := field :: opened.fields } ∧
      Draft.Reads legacy word ⟨finished, stage⟩ ⟨finished, last⟩ := by
  obtain @⟨name, isOptional, comma, word, type, typeForm⟩ := form
  have named : Draft.Reads legacy [.word name] ⟨finished, stage⟩
      ⟨finished, .label opened ⟨⟨(), name⟩, false, none⟩⟩ :=
    .single _ (.fieldName rfl (precedes _))
  obtain ⟨earlier, last, rfl, typeRead⟩ :=
    typeForm.readsAfterName finished opened ⟨(), name⟩ isOptional none
  have read := named.append typeRead
  cases comma with
  | false =>
      refine ⟨_, ?_, by simpa [Symbol.optional] using read⟩
      intro symbol
      exact .type
  | true =>
      have ended := read.append (.single (.sign ',') (.comma rfl))
      refine ⟨_, ?_, by simpa [Symbol.optional] using ended⟩
      intro symbol
      exact .comma

theorem SequenceForm.readsFields {word : List Symbol} {fields : List (Field Unit)}
    (form : SequenceForm (FieldForm legacy) word fields) (name : String)
    (finished : List (Definition Unit)) :
    ∃ last : Stage Unit, last.Precedes ⟨(), ⟨(), name⟩, none, fields.reverse⟩ ∧
      Draft.Reads legacy word ⟨finished, .body ⟨(), ⟨(), name⟩, none, []⟩⟩ ⟨finished, last⟩ := by
  induction form with
  | nil =>
      refine ⟨_, ?_, .nil⟩
      intro symbol
      exact .body
  | next _ field inductionHypothesis =>
      obtain ⟨before, precedes, read⟩ := inductionHypothesis
      obtain ⟨last, between, fieldRead⟩ := field.reads precedes finished
      rw [List.reverse_append]
      exact ⟨last, between, read.append fieldRead⟩

theorem DefinitionForm.reads {word : List Symbol} {definition : Definition Unit}
    (form : DefinitionForm legacy word definition) (finished : List (Definition Unit)) :
    Draft.Reads legacy word ⟨finished, .outside⟩ ⟨definition :: finished, .outside⟩ := by
  obtain @⟨name, word, fields, sequence⟩ := form
  have heading : Draft.Reads legacy [.word "type", .word name, .sign '\x7b']
      ⟨finished, .outside⟩ ⟨finished, .body ⟨(), ⟨(), name⟩, none, []⟩⟩ :=
    .cons (.keyword rfl rfl) (.cons (.typeName rfl) (.single (.openBrace rfl)))
  obtain ⟨last, between, read⟩ := sequence.readsFields name finished
  have closed := (heading.append read).append
    (.single (.sign '\x7d') (.closeBrace rfl (between _)))
  rwa [OpenDefinition.close, List.reverse_reverse] at closed

theorem SequenceForm.readsDefinitions {word : List Symbol} {definitions : List (Definition Unit)}
    (form : SequenceForm (DefinitionForm legacy) word definitions) :
    Draft.Reads legacy word Draft.empty ⟨definitions.reverse, .outside⟩ := by
  induction form with
  | nil => exact .nil
  | next _ definition inductionHypothesis =>
      rw [List.reverse_append]
      exact inductionHypothesis.append (definition.reads _)

end StorageSchema
