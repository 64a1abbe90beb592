/-
This file shows that every draft can be completed, and that every sequence of symbols as they are
spelled is that of some text. What has been read is therefore the beginning of a text that is read.
-/
import Mathlib.Logic.Relation
import StorageSchema.Proofs.Draft.Grammar

namespace StorageSchema

variable {legacy : Bool} {State : Type}

/-- One state leads to another if symbols as they are spelled take the steps between them. -/
def Symbol.Leads (step : Lexeme Unit → State → State → Prop) : State → State → Prop :=
  Relation.ReflTransGen fun state next =>
    ∃ symbol : Symbol, symbol.IsSpelled ∧ step symbol.lexeme state next

theorem Symbol.Leads.trans {step : Lexeme Unit → State → State → Prop} {state next last : State}
    (first : Symbol.Leads step state next) (second : Symbol.Leads step next last) :
    Symbol.Leads step state last := Relation.ReflTransGen.trans first second

theorem Symbol.Leads.lift {Other : Type} {step : Lexeme Unit → State → State → Prop}
    {other : Lexeme Unit → Other → Other → Prop} {state last : State}
    (leads : Symbol.Leads step state last) (change : State → Other)
    (lifted : ∀ lexeme state next, step lexeme state next →
      other lexeme (change state) (change next)) :
    Symbol.Leads other (change state) (change last) := by
  induction leads with
  | refl => exact .refl
  | tail _ taken inductionHypothesis =>
      obtain ⟨symbol, spelled, step⟩ := taken
      exact .tail inductionHypothesis ⟨symbol, spelled, lifted _ _ _ step⟩

theorem Symbol.Leads.exists_word {step : Lexeme Unit → State → State → Prop} {state last : State}
    (leads : Symbol.Leads step state last) :
    ∃ word : List Symbol, (∀ symbol ∈ word, symbol.IsSpelled) ∧
      Lexeme.Run step (word.map Symbol.lexeme) state last := by
  induction leads using Relation.ReflTransGen.head_induction_on with
  | refl => exact ⟨[], by simp, .nil⟩
  | head first _ inductionHypothesis =>
      obtain ⟨symbol, spelled, taken⟩ := first
      obtain ⟨word, allSpelled, run⟩ := inductionHypothesis
      exact ⟨symbol :: word, List.forall_mem_cons.2 ⟨spelled, allSpelled⟩, .cons taken run⟩

theorem Symbol.isSpelled_sign {letter : Char} {kind : Token.Kind}
    (sign : Token.punctuation? letter = some kind) : (Symbol.sign letter).IsSpelled := by
  rw [Symbol.IsSpelled, Symbol.sign, sign, String.toList_ofList]
  exact .sign sign

/-- A sign takes a step. -/
theorem Symbol.Leads.sign {step : Lexeme Unit → State → State → Prop} {state next : State}
    (letter : Char) {kind : Token.Kind} (sign : Token.punctuation? letter = some kind)
    (taken : step (Symbol.sign letter).lexeme state next) : Symbol.Leads step state next :=
  .single ⟨.sign letter, Symbol.isSpelled_sign sign, taken⟩

/-- The word `null` takes a step. -/
theorem Symbol.Leads.null {step : Lexeme Unit → State → State → Prop} {state next : State}
    (taken : step (Symbol.word "null").lexeme state next) : Symbol.Leads step state next :=
  .single ⟨.word "null", .identifier (by decide), taken⟩

/-- A name takes a step. -/
theorem Symbol.Leads.name {step : Lexeme Unit → State → State → Prop} {state next : State}
    (taken : step (Symbol.word "A").lexeme state next) : Symbol.Leads step state next :=
  .single ⟨.word "A", .identifier (by decide), taken⟩

/-! ### Every draft can be completed -/

/-- A type that has not begun can be completed. -/
theorem TypeDraft.leads_of_empty (around : Surroundings Unit) :
    Symbol.Leads (TypeDraft.Step legacy) (around, .empty) (around, .complete (.scalar () .null)) :=
  .null (.scalar rfl (.inl rfl))

theorem TypeDraft.leads_of_object (around : Surroundings Unit) :
    Symbol.Leads (TypeDraft.Step legacy) (around, .object ())
      (around, .complete (.reference ⟨(), ⟨(), "A"⟩, true⟩)) :=
  Symbol.Leads.trans (.name (.objectName rfl rfl)) (.sign '>' rfl (.closeObject rfl))

theorem TypeDraft.leads_complete (legacy : Bool) (around : Surroundings Unit)
    (draft : TypeDraft Unit) :
    ∃ (next : Surroundings Unit) (item : TypeExpr Unit),
      Symbol.Leads (TypeDraft.Step legacy) (around, draft) (next, .complete item) := by
  cases draft with
  | empty => exact ⟨around, _, TypeDraft.leads_of_empty around⟩
  | complete item => exact ⟨around, item, .refl⟩
  | bracket item => exact ⟨around, _, .sign ']' rfl (.closeBracket rfl)⟩
  | wrapper keyword kind =>
      have opened : Symbol.Leads (TypeDraft.Step legacy) (around, .wrapper keyword kind)
          (TypeDraft.openWrapper around keyword kind) := .sign '<' rfl (.openAngle rfl)
      cases kind with
      | liveObject => exact ⟨_, _, opened.trans (TypeDraft.leads_of_object around)⟩
      | liveList | liveMap => exact ⟨_, _, opened.trans (TypeDraft.leads_of_empty _)⟩
  | object keyword => exact ⟨around, _, TypeDraft.leads_of_object around⟩
  | namedObject keyword name => exact ⟨around, _, .sign '>' rfl (.closeObject rfl)⟩

/-- After a complete item all the layers around it can be closed. -/
theorem TypeDraft.leads_outermost (legacy : Bool) (layers : List (Layer Unit))
    (members : List (TypeExpr Unit)) (item : TypeExpr Unit) :
    ∃ (others : List (TypeExpr Unit)) (last : TypeExpr Unit),
      Symbol.Leads (TypeDraft.Step legacy) (⟨members, layers⟩, .complete item)
        (⟨others, []⟩, .complete last) := by
  -- What closes a layer completes an item of the union around it, which is why both are general.
  induction layers generalizing members item with
  | nil => exact ⟨members, item, .refl⟩
  | cons layer layers inductionHypothesis =>
      obtain ⟨enclosure, outer⟩ := layer
      have closed : ∃ next : TypeExpr Unit,
          Symbol.Leads (TypeDraft.Step legacy) (⟨members, ⟨enclosure, outer⟩ :: layers⟩,
            .complete item) (⟨outer, layers⟩, .complete next) := by
        cases enclosure with
        | list keyword => exact ⟨_, .sign '>' rfl (.closeList rfl)⟩
        | mapKey keyword =>
            have divided : Symbol.Leads (TypeDraft.Step legacy)
                (⟨members, ⟨.mapKey keyword, outer⟩ :: layers⟩, .complete item)
                (⟨[], ⟨.mapValue keyword (Surroundings.finish ⟨members, _⟩ item), outer⟩ ::
                  layers⟩, .empty) := .sign ',' rfl (.comma rfl)
            have value := divided.trans (TypeDraft.leads_of_empty _)
            exact ⟨_, value.trans (.sign '>' rfl (.closeMap rfl))⟩
        | mapValue keyword key => exact ⟨_, .sign '>' rfl (.closeMap rfl)⟩
      obtain ⟨next, closed⟩ := closed
      obtain ⟨others, last, rest⟩ := inductionHypothesis outer next
      exact ⟨others, last, closed.trans rest⟩

/-- The closing brace ends a document wherever another field could begin. -/
theorem Draft.leads_of_between {stage : Stage Unit} {opened : OpenDefinition Unit}
    (between : stage.Between (Symbol.sign '\x7d').lexeme opened)
    (finished : List (Definition Unit)) :
    ∃ last : List (Definition Unit),
      Symbol.Leads (Draft.Step legacy) ⟨finished, stage⟩ ⟨last, .outside⟩ :=
  ⟨opened.close () :: finished, .sign '\x7d' rfl (.closeBrace rfl between)⟩

theorem Draft.leads_of_type (finished : List (Definition Unit)) (opened : OpenDefinition Unit)
    (named : Label Unit) (around : Surroundings Unit) (draft : TypeDraft Unit) :
    ∃ last : List (Definition Unit), Symbol.Leads (Draft.Step legacy)
      ⟨finished, .type opened named around draft⟩ ⟨last, .outside⟩ := by
  obtain ⟨next, item, completed⟩ := TypeDraft.leads_complete legacy around draft
  obtain ⟨members, last, closed⟩ := TypeDraft.leads_outermost legacy next.layers next.members item
  have inDraft : Symbol.Leads (Draft.Step legacy) ⟨finished, .type opened named around draft⟩
      ⟨finished, .type opened named ⟨members, []⟩ (.complete last)⟩ :=
    (completed.trans closed).lift
      (fun state => (⟨finished, .type opened named state.1 state.2⟩ : Draft Unit))
      fun _ _ _ step => .type step
  obtain ⟨others, ended⟩ := Draft.leads_of_between .type finished
  exact ⟨others, inDraft.trans ended⟩

/-- Every draft can be completed. -/
theorem Draft.leads_outside (legacy : Bool) (draft : Draft Unit) :
    ∃ last : List (Definition Unit), Symbol.Leads (Draft.Step legacy) draft ⟨last, .outside⟩ := by
  obtain ⟨finished, stage⟩ := draft
  have heading : ∀ keyword comment name, ∃ last : List (Definition Unit),
      Symbol.Leads (Draft.Step legacy) ⟨finished, .heading keyword comment name⟩
        ⟨last, .outside⟩ := by
    intro keyword comment name
    obtain ⟨last, closed⟩ := Draft.leads_of_between .body finished
    exact ⟨last, Symbol.Leads.trans (.sign '\x7b' rfl (.openBrace rfl)) closed⟩
  cases stage with
  | outside => exact ⟨finished, .refl⟩
  | keyword keyword comment =>
      obtain ⟨last, closed⟩ := heading keyword comment ⟨(), "A"⟩
      exact ⟨last, Symbol.Leads.trans (.name (.typeName rfl)) closed⟩
  | heading keyword comment name => exact heading keyword comment name
  | body opened => exact Draft.leads_of_between .body finished
  | label opened named =>
      obtain ⟨last, closed⟩ :=
        Draft.leads_of_type finished opened named Surroundings.outermost .empty
      exact ⟨last, Symbol.Leads.trans (.sign ':' rfl (.colon rfl)) closed⟩
  | optionalLabel opened named =>
      obtain ⟨last, closed⟩ :=
        Draft.leads_of_type finished opened named Surroundings.outermost .empty
      exact ⟨last, Symbol.Leads.trans (.sign ':' rfl (.optionalColon rfl)) closed⟩
  | type opened named around draft => exact Draft.leads_of_type finished opened named around draft
  | comma opened field => exact Draft.leads_of_between .comma finished

/-! ### Every spelled sequence has a text -/

/-- A text is written with a space after each symbol. -/
def Symbol.spaced (symbols : List Symbol) : List Char :=
  symbols.flatMap fun symbol => symbol.text.toList ++ [' ']

theorem Symbol.scan_spaced {symbols : List Symbol}
    (spelled : ∀ symbol ∈ symbols, symbol.IsSpelled) :
    Symbol.scan (Symbol.spaced symbols) = symbols := by
  induction symbols with
  | nil => exact Symbol.scan_nil
  | cons symbol rest inductionHypothesis =>
      obtain ⟨first, others⟩ := List.forall_mem_cons.1 spelled
      have divided : Symbol.spaced (symbol :: rest) =
          symbol.text.toList ++ ' ' :: Symbol.spaced rest := by
        simp [Symbol.spaced]
      have delimits : Token.Delimits (' ' :: Symbol.spaced rest) := by
        simp [Token.Delimits, show Token.continuesName ' ' = false by decide]
      rw [divided, Symbol.scan_spelled first fun _ => delimits, Symbol.scan_space (by decide),
        inductionHypothesis others, String.ofList_toList]

/-- What is read consists of symbols that documents can contain. -/
theorem Draft.Reads.isSolid {word : List Symbol} {draft last : Draft Unit}
    (read : Draft.Reads legacy word draft last) : ∀ symbol ∈ word, symbol.kind.IsSolid := by
  induction word generalizing draft with
  | nil => simp
  | cons symbol rest inductionHypothesis =>
      rcases read with _ | ⟨step, read⟩
      exact List.forall_mem_cons.2 ⟨step.isSolid, inductionHypothesis read⟩

/-- A spelled sequence of symbols that is read is that of a text that is read. -/
theorem Document.exists_text_of_reads {word : List Symbol} {finished : List (Definition Unit)}
    (spelled : ∀ symbol ∈ word, symbol.IsSpelled)
    (read : Draft.Reads legacy word Draft.empty ⟨finished, .outside⟩) :
    ∃ text document, Document.ofText legacy text = .ok document ∧
      Symbol.ofText text = word ++ [.ending] := by
  have inside : Symbol.inside (String.ofList (Symbol.spaced word)) = word := by
    rw [Symbol.inside, String.toList_ofList, Symbol.scan_spaced spelled, List.filter_eq_self]
    intro symbol present
    have solid := read.isSolid symbol present
    simp [Symbol.isSignificant, solid.1, solid.2.1]
  have outlined := Document.outline_ofText legacy (String.ofList (Symbol.spaced word))
  rw [inside, Document.ofSymbols_eq_ok_iff.2 ⟨finished, read, rfl⟩] at outlined
  cases written : Document.ofText legacy (String.ofList (Symbol.spaced word)) with
  | error _ =>
      rw [written] at outlined
      cases outlined
  | ok document => exact ⟨_, document, written, by rw [Symbol.ofText_eq, inside]⟩

/-- What has been read is the beginning of a text that is read. -/
theorem Draft.exists_text_of_reads {word : List Symbol} {draft : Draft Unit}
    (spelled : ∀ symbol ∈ word, symbol.kind.IsSolid → symbol.IsSpelled)
    (read : Draft.Reads legacy word Draft.empty draft) :
    ∃ text document, Document.ofText legacy text = .ok document ∧
      word <+: Symbol.ofText text := by
  obtain ⟨last, leads⟩ := Draft.leads_outside legacy draft
  obtain ⟨rest, restSpelled, restRead⟩ := leads.exists_word
  have whole : ∀ symbol ∈ word ++ rest, symbol.IsSpelled := by
    intro symbol present
    rcases List.mem_append.1 present with early | late
    · exact spelled symbol early (read.isSolid symbol early)
    · exact restSpelled symbol late
  obtain ⟨text, document, written, symbols⟩ :=
    Document.exists_text_of_reads whole (read.append restRead)
  refine ⟨text, document, written, ?_⟩
  rw [symbols, List.append_assoc]
  exact List.prefix_append word _

end StorageSchema
