/-
This file shows that the comments of a document are those of its text by the rule for lines, each
used once.
-/
import StorageSchema.Proofs.Check.Acceptance
import StorageSchema.Proofs.Comments.Slots
import StorageSchema.Proofs.Comments.TextLines
import StorageSchema.Proofs.Draft.Grammar
import StorageSchema.Proofs.Draft.Placement

namespace StorageSchema

variable {legacy : Bool}

/-- A field has a slot above its first token and one beside its last. -/
def Field.slots (field : Field Span) : List Slot :=
  [.above field.mark.start field.leadingComment, .beside field.mark.stop field.trailingComment]

def Definition.slots (definition : Definition Span) : List Slot :=
  .above definition.mark.start definition.leadingComment :: definition.fields.flatMap Field.slots

/-- These are the slots of a document in the order of the text. -/
def Document.slots (document : Document Span) : List Slot :=
  document.definitions.flatMap Definition.slots

def OpenDefinition.slots (opened : OpenDefinition Span) : List Slot :=
  .above opened.keyword.start opened.leadingComment :: opened.fields.reverse.flatMap Field.slots

def Label.slots (named : Label Span) : List Slot :=
  [.above named.name.mark.start named.leadingComment]

/-- The slots of a stage leave out the one beside a field that may go on. -/
def Stage.slots : Stage Span → List Slot
  | .outside => []
  | .keyword mark comment | .heading mark comment _ => [.above mark.start comment]
  | .body opened => opened.slots
  | .label opened named | .optionalLabel opened named | .type opened named _ _ =>
      opened.slots ++ named.slots
  | .comma opened field => opened.slots ++ [.above field.mark.start field.leadingComment]

def Draft.slots (draft : Draft Span) : List Slot :=
  draft.finished.reverse.flatMap Definition.slots ++ draft.stage.slots

theorem OpenDefinition.slots_addField (opened : OpenDefinition Span) (field : Field Span)
    (lexeme : Lexeme Span) :
    (opened.addField field lexeme).slots =
      opened.slots ++ [.above field.mark.start field.leadingComment,
        .beside field.mark.stop lexeme.beside] := by
  simp [OpenDefinition.slots, OpenDefinition.addField, Field.slots]

/-- A definition that stands between two fields has got at most the slot beside the last one. -/
theorem Stage.slots_between {stop : Nat} {stage : Stage Span} {opened : OpenDefinition Span}
    {lexeme : Lexeme Span} (placed : stage.Placed stop) (between : stage.Between lexeme opened) :
    opened.slots.Sublist (stage.slots ++ [.beside stop lexeme.beside]) := by
  cases between with
  | body => exact List.sublist_append_left _ _
  | comma =>
      rw [OpenDefinition.slots_addField, placed.2]
      simp [Stage.slots]
  | type =>
      obtain ⟨-, name, around, typeDraft⟩ := placed
      obtain ⟨-, starts, stops⟩ := Label.placed_field name around typeDraft
      rw [OpenDefinition.slots_addField, starts, stops]
      simp [Stage.slots, Label.slots, Label.field]

theorem OpenDefinition.slots_close {stop : Nat} {opened : OpenDefinition Span} {brace : Span}
    (keyword : opened.keyword.Within 0 stop) (after : stop ≤ brace.start)
    (solid : brace.start ≤ brace.stop) : (opened.close brace).slots = opened.slots := by
  have starts := (keyword.union_later after solid).1
  simp [OpenDefinition.close, Definition.slots, OpenDefinition.slots, starts]

/-- One lexeme brings no slots but the one beside the lexeme before it and the one above it. -/
theorem Draft.Step.slots {stop : Nat} {lexeme : Lexeme Span} {draft next : Draft Span}
    (step : Draft.Step legacy lexeme draft next) (placed : draft.stage.Placed stop)
    (after : stop ≤ lexeme.mark.start) (solid : lexeme.mark.start ≤ lexeme.mark.stop) :
    next.slots.Sublist (draft.slots ++ lexeme.slotsBefore stop) := by
  have unchanged : next.slots = draft.slots →
      next.slots.Sublist (draft.slots ++ lexeme.slotsBefore stop) := by
    intro same
    rw [same]
    exact List.sublist_append_left _ _
  cases step with
  | keyword _ _ =>
      rw [Draft.slots, Draft.slots, List.append_assoc]
      exact (List.Sublist.refl _).append (List.sublist_append_right _ _)
  | typeName _ | question _ | colon _ | optionalColon _ | type _ => exact unchanged rfl
  | openBrace _ => exact unchanged rfl
  | @closeBrace finished stage opened isBrace between =>
      have closed := OpenDefinition.slots_close (placed.between between) after solid
      have joined := Stage.slots_between placed between
      have next : Draft.slots ⟨opened.close lexeme.mark :: finished, .outside⟩ =
          finished.reverse.flatMap Definition.slots ++ opened.slots := by
        simp [Draft.slots, Stage.slots, closed]
      rw [next, Draft.slots, Lexeme.slotsBefore, if_neg (by simp [isBrace]), List.append_assoc,
        ← List.append_assoc _ [_]]
      exact (List.Sublist.refl _).append (joined.trans (List.sublist_append_left _ _))
  | @fieldName finished stage opened isName between =>
      have joined := Stage.slots_between placed between
      rw [Draft.slots, Draft.slots, Lexeme.slotsBefore, if_neg (by simp [isName]),
        List.append_assoc, ← List.append_assoc _ [_]]
      exact (List.Sublist.refl _).append (joined.append (List.Sublist.refl _))
  | comma _ =>
      obtain ⟨-, name, around, typeDraft⟩ := placed
      obtain ⟨field, starts, -⟩ := Label.placed_field name around typeDraft
      have same := (field.union_later after solid).1.trans starts
      refine unchanged ?_
      rw [Draft.slots, Stage.slots, same]
      rfl

/-- The lexemes of a text follow one another. -/
def Lexeme.Ordered : Nat → List (Lexeme Span) → Prop
  | _, [] => True
  | low, lexeme :: rest =>
      low ≤ lexeme.mark.start ∧ lexeme.mark.start ≤ lexeme.mark.stop ∧
        Lexeme.Ordered lexeme.mark.stop rest

theorem Lexeme.ordered_ofTokens {low : Nat} {tokens : List Token}
    (ordered : Token.Ordered low tokens) (margin : Margin) :
    Lexeme.Ordered low (Lexeme.ofTokens margin tokens) := by
  induction tokens generalizing low margin with
  | nil => exact trivial
  | cons token rest inductionHypothesis =>
      obtain ⟨below, solid, others⟩ := ordered
      cases kept : token.isSignificant with
      | false =>
          rw [Lexeme.ofTokens_insignificant _ rest kept]
          exact inductionHypothesis (others.mono (below.trans solid.le)) _
      | true =>
          rw [Lexeme.ofTokens_significant _ rest kept]
          exact ⟨below, solid.le, inductionHypothesis others _⟩

/-- A run brings no slots but those of its lexemes. -/
theorem Draft.slots_of_run {stop : Nat} {lexemes : List (Lexeme Span)} {draft last : Draft Span}
    (run : Lexeme.Run (Draft.Step legacy) lexemes draft last) (placed : draft.stage.Placed stop)
    (ordered : Lexeme.Ordered stop lexemes) :
    last.slots.Sublist (draft.slots ++ Lexeme.slotsAfter stop lexemes) := by
  -- Each step moves the place where the draft stops to the end of its lexeme.
  induction run generalizing stop with
  | nil => exact List.sublist_append_left _ _
  | @cons lexeme rest draft next last step _ inductionHypothesis =>
      obtain ⟨after, solid, others⟩ := ordered
      have later := inductionHypothesis (step.placed placed after solid) others
      have first := (step.slots placed after solid).append
        (List.Sublist.refl (Lexeme.slotsAfter lexeme.mark.stop rest))
      rw [List.append_assoc] at first
      exact later.trans first

/-- The slots of a document are slots of its lexemes. -/
theorem Document.slots_sublist {text : String} {document : Document Span}
    (read : Document.ofText legacy text = .ok document) :
    document.slots.Sublist (Lexeme.slots (Lexeme.ofText text)) := by
  obtain ⟨finished, run, rfl⟩ := Document.ofLexemes_eq_ok_iff.1 read
  have ordered := Lexeme.ordered_ofTokens (Token.ordered_scan 0 text.toList) Margin.opening
  change Lexeme.Ordered 0 (Lexeme.ofText text) at ordered
  generalize Lexeme.ofText text = lexemes at run ordered
  have slots : Document.slots ⟨⟨0, text.utf8ByteSize⟩, finished.reverse⟩ =
      Draft.slots ⟨finished, .outside⟩ := (List.append_nil _).symm
  rw [slots]
  cases run with
  | nil => exact List.nil_sublist _
  | cons step rest =>
      obtain ⟨-, solid, others⟩ := ordered
      have outside : Draft.empty.stage.Placed 0 := trivial
      have own := step.placed outside (Nat.zero_le _) solid
      cases step with
      | keyword _ _ => exact Draft.slots_of_run rest own others
      | closeBrace _ between | fieldName _ between => cases between

/-- Fewer slots use fewer tokens. -/
theorem Slot.exists_used_of_sublist {tokens : List Token} {slots all : List Slot}
    {used : List (List Token)} (sublist : slots.Sublist all)
    (holds : List.Forall₂ (Slot.Holds tokens) all used) :
    ∃ fewer : List (List Token), List.Forall₂ (Slot.Holds tokens) slots fewer ∧
      fewer.flatten.Sublist used.flatten := by
  induction sublist generalizing used with
  | slnil => exact ⟨[], .nil, List.nil_sublist _⟩
  | cons slot _ inductionHypothesis =>
      rcases holds with _ | ⟨_, holds⟩
      obtain ⟨fewer, own, within⟩ := inductionHypothesis holds
      exact ⟨fewer, own, within.trans (List.sublist_append_right _ _)⟩
  | cons_cons slot _ inductionHypothesis =>
      rcases holds with _ | ⟨first, holds⟩
      obtain ⟨fewer, own, within⟩ := inductionHypothesis holds
      exact ⟨_ :: fewer, .cons first own, (List.Sublist.refl _).append within⟩

/-- The slots of a document have their comments by the rule, and these come from the text in their
order. -/
theorem Document.exists_used {legacy : Bool} {text : String} {document : Document Span}
    (read : Document.ofText legacy text = .ok document) :
    ∃ used : List (List Token),
      List.Forall₂ (Slot.Holds (Token.ofText text)) document.slots used ∧
      used.flatten.Sublist (Token.ofText text) := by
  have follow : Token.Follow ([] ++ Token.ofText text) := Token.isChain_scan 0 text.toList
  obtain ⟨all, holds, within⟩ := Lexeme.holds_slots (List.forall_mem_nil _) follow
  obtain ⟨used, own, fewer⟩ := Slot.exists_used_of_sublist (Document.slots_sublist read) holds
  exact ⟨used, own, fewer.trans within⟩

/-- The comments of a document that is read are attached by the rule for lines. Each of them is used
in one place only, and the lines of the rule are those of the text. -/
theorem Document.comments_attached (legacy : Bool) (text : String) (document : Document Span)
    (read : Document.ofText legacy text = .ok document) :
    ∃ used : List (List Token),
      List.Forall₂ (Slot.Holds (Token.ofText text)) document.slots used ∧
      used.flatten.Sublist (Token.ofText text) ∧ used.flatten.Nodup ∧
      (Token.lines (Token.ofText text)).map (List.map Token.symbol) =
        (text.toList.splitOn '\n').map Symbol.scan := by
  obtain ⟨used, holds, sublist⟩ := Document.exists_used read
  have distinct : (Token.ofText text).Nodup :=
    (Token.ordered_scan 0 text.toList).pairwise.imp fun before same => by
      rw [same] at before
      exact Nat.lt_irrefl _ before
  exact ⟨used, holds, sublist, distinct.sublist sublist, Token.lines_scan 0 text.toList⟩

/-- Here a definition has two comments above it, and its field has one above it and one beside
it. -/
theorem Document.comments_attached_of_block :
    ∃ document,
      Document.ofText false "# a\n# b\ntype A \x7b\n  # c\n  x: null, # d\n\x7d" = .ok document ∧
      document.slots = [.above 8 (some "a\nb"), .above 25 (some "c"), .beside 33 (some "d")] ∧
      ∃ used : List (List Token),
        List.Forall₂ (Slot.Holds (Token.ofText
          "# a\n# b\ntype A \x7b\n  # c\n  x: null, # d\n\x7d")) document.slots used ∧
        used.flatten.Nodup := by
  apply Document.exists_of_text Document.slots
    [.above 8 (some "a\nb"), .above 25 (some "c"), .beside 33 (some "d")]
  · decide +kernel
  · intro document read slots
    obtain ⟨used, holds, -, distinct, -⟩ := Document.comments_attached false _ document read
    exact ⟨slots, used, holds, distinct⟩

end StorageSchema
