/-
This file changes the marks of lexemes, and leaves their comments out where they are not wanted. The
reader looks at neither, so it reads the changed lexemes into a document that is changed in the same
way.
-/
import Mathlib.Order.MinMax
import StorageSchema.Proofs.Draft.Step

namespace StorageSchema

variable {Mark Other Result Viewed : Type}

/-- A change of marks preserves unions if it can be made before or after them. -/
def PreservesUnions [Union Mark] [Union Other] (change : Mark → Other) : Prop :=
  ∀ left right, change (left ∪ right) = change left ∪ change right

/-- A comment is left out unless comments are wanted. -/
def commentIf (comments : Bool) (comment : Option String) : Option String :=
  if comments then comment else none

/-- A view changes the marks, and it keeps the comments only if they are wanted. -/
def Field.view (change : Mark → Other) (comments : Bool) (field : Field Mark) : Field Other :=
  ⟨change field.mark, field.name.map change, field.isOptional, field.type.map change,
    commentIf comments field.leadingComment, commentIf comments field.trailingComment⟩

def Definition.view (change : Mark → Other) (comments : Bool) (definition : Definition Mark) :
    Definition Other :=
  ⟨change definition.mark, definition.name.map change,
    definition.fields.map (Field.view change comments),
    commentIf comments definition.leadingComment⟩

def Document.view (change : Mark → Other) (comments : Bool) (document : Document Mark) :
    Document Other :=
  ⟨change document.mark, document.definitions.map (Definition.view change comments)⟩

def Lexeme.view (change : Mark → Other) (comments : Bool) (lexeme : Lexeme Mark) : Lexeme Other :=
  ⟨lexeme.kind, lexeme.text, change lexeme.mark, commentIf comments lexeme.above,
    commentIf comments lexeme.beside⟩

def SyntaxError.view (change : Mark → Other) (comments : Bool) (error : SyntaxError Mark) :
    SyntaxError Other :=
  ⟨error.lexeme.view change comments, error.cause⟩

/-- The outcome of reading is viewed as a result or as an error. -/
def SyntaxError.viewOutcome (change : Mark → Other) (comments : Bool) (view : Result → Viewed) :
    Except (SyntaxError Mark) Result → Except (SyntaxError Other) Viewed
  | .ok result => .ok (view result)
  | .error error => .error (error.view change comments)

/-- A type in progress has no comments to leave out. -/
def Enclosure.map (change : Mark → Other) : Enclosure Mark → Enclosure Other
  | .list keyword => .list (change keyword)
  | .mapKey keyword => .mapKey (change keyword)
  | .mapValue keyword key => .mapValue (change keyword) (key.map change)

def Layer.map (change : Mark → Other) (layer : Layer Mark) : Layer Other :=
  ⟨layer.enclosure.map change, layer.members.map (TypeExpr.map change)⟩

def Surroundings.map (change : Mark → Other) (around : Surroundings Mark) : Surroundings Other :=
  ⟨around.members.map (TypeExpr.map change), around.layers.map (Layer.map change)⟩

def TypeDraft.map (change : Mark → Other) : TypeDraft Mark → TypeDraft Other
  | .empty => .empty
  | .complete item => .complete (item.map change)
  | .bracket item => .bracket (item.map change)
  | .wrapper keyword kind => .wrapper (change keyword) kind
  | .object keyword => .object (change keyword)
  | .namedObject keyword name => .namedObject (change keyword) (name.map change)

/-- Both parts of a type in progress are changed. -/
def TypeDraft.mapBoth (change : Mark → Other) (state : Surroundings Mark × TypeDraft Mark) :
    Surroundings Other × TypeDraft Other :=
  (state.1.map change, state.2.map change)

def OpenDefinition.view (change : Mark → Other) (comments : Bool) (opened : OpenDefinition Mark) :
    OpenDefinition Other :=
  ⟨change opened.keyword, opened.name.map change, commentIf comments opened.leadingComment,
    opened.fields.map (Field.view change comments)⟩

def Label.view (change : Mark → Other) (comments : Bool) (label : Label Mark) : Label Other :=
  ⟨label.name.map change, label.isOptional, commentIf comments label.leadingComment⟩

def Stage.view (change : Mark → Other) (comments : Bool) : Stage Mark → Stage Other
  | .outside => .outside
  | .keyword mark leadingComment => .keyword (change mark) (commentIf comments leadingComment)
  | .heading mark leadingComment name =>
      .heading (change mark) (commentIf comments leadingComment) (name.map change)
  | .body opened => .body (opened.view change comments)
  | .label opened named => .label (opened.view change comments) (named.view change comments)
  | .optionalLabel opened named =>
      .optionalLabel (opened.view change comments) (named.view change comments)
  | .type opened named around draft =>
      .type (opened.view change comments) (named.view change comments) (around.map change)
        (draft.map change)
  | .comma opened field => .comma (opened.view change comments) (field.view change comments)

def Draft.view (change : Mark → Other) (comments : Bool) (draft : Draft Mark) : Draft Other :=
  ⟨draft.finished.map (Definition.view change comments), draft.stage.view change comments⟩

@[simp] theorem commentIf_none (comments : Bool) : commentIf comments none = none := by
  cases comments <;> rfl

mutual

/-- One change of marks after another is a single change. -/
theorem TypeExpr.map_map {Last : Type} (change : Mark → Other) (further : Other → Last) :
    (type : TypeExpr Mark) → (type.map change).map further = type.map (further ∘ change)
  | .scalar _ _ | .string _ _ | .number _ _ | .boolean _ _ | .reference _ => rfl
  | .array _ item | .liveList _ item => by
      simp only [TypeExpr.map, TypeExpr.map_map change further item, Function.comp_apply]
  | .liveMap _ key value => by
      simp only [TypeExpr.map, TypeExpr.map_map change further key,
        TypeExpr.map_map change further value, Function.comp_apply]
  | .union _ members => congrArg (TypeExpr.union _) (TypeExpr.mapAll_mapAll change further members)

theorem TypeExpr.mapAll_mapAll {Last : Type} (change : Mark → Other) (further : Other → Last) :
    (members : List (TypeExpr Mark)) →
      TypeExpr.mapAll further (TypeExpr.mapAll change members) =
        TypeExpr.mapAll (further ∘ change) members
  | [] => rfl
  | member :: rest => by
      rw [TypeExpr.mapAll, TypeExpr.mapAll, TypeExpr.mapAll, TypeExpr.map_map change further member,
        TypeExpr.mapAll_mapAll change further rest]

end

section Types

variable (change : Mark → Other) (comments : Bool)

/-- A union keeps its members in their order. -/
theorem TypeExpr.map_union (mark : Mark) (members : List (TypeExpr Mark)) :
    (TypeExpr.union mark members).map change =
      .union (change mark) (members.map (TypeExpr.map change)) := by
  rw [TypeExpr.map, TypeExpr.mapAll_eq]

theorem Surroundings.expectation_map (around : Surroundings Mark) :
    (around.map change).expectation = around.expectation := by
  rcases around with ⟨members, _ | ⟨⟨_ | _ | _, _⟩, _⟩⟩ <;> rfl

theorem TypeDraft.expectation_map (around : Surroundings Mark) (draft : TypeDraft Mark) :
    (draft.map change).expectation (around.map change) = draft.expectation around := by
  cases draft with
  | complete item => exact around.expectation_map change
  | _ => rfl

theorem TypeDraft.ofLexeme_view (legacy : Bool) (lexeme : Lexeme Mark) :
    TypeDraft.ofLexeme legacy (lexeme.view change comments) =
      SyntaxError.viewOutcome change comments (TypeDraft.map change)
        (TypeDraft.ofLexeme legacy lexeme) := by
  have word : TypeDraft.ofWord legacy (lexeme.view change comments) =
      SyntaxError.viewOutcome change comments (TypeDraft.map change)
        (TypeDraft.ofWord legacy lexeme) := by
    simp only [TypeDraft.ofWord, Lexeme.view]
    cases Word.ofText lexeme.text with
    | legacyScalar kind => cases legacy <;> rfl
    | _ => rfl
  rcases lexeme with ⟨kind, text, mark, above, beside⟩
  cases kind with
  | identifier => exact word
  | _ => rfl

variable {change} [Union Mark] [Union Other] (unions : PreservesUnions change)
include unions

theorem TypeExpr.foldl_mark_map (mark : Mark) (members : List (TypeExpr Mark)) :
    (members.map (TypeExpr.map change)).foldl (fun mark member => mark ∪ member.mark)
        (change mark) =
      change (members.foldl (fun mark member => mark ∪ member.mark) mark) := by
  induction members generalizing mark with
  | nil => rfl
  | cons member rest inductionHypothesis =>
      rw [List.map_cons, List.foldl_cons, List.foldl_cons, TypeExpr.mark_map, ← unions,
        inductionHypothesis]

theorem Surroundings.map_finish (around : Surroundings Mark) (item : TypeExpr Mark) :
    (around.finish item).map change = (around.map change).finish (item.map change) := by
  have listed : (item.map change :: (around.map change).members).reverse =
      (item :: around.members).reverse.map (TypeExpr.map change) := by
    simp [Surroundings.map]
  rw [Surroundings.finish, Surroundings.finish, listed]
  rcases (item :: around.members).reverse with _ | ⟨first, _ | ⟨second, rest⟩⟩
  · rfl
  · rfl
  · have covered := TypeExpr.foldl_mark_map unions first.mark (second :: rest)
    rw [← TypeExpr.mark_map change] at covered
    rw [TypeExpr.map_union, ← covered]
    rfl

theorem TypeDraft.extend_view (around : Surroundings Mark) (item : TypeExpr Mark)
    (lexeme : Lexeme Mark) :
    TypeDraft.extend (around.map change) (item.map change) (lexeme.view change comments) =
      SyntaxError.viewOutcome change comments (TypeDraft.mapBoth change)
        (TypeDraft.extend around item lexeme) := by
  have finished := (around.map_finish unions item).symm
  rcases lexeme with ⟨kind, text, mark, above, beside⟩
  rcases around with ⟨members, layers⟩
  cases layers with
  | nil => cases kind <;> rfl
  | cons layer layers =>
      rcases layer with ⟨enclosure, earlier⟩
      cases enclosure with
      | list keyword =>
          have covered := (unions keyword mark).symm
          cases kind with
          | greaterThan =>
              exact congr (congrArg (fun mark type =>
                Except.ok (_, TypeDraft.complete (.liveList mark type))) covered) finished
          | _ => rfl
      | mapKey keyword =>
          cases kind with
          | comma =>
              exact congrArg (fun type => Except.ok
                (Surroundings.mk [] (⟨.mapValue (change keyword) type, _⟩ :: _), TypeDraft.empty))
                finished
          | _ => rfl
      | mapValue keyword key =>
          have covered := (unions keyword mark).symm
          cases kind with
          | greaterThan =>
              exact congr (congrArg (fun mark type =>
                Except.ok (_, TypeDraft.complete (.liveMap mark _ type))) covered) finished
          | _ => rfl

theorem TypeDraft.add_view (legacy : Bool) (around : Surroundings Mark) (draft : TypeDraft Mark)
    (lexeme : Lexeme Mark) :
    (draft.map change).add legacy (around.map change) (lexeme.view change comments) =
      SyntaxError.viewOutcome change comments (TypeDraft.mapBoth change)
        (draft.add legacy around lexeme) := by
  cases draft with
  | empty =>
      have begun := TypeDraft.ofLexeme_view change comments legacy lexeme
      simp only [TypeDraft.add, TypeDraft.map, begun]
      cases TypeDraft.ofLexeme legacy lexeme <;> rfl
  | complete item => exact TypeDraft.extend_view comments unions around item lexeme
  | bracket item =>
      rw [TypeDraft.add, apply_ite (SyntaxError.viewOutcome change comments _)]
      have covered := unions item.mark lexeme.mark
      rw [← TypeExpr.mark_map change] at covered
      simp only [TypeDraft.map, TypeDraft.add, SyntaxError.viewOutcome, TypeDraft.mapBoth,
        TypeExpr.map, covered]
      rfl
  | wrapper keyword kind =>
      rw [TypeDraft.add, apply_ite (SyntaxError.viewOutcome change comments _)]
      cases kind <;> rfl
  | object keyword =>
      rw [TypeDraft.add, apply_ite (SyntaxError.viewOutcome change comments _)]
      rfl
  | namedObject keyword name =>
      rw [TypeDraft.add, apply_ite (SyntaxError.viewOutcome change comments _)]
      have covered := unions keyword lexeme.mark
      simp only [TypeDraft.map, TypeDraft.add, SyntaxError.viewOutcome, TypeDraft.mapBoth,
        TypeExpr.map, Reference.map, covered]
      rfl

end Types

section Drafts

variable [Union Mark] [Union Other] {change : Mark → Other} (comments : Bool)
  (unions : PreservesUnions change)
include unions

theorem Label.view_field (named : Label Mark) (type : TypeExpr Mark) :
    (named.field type).view change comments =
      (named.view change comments).field (type.map change) := by
  have covered := unions named.name.mark type.mark
  rw [← TypeExpr.mark_map change] at covered
  simp only [Label.field, Field.view, Label.view, covered, commentIf_none]
  rfl

omit [Union Mark] [Union Other] unions in
theorem OpenDefinition.view_addField (opened : OpenDefinition Mark) (field : Field Mark)
    (lexeme : Lexeme Mark) :
    (opened.addField field lexeme).view change comments =
      (opened.view change comments).addField (field.view change comments)
        (lexeme.view change comments) := rfl

theorem Draft.addInBody_view (draft : Draft Mark) (opened : OpenDefinition Mark)
    (lexeme : Lexeme Mark) :
    (draft.view change comments).addInBody (opened.view change comments)
        (lexeme.view change comments) =
      SyntaxError.viewOutcome change comments (Draft.view change comments)
        (draft.addInBody opened lexeme) := by
  rcases lexeme with ⟨kind, text, mark, above, beside⟩
  cases kind with
  | rightBrace =>
      have closed : (opened.view change comments).close (change mark) =
          (opened.close mark).view change comments := by
        simp [OpenDefinition.close, OpenDefinition.view, Definition.view, unions opened.keyword]
      exact congrArg (fun definition =>
        Except.ok (Draft.mk (definition :: draft.finished.map _) Stage.outside)) closed
  | _ => rfl

theorem Draft.addInType_view (legacy : Bool) (draft : Draft Mark) (opened : OpenDefinition Mark)
    (named : Label Mark) (around : Surroundings Mark) (typeDraft : TypeDraft Mark)
    (lexeme : Lexeme Mark) :
    (draft.view change comments).addInType legacy (opened.view change comments)
        (named.view change comments) (around.map change) (typeDraft.map change)
        (lexeme.view change comments) =
      SyntaxError.viewOutcome change comments (Draft.view change comments)
        (draft.addInType legacy opened named around typeDraft lexeme) := by
  have added := TypeDraft.add_view comments unions legacy around typeDraft lexeme
  have goesOn : ∀ outcome : Except (SyntaxError Mark) (Surroundings Mark × TypeDraft Mark),
      (SyntaxError.viewOutcome change comments (TypeDraft.mapBoth change) outcome).map
          (fun next => { draft.view change comments with
            stage := .type (opened.view change comments) (named.view change comments) next.1
              next.2 }) =
        SyntaxError.viewOutcome change comments (Draft.view change comments)
          (outcome.map fun next => { draft with stage := .type opened named next.1 next.2 }) := by
    intro outcome
    cases outcome <;> rfl
  rcases around with ⟨members, layers⟩
  cases typeDraft with
  | complete item =>
      cases layers with
      | nil =>
          let field := named.field ((Surroundings.mk members []).finish item)
          let viewed := (named.view change comments).field
            (((Surroundings.mk members []).map change).finish (item.map change))
          have ended : viewed = field.view change comments := by
            rw [Label.view_field comments unions, Surroundings.map_finish unions]
          have closed := Draft.addInBody_view comments unions draft
            (opened.addField field lexeme) lexeme
          rw [OpenDefinition.view_addField, ← ended] at closed
          rcases lexeme with ⟨kind, text, mark, above, beside⟩
          cases kind with
          | comma =>
              have covered : { viewed with mark := viewed.mark ∪ change mark } =
                  Field.view change comments { field with mark := field.mark ∪ mark } := by
                rw [ended, Field.view, Field.view, unions]
              exact congrArg (fun shown => Except.ok { draft.view change comments with
                stage := .comma (opened.view change comments) shown }) covered
          | identifier | rightBrace => exact closed
          | _ => exact (congrArg _ added).trans (goesOn _)
      | cons layer layers => exact (congrArg _ added).trans (goesOn _)
  | _ => exact (congrArg _ added).trans (goesOn _)

/-- One lexeme is read alike whatever its mark is, and whether or not it has comments. -/
theorem Draft.add_view (legacy : Bool) (draft : Draft Mark) (lexeme : Lexeme Mark) :
    (draft.view change comments).add legacy (lexeme.view change comments) =
      SyntaxError.viewOutcome change comments (Draft.view change comments)
        (draft.add legacy lexeme) := by
  rcases draft with ⟨finished, stage⟩
  cases stage with
  | outside | keyword _ _ | heading _ _ _ | optionalLabel _ _ =>
      simp only [Draft.add, Draft.view, Stage.view,
        apply_ite (SyntaxError.viewOutcome change comments (Draft.view change comments))]
      rfl
  | body opened => exact Draft.addInBody_view comments unions _ opened lexeme
  | label opened named =>
      rcases lexeme with ⟨kind, text, mark, above, beside⟩
      cases kind <;> rfl
  | type opened named around typeDraft =>
      exact Draft.addInType_view comments unions legacy _ opened named around typeDraft lexeme
  | comma opened field =>
      exact Draft.addInBody_view comments unions _ (opened.addField field lexeme) lexeme

theorem Draft.addAll_view (legacy : Bool) (draft : Draft Mark) (lexemes : List (Lexeme Mark)) :
    (draft.view change comments).addAll legacy (lexemes.map (Lexeme.view change comments)) =
      SyntaxError.viewOutcome change comments (Draft.view change comments)
        (draft.addAll legacy lexemes) := by
  induction lexemes generalizing draft with
  | nil => rfl
  | cons lexeme rest inductionHypothesis =>
      rw [Draft.addAll, Draft.addAll, List.map_cons, List.foldlM_cons, List.foldlM_cons,
        Draft.add_view comments unions]
      cases draft.add legacy lexeme with
      | error _ => rfl
      | ok next => exact inductionHypothesis next

omit [Union Mark] [Union Other] unions in
theorem Stage.expectation_view (stage : Stage Mark) :
    (stage.view change comments).expectation = stage.expectation := by
  cases stage with
  | type opened named around typeDraft => exact typeDraft.expectation_map change around
  | _ => rfl

omit [Union Mark] [Union Other] unions in
theorem Draft.finish_view (draft : Draft Mark) (mark : Mark) (ending : Lexeme Mark) :
    (draft.view change comments).finish (change mark) (ending.view change comments) =
      SyntaxError.viewOutcome change comments (Document.view change comments)
        (draft.finish mark ending) := by
  rcases draft with ⟨finished, stage⟩
  cases stage with
  | outside =>
      simp [Draft.view, Stage.view, Draft.finish, SyntaxError.viewOutcome, Document.view]
  | type opened named around typeDraft =>
      exact congrArg (ending.view change comments).refuse (typeDraft.expectation_map change around)
  | _ => rfl

/-- The view of a document is read from the views of its lexemes. -/
theorem Document.ofLexemes_view (legacy : Bool) (mark : Mark) (lexemes : List (Lexeme Mark))
    (ending : Lexeme Mark) :
    Document.ofLexemes legacy (change mark) (lexemes.map (Lexeme.view change comments))
        (ending.view change comments) =
      SyntaxError.viewOutcome change comments (Document.view change comments)
        (Document.ofLexemes legacy mark lexemes ending) := by
  have read := Draft.addAll_view comments unions legacy (Draft.empty : Draft Mark) lexemes
  change (((Draft.empty : Draft Mark).view change comments).addAll legacy _ >>= _) =
    SyntaxError.viewOutcome change comments _ (Draft.addAll legacy Draft.empty lexemes >>= _)
  rw [read]
  cases Draft.addAll legacy Draft.empty lexemes with
  | error _ => rfl
  | ok draft => exact Draft.finish_view comments draft mark ending

end Drafts

/-! ### Steps and runs -/

theorem SyntaxError.viewOutcome_eq_ok_iff {change : Mark → Other} {comments : Bool}
    {view : Result → Viewed} {outcome : Except (SyntaxError Mark) Result} {last : Viewed} :
    SyntaxError.viewOutcome change comments view outcome = .ok last ↔
      ∃ result, outcome = .ok result ∧ view result = last := by
  cases outcome with
  | error _ => simp [SyntaxError.viewOutcome]
  | ok result => simp [SyntaxError.viewOutcome]

/-- If the steps that views take are views of steps, then so are the runs. -/
theorem Lexeme.Run.view_iff {change : Mark → Other} {comments : Bool}
    {step : Lexeme Mark → Result → Result → Prop} {other : Lexeme Other → Viewed → Viewed → Prop}
    {view : Result → Viewed}
    (steps : ∀ lexeme state last, other (lexeme.view change comments) (view state) last ↔
      ∃ next, step lexeme state next ∧ view next = last)
    {lexemes : List (Lexeme Mark)} {state : Result} {last : Viewed} :
    Lexeme.Run other (lexemes.map (Lexeme.view change comments)) (view state) last ↔
      ∃ next, Lexeme.Run step lexemes state next ∧ view next = last := by
  induction lexemes generalizing state with
  | nil =>
      constructor
      · rintro ⟨⟩
        exact ⟨state, .nil, rfl⟩
      · rintro ⟨_, ⟨⟩, rfl⟩
        exact .nil
  | cons lexeme rest inductionHypothesis =>
      constructor
      · rintro (_ | ⟨taken, run⟩)
        obtain ⟨next, own, rfl⟩ := (steps lexeme state _).1 taken
        obtain ⟨found, whole, viewed⟩ := inductionHypothesis.1 run
        exact ⟨found, .cons own whole, viewed⟩
      · rintro ⟨found, _ | ⟨taken, run⟩, viewed⟩
        exact .cons ((steps lexeme state _).2 ⟨_, taken, rfl⟩)
          (inductionHypothesis.2 ⟨found, run, viewed⟩)

section Runs

variable [Union Mark] [Union Other] {legacy comments : Bool} {change : Mark → Other}
  (unions : PreservesUnions change)
include unions

theorem TypeDraft.Step.view_iff (lexeme : Lexeme Mark) (state : Surroundings Mark × TypeDraft Mark)
    (last : Surroundings Other × TypeDraft Other) :
    TypeDraft.Step legacy (lexeme.view change comments) (TypeDraft.mapBoth change state) last ↔
      ∃ next, TypeDraft.Step legacy lexeme state next ∧ TypeDraft.mapBoth change next = last := by
  rcases state with ⟨around, draft⟩
  simp only [TypeDraft.mapBoth, ← TypeDraft.add_eq_ok_iff, TypeDraft.add_view comments unions,
    SyntaxError.viewOutcome_eq_ok_iff]

theorem Draft.Step.view_iff (lexeme : Lexeme Mark) (draft : Draft Mark) (last : Draft Other) :
    Draft.Step legacy (lexeme.view change comments) (draft.view change comments) last ↔
      ∃ next, Draft.Step legacy lexeme draft next ∧ next.view change comments = last := by
  simp only [← Draft.add_eq_ok_iff, Draft.add_view comments unions,
    SyntaxError.viewOutcome_eq_ok_iff]

end Runs

/-! ### Moving spans -/

/-- This function moves both ends of a span. -/
def Span.move (change : Nat → Nat) (span : Span) : Span := ⟨change span.start, change span.stop⟩

/-- A move that keeps the order of the offsets can be made before or after a union. -/
theorem Span.preservesUnions_move {change : Nat → Nat} (increasing : StrictMono change) :
    PreservesUnions (Span.move change) := by
  intro left right
  have nowhere (span : Span) : (span.move change).isNowhere = span.isNowhere := by
    simp [Span.isNowhere, Span.move, increasing.lt_iff_lt]
  rw [Span.union_def, Span.union_def, Span.union, Span.union, nowhere, nowhere,
    apply_ite (Span.move change), apply_ite (Span.move change)]
  simp only [Span.move, increasing.monotone.map_min, increasing.monotone.map_max]

/-- Comments are kept in a view that wants them. -/
theorem Document.view_true {Mark Other : Type} (change : Mark → Other) (document : Document Mark) :
    document.view change true = document.map change := rfl

end StorageSchema
