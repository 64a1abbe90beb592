/-
This file leaves the marks out of documents, and the comments too where they are not wanted. The
reader looks at neither, so it reads the outlines of lexemes into the outline of a document.
-/
import StorageSchema.Proofs.Draft.View

namespace StorageSchema

variable {Mark Other Result Outlined : Type}

/-- An outline has no marks, and so there is one union of them. -/
instance instUnionOfOutlines : Union Unit := ⟨fun _ _ => ()⟩

/-- The outline of a lexeme keeps its kind and its text. -/
def Lexeme.outline (comments : Bool) (lexeme : Lexeme Mark) : Lexeme Unit :=
  ⟨lexeme.kind, lexeme.text, (), commentIf comments lexeme.above, commentIf comments lexeme.beside⟩

/-- A type has no comments to leave out. -/
def TypeExpr.outline (type : TypeExpr Mark) : TypeExpr Unit := type.map fun _ => ()

def Name.outline (name : Name Mark) : Name Unit := name.map fun _ => ()

def Field.outline (comments : Bool) (field : Field Mark) : Field Unit :=
  ⟨(), field.name.outline, field.isOptional, field.type.outline,
    commentIf comments field.leadingComment, commentIf comments field.trailingComment⟩

def Definition.outline (comments : Bool) (definition : Definition Mark) : Definition Unit :=
  ⟨(), definition.name.outline, definition.fields.map (Field.outline comments),
    commentIf comments definition.leadingComment⟩

/-- The outline of a document is what it says, wherever that stands in the text. -/
def Document.outline (comments : Bool) (document : Document Mark) : Document Unit :=
  ⟨(), document.definitions.map (Definition.outline comments)⟩

/-- Two errors have the same outline if the same lexeme is refused for the same reason. -/
def SyntaxError.outline (comments : Bool) (error : SyntaxError Mark) : SyntaxError Unit :=
  ⟨error.lexeme.outline comments, error.cause⟩

/-- The outcome of reading is a result with an outline or an error with one. -/
def SyntaxError.outlineOutcome (comments : Bool) (outline : Result → Outlined) :
    Except (SyntaxError Mark) Result → Except (SyntaxError Unit) Outlined
  | .ok result => .ok (outline result)
  | .error error => .error (error.outline comments)

def Enclosure.outline : Enclosure Mark → Enclosure Unit
  | .list _ => .list ()
  | .mapKey _ => .mapKey ()
  | .mapValue _ key => .mapValue () key.outline

def Layer.outline (layer : Layer Mark) : Layer Unit :=
  ⟨layer.enclosure.outline, layer.members.map TypeExpr.outline⟩

def Surroundings.outline (around : Surroundings Mark) : Surroundings Unit :=
  ⟨around.members.map TypeExpr.outline, around.layers.map Layer.outline⟩

def TypeDraft.outline : TypeDraft Mark → TypeDraft Unit
  | .empty => .empty
  | .complete item => .complete item.outline
  | .bracket item => .bracket item.outline
  | .wrapper _ kind => .wrapper () kind
  | .object _ => .object ()
  | .namedObject _ name => .namedObject () name.outline

def OpenDefinition.outline (comments : Bool) (opened : OpenDefinition Mark) :
    OpenDefinition Unit :=
  ⟨(), opened.name.outline, commentIf comments opened.leadingComment,
    opened.fields.map (Field.outline comments)⟩

def Label.outline (comments : Bool) (label : Label Mark) : Label Unit :=
  ⟨label.name.outline, label.isOptional, commentIf comments label.leadingComment⟩

def Stage.outline (comments : Bool) : Stage Mark → Stage Unit
  | .outside => .outside
  | .keyword _ leadingComment => .keyword () (commentIf comments leadingComment)
  | .heading _ leadingComment name => .heading () (commentIf comments leadingComment) name.outline
  | .body opened => .body (opened.outline comments)
  | .label opened named => .label (opened.outline comments) (named.outline comments)
  | .optionalLabel opened named =>
      .optionalLabel (opened.outline comments) (named.outline comments)
  | .type opened named around draft =>
      .type (opened.outline comments) (named.outline comments) around.outline draft.outline
  | .comma opened field => .comma (opened.outline comments) (field.outline comments)

def Draft.outline (comments : Bool) (draft : Draft Mark) : Draft Unit :=
  ⟨draft.finished.map (Definition.outline comments), draft.stage.outline comments⟩

/-- There is one union of the marks of outlines, and so it is preserved. -/
theorem preservesUnions_outline [Union Mark] : PreservesUnions fun _ : Mark => () :=
  fun _ _ => rfl

/-- A union keeps the outlines of its members. -/
theorem TypeExpr.outline_union (mark : Mark) (members : List (TypeExpr Mark)) :
    (TypeExpr.union mark members).outline = .union () (members.map TypeExpr.outline) :=
  TypeExpr.map_union (fun _ => ()) mark members

/-- The outline of a type does not depend on its marks. -/
theorem TypeExpr.outline_map (change : Mark → Other) (type : TypeExpr Mark) :
    (type.map change).outline = type.outline := TypeExpr.map_map change _ type

/-- The outline of a document does not depend on its marks. -/
theorem Document.outline_map (change : Mark → Other) (document : Document Mark) :
    (document.map change).outline true = document.outline true := by
  have field : Field.outline true ∘ Field.map change = Field.outline true := by
    funext field
    rw [Function.comp_apply, Field.outline, Field.map, TypeExpr.outline_map]
    rfl
  have definition : Definition.outline true ∘ Definition.map change = Definition.outline true := by
    funext definition
    rw [Function.comp_apply, Definition.outline, Definition.map, List.map_map, field]
    rfl
  rw [Document.outline, Document.map, List.map_map, definition]
  rfl

/-! ### Outlines as views -/

theorem SyntaxError.outlineOutcome_eq_view (comments : Bool) (outline : Result → Outlined)
    (outcome : Except (SyntaxError Mark) Result) :
    SyntaxError.outlineOutcome comments outline outcome =
      SyntaxError.viewOutcome (fun _ => ()) comments outline outcome := by
  cases outcome <;> rfl

theorem Layer.outline_eq_map : (Layer.outline : Layer Mark → Layer Unit) = Layer.map fun _ => () := by
  funext layer
  rcases layer with ⟨_ | _ | _, members⟩ <;> rfl

theorem TypeDraft.outline_eq_map (draft : TypeDraft Mark) :
    draft.outline = draft.map fun _ => () := by
  cases draft <;> rfl

theorem Surroundings.outline_eq_map (around : Surroundings Mark) :
    around.outline = around.map fun _ => () := by
  rw [Surroundings.outline, Layer.outline_eq_map]
  rfl

theorem Draft.outline_eq_view (comments : Bool) :
    (Draft.outline comments : Draft Mark → Draft Unit) = Draft.view (fun _ => ()) comments := by
  funext draft
  rcases draft with ⟨finished, stage⟩
  cases stage with
  | type opened named around typeDraft =>
      rw [Draft.outline, Stage.outline, Surroundings.outline_eq_map, TypeDraft.outline_eq_map]
      rfl
  | _ => rfl

/-- One lexeme is read alike whatever its marks and its comments are. -/
theorem Draft.add_outline [Union Mark] (legacy comments : Bool) (draft : Draft Mark)
    (lexeme : Lexeme Mark) :
    (draft.outline comments).add legacy (lexeme.outline comments) =
      SyntaxError.outlineOutcome comments (Draft.outline comments) (draft.add legacy lexeme) := by
  rw [SyntaxError.outlineOutcome_eq_view, Draft.outline_eq_view]
  exact Draft.add_view comments preservesUnions_outline legacy draft lexeme

theorem Draft.addAll_outline [Union Mark] (legacy comments : Bool) (draft : Draft Mark)
    (lexemes : List (Lexeme Mark)) :
    (draft.outline comments).addAll legacy (lexemes.map (Lexeme.outline comments)) =
      SyntaxError.outlineOutcome comments (Draft.outline comments)
        (draft.addAll legacy lexemes) := by
  rw [SyntaxError.outlineOutcome_eq_view, Draft.outline_eq_view]
  exact Draft.addAll_view comments preservesUnions_outline legacy draft lexemes

/-- The outline of a document is read from the outlines of its lexemes. -/
theorem Document.ofLexemes_outline [Union Mark] (legacy comments : Bool) (mark : Mark)
    (lexemes : List (Lexeme Mark)) (ending : Lexeme Mark) :
    Document.ofLexemes legacy () (lexemes.map (Lexeme.outline comments))
        (ending.outline comments) =
      SyntaxError.outlineOutcome comments (Document.outline comments)
        (Document.ofLexemes legacy mark lexemes ending) := by
  rw [SyntaxError.outlineOutcome_eq_view]
  exact Document.ofLexemes_view comments preservesUnions_outline legacy mark lexemes ending

/-- A text is read if the outlines of its lexemes are. -/
theorem Document.exists_of_outline {legacy comments : Bool} {text : String} {tree : Document Unit}
    (read : Document.ofLexemes legacy () ((Lexeme.ofText text).map (Lexeme.outline comments))
      ((Lexeme.endOf text).outline comments) = .ok tree) :
    ∃ document, Document.ofText legacy text = .ok document ∧ document.outline comments = tree := by
  rw [Document.ofLexemes_outline legacy comments ⟨0, text.utf8ByteSize⟩] at read
  change SyntaxError.outlineOutcome comments _ (Document.ofText legacy text) = _ at read
  cases found : Document.ofText legacy text with
  | error _ =>
      rw [found] at read
      cases read
  | ok document =>
      rw [found] at read
      exact ⟨document, rfl, Except.ok.inj read⟩

end StorageSchema
