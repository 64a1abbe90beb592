/-
This file compares reading with and without the legacy spellings of scalars. Both ways of reading
take the same steps up to the first legacy spelling, and a run with them is a run without them over
lexemes that have the keywords in their place.
-/
import StorageSchema.Document.Modern
import StorageSchema.Proofs.Document.Cover
import StorageSchema.Proofs.Draft.Failure
import StorageSchema.Proofs.Word

namespace StorageSchema

variable {Mark : Type} {legacy : Bool}

/-! ### The scalars of a draft -/

theorem Node.scalar?_eq_some_iff {node : Node Mark} {mark : Mark} {kind : Scalar} :
    node.scalar? = some (mark, kind) ↔ node = .type (.scalar mark kind) := by
  constructor
  · intro found
    unfold Node.scalar? at found
    split at found <;> cases found
    rfl
  · rintro rfl
    rfl

@[simp] theorem TypeExpr.scalars_scalar (mark : Mark) (kind : Scalar) :
    (TypeExpr.scalar mark kind).scalars = [(mark, kind)] := rfl

@[simp] theorem TypeExpr.scalars_liveList (mark : Mark) (item : TypeExpr Mark) :
    (TypeExpr.liveList mark item).scalars = item.scalars := rfl

@[simp] theorem TypeExpr.scalars_liveMap (mark : Mark) (key value : TypeExpr Mark) :
    (TypeExpr.liveMap mark key value).scalars = key.scalars ++ value.scalars := by
  change ((key.subexpressions ++ value.subexpressions).flatMap ownNodes).filterMap Node.scalar? = _
  rw [List.flatMap_append, List.filterMap_append]
  rfl

@[simp] theorem TypeExpr.scalars_union (mark : Mark) (members : List (TypeExpr Mark)) :
    (TypeExpr.union mark members).scalars = members.flatMap TypeExpr.scalars := by
  change ((subexpressionsAll members).flatMap ownNodes).filterMap Node.scalar? = _
  rw [TypeExpr.flatMap_subexpressionsAll, List.flatMap_map, List.filterMap_flatMap]
  rfl

/-- The scalars of a definition are those of the types of its fields. -/
def Definition.scalars (definition : Definition Mark) : List (Mark × Scalar) :=
  definition.fields.flatMap fun field => field.type.scalars

theorem Document.scalars_eq (document : Document Mark) :
    document.scalars = document.definitions.flatMap Definition.scalars := by
  have inDefinition (definition : Definition Mark) :
      definition.nodes.filterMap Node.scalar? = definition.scalars := by
    change (definition.fields.flatMap Field.nodes).filterMap Node.scalar? = _
    rw [List.filterMap_flatMap]
    rfl
  change (document.definitions.flatMap Definition.nodes).filterMap Node.scalar? = _
  rw [List.filterMap_flatMap]
  exact List.flatMap_congr fun definition _ => inDefinition definition

/-- Only the key of a map can have been read as far as an enclosure reaches. -/
@[simp] def Enclosure.scalars : Enclosure Mark → List (Mark × Scalar)
  | .list _ | .mapKey _ => []
  | .mapValue _ key => key.scalars

@[simp] def Layer.scalars (layer : Layer Mark) : List (Mark × Scalar) :=
  layer.members.reverse.flatMap TypeExpr.scalars ++ layer.enclosure.scalars

@[simp] def Surroundings.scalars (around : Surroundings Mark) : List (Mark × Scalar) :=
  around.layers.reverse.flatMap Layer.scalars ++ around.members.reverse.flatMap TypeExpr.scalars

@[simp] def TypeDraft.scalars : TypeDraft Mark → List (Mark × Scalar)
  | .complete item | .bracket item => item.scalars
  | .empty | .wrapper _ _ | .object _ | .namedObject _ _ => []

def OpenDefinition.scalars (opened : OpenDefinition Mark) : List (Mark × Scalar) :=
  opened.fields.reverse.flatMap fun field => field.type.scalars

@[simp] def Stage.scalars : Stage Mark → List (Mark × Scalar)
  | .outside | .keyword _ _ | .heading _ _ _ => []
  | .body opened | .label opened _ | .optionalLabel opened _ => opened.scalars
  | .type opened _ around draft => opened.scalars ++ (around.scalars ++ draft.scalars)
  | .comma opened field => opened.scalars ++ field.type.scalars

/-- These are the scalars that have been read so far in the order of the text. -/
def Draft.scalars (draft : Draft Mark) : List (Mark × Scalar) :=
  draft.finished.reverse.flatMap Definition.scalars ++ draft.stage.scalars

/-- A document has the scalars that have been read at its end. -/
theorem Document.scalars_of_finished (mark : Mark) (finished : List (Definition Mark)) :
    (Document.mk mark finished.reverse).scalars = Draft.scalars ⟨finished, .outside⟩ := by
  rw [Document.scalars_eq]
  exact (List.append_nil _).symm

/-- A type that is finished has the scalars of its members. -/
@[simp] theorem Surroundings.scalars_finish [Union Mark] (around : Surroundings Mark)
    (item : TypeExpr Mark) :
    (around.finish item).scalars =
      around.members.reverse.flatMap TypeExpr.scalars ++ item.scalars :=
  around.flatMap_finish TypeExpr.scalars TypeExpr.scalars_union item

@[simp] theorem OpenDefinition.scalars_addField (opened : OpenDefinition Mark)
    (field : Field Mark) (lexeme : Lexeme Mark) :
    (opened.addField field lexeme).scalars = opened.scalars ++ field.type.scalars := by
  simp [OpenDefinition.scalars, OpenDefinition.addField]

/-! ### Lexemes in modern words -/

/-- A lexeme may be read as a scalar. -/
def Lexeme.scalar? (pair : Lexeme Mark × Option Scalar) : Option (Mark × Scalar) :=
  pair.2.map fun kind => (pair.1.mark, kind)

/-- A lexeme that is read as a scalar has the keyword in place of its text. -/
def Lexeme.modern (pair : Lexeme Mark × Option Scalar) : Lexeme Mark :=
  { pair.1 with text := (pair.2.map Scalar.keyword).getD pair.1.text }

/-- A modern step adds the lexeme to a draft without the legacy spellings, once it has the keyword
of the scalar that it is read as. -/
structure Lexeme.Modern {State : Type} (scalars : State → List (Mark × Scalar))
    (step : Lexeme Mark → State → State → Prop) (lexeme : Lexeme Mark) (kind : Option Scalar)
    (state next : State) : Prop where
  scalars : scalars next = scalars state ++ (Lexeme.scalar? (lexeme, kind)).toList
  step : step (Lexeme.modern (lexeme, kind)) state next
  isWord : kind.isSome → lexeme.kind = .identifier

/-- A lexeme that is not read as a scalar stays as it is. -/
theorem Lexeme.Modern.plain {State : Type} {scalars : State → List (Mark × Scalar)}
    {step : Lexeme Mark → State → State → Prop} {lexeme : Lexeme Mark} {state next : State}
    (same : scalars next = scalars state) (taken : step lexeme state next) :
    Lexeme.Modern scalars step lexeme none state next :=
  ⟨same.trans (List.append_nil _).symm, taken, fun present => nomatch present⟩

variable [Union Mark] {lexeme : Lexeme Mark}

/-- A field is finished with the scalars that have been read in it. -/
theorem Stage.Between.scalars {stage : Stage Mark} {opened : OpenDefinition Mark}
    (between : stage.Between lexeme opened) : opened.scalars = stage.scalars := by
  cases between with
  | body => rfl
  | comma => simp
  | type => simp [Label.field]

/-- Only the step that reads a scalar adds one, and only its lexeme changes. -/
theorem TypeDraft.Step.exists_modern {state next : Surroundings Mark × TypeDraft Mark}
    (step : TypeDraft.Step legacy lexeme state next) :
    ∃ kind, Lexeme.Modern (fun state => state.1.scalars ++ state.2.scalars)
      (TypeDraft.Step false) lexeme kind state next := by
  cases step with
  | @scalar around kind isWord means =>
      refine ⟨some kind, ?_, ?_, fun _ => isWord⟩
      · simp [Lexeme.scalar?]
      · exact .scalar isWord (.inl (Word.ofText_eq_iff.2 rfl))
  | string isString => exact ⟨none, .plain rfl (.string isString)⟩
  | number isNumber => exact ⟨none, .plain rfl (.number isNumber)⟩
  | boolean isWord means => exact ⟨none, .plain rfl (.boolean isWord means)⟩
  | wrapper isWord means => exact ⟨none, .plain rfl (.wrapper isWord means)⟩
  | reference isWord means => exact ⟨none, .plain rfl (.reference isWord means)⟩
  | openBracket isBracket => exact ⟨none, .plain rfl (.openBracket isBracket)⟩
  | closeBracket isBracket => exact ⟨none, .plain rfl (.closeBracket isBracket)⟩
  | bar isBar =>
      refine ⟨none, .plain ?_ (.bar isBar)⟩
      simp
  | @openAngle around keyword kind isAngle =>
      refine ⟨none, .plain ?_ (.openAngle isAngle)⟩
      cases kind <;> simp [TypeDraft.openWrapper, Surroundings.enclose]
  | closeList isAngle =>
      refine ⟨none, .plain ?_ (.closeList isAngle)⟩
      simp
  | comma isComma =>
      refine ⟨none, .plain ?_ (.comma isComma)⟩
      simp
  | closeMap isAngle =>
      refine ⟨none, .plain ?_ (.closeMap isAngle)⟩
      simp
  | objectName isWord means => exact ⟨none, .plain rfl (.objectName isWord means)⟩
  | closeObject isAngle => exact ⟨none, .plain rfl (.closeObject isAngle)⟩

theorem Draft.Step.exists_modern {draft next : Draft Mark}
    (step : Draft.Step legacy lexeme draft next) :
    ∃ kind, Lexeme.Modern Draft.scalars (Draft.Step false) lexeme kind draft next := by
  cases step with
  | @type finished opened named state next part =>
      obtain ⟨kind, added, taken, isWord⟩ := part.exists_modern
      refine ⟨kind, ?_, .type taken, isWord⟩
      simp only [Draft.scalars, Stage.scalars, added, List.append_assoc]
  | keyword isWord isType => exact ⟨none, .plain rfl (.keyword isWord isType)⟩
  | typeName isWord => exact ⟨none, .plain rfl (.typeName isWord)⟩
  | openBrace isBrace => exact ⟨none, .plain rfl (.openBrace isBrace)⟩
  | closeBrace isBrace between =>
      refine ⟨none, .plain ?_ (.closeBrace isBrace between)⟩
      rw [Draft.scalars, Draft.scalars, ← between.scalars, List.reverse_cons,
        List.flatMap_append, List.flatMap_singleton]
      exact List.append_nil _
  | fieldName isWord between =>
      refine ⟨none, .plain ?_ (.fieldName isWord between)⟩
      rw [Draft.scalars, Draft.scalars, ← between.scalars]
      rfl
  | question isMark => exact ⟨none, .plain rfl (.question isMark)⟩
  | colon isColon =>
      refine ⟨none, .plain ?_ (.colon isColon)⟩
      simp [Draft.scalars, Surroundings.outermost]
  | optionalColon isColon =>
      refine ⟨none, .plain ?_ (.optionalColon isColon)⟩
      simp [Draft.scalars, Surroundings.outermost]
  | comma isComma =>
      refine ⟨none, .plain ?_ (.comma isComma)⟩
      simp [Draft.scalars, Label.field]

/-- A run reads some of its lexemes as scalars, and it is a run without the legacy spellings once
these lexemes have their keywords. -/
theorem Draft.exists_modern {draft last : Draft Mark} {lexemes : List (Lexeme Mark)}
    (run : Lexeme.Run (Draft.Step legacy) lexemes draft last) :
    ∃ pairs : List (Lexeme Mark × Option Scalar), pairs.map Prod.fst = lexemes ∧
      last.scalars = draft.scalars ++ pairs.filterMap Lexeme.scalar? ∧
      Lexeme.Run (Draft.Step false) (pairs.map Lexeme.modern) draft last ∧
      ∀ pair ∈ pairs, pair.2.isSome → pair.1.kind = .identifier := by
  induction run with
  | nil => exact ⟨[], rfl, (List.append_nil _).symm, .nil, List.forall_mem_nil _⟩
  | cons taken _ inductionHypothesis =>
      obtain ⟨kind, modern⟩ := taken.exists_modern
      obtain ⟨pairs, rfl, scalars, run, words⟩ := inductionHypothesis
      refine ⟨(_, kind) :: pairs, rfl, ?_, .cons modern.step run,
        List.forall_mem_cons.2 ⟨modern.isWord, words⟩⟩
      rw [scalars, modern.scalars, List.append_assoc]
      congr 1
      cases kind <;> rfl

/-- A document is read without the legacy spellings from the lexemes that have their keywords. -/
theorem Document.exists_modern {mark : Mark} {lexemes : List (Lexeme Mark)} {ending : Lexeme Mark}
    {document : Document Mark}
    (read : Document.ofLexemes legacy mark lexemes ending = .ok document) :
    ∃ pairs : List (Lexeme Mark × Option Scalar), pairs.map Prod.fst = lexemes ∧
      document.scalars = pairs.filterMap Lexeme.scalar? ∧
      Document.ofLexemes false mark (pairs.map Lexeme.modern) ending = .ok document ∧
      ∀ pair ∈ pairs, pair.2.isSome → pair.1.kind = .identifier := by
  obtain ⟨finished, run, rfl⟩ := Document.ofLexemes_eq_ok_iff.1 read
  obtain ⟨pairs, tokens, scalars, modern, words⟩ := Draft.exists_modern run
  refine ⟨pairs, tokens, ?_, Document.ofLexemes_eq_ok_iff.2 ⟨finished, modern, rfl⟩, words⟩
  rw [Document.scalars_of_finished]
  exact scalars

/-! ### Reading with and without the legacy spellings -/

omit [Union Mark] in
/-- A word begins a type in the same way with and without the legacy spellings, unless it is one of
them. -/
theorem TypeDraft.ofLexeme_legacy (lexeme : Lexeme Mark) :
    TypeDraft.ofLexeme true lexeme = TypeDraft.ofLexeme false lexeme ∨
      ∃ kind, lexeme.kind = .identifier ∧ Word.ofText lexeme.text = .legacyScalar kind ∧
        TypeDraft.ofLexeme false lexeme = .error ⟨lexeme, .legacyScalar kind⟩ ∧
        TypeDraft.ofLexeme true lexeme = .ok (.complete (.scalar lexeme.mark kind)) := by
  cases isWord : lexeme.kind with
  | identifier =>
      cases means : Word.ofText lexeme.text with
      | legacyScalar kind => simp [TypeDraft.ofLexeme, TypeDraft.ofWord, isWord, means]
      | _ => simp [TypeDraft.ofLexeme, TypeDraft.ofWord, isWord, means]
  | _ => simp [TypeDraft.ofLexeme, isWord]

/-- A lexeme is read in the same way with and without the legacy spellings, unless it is one of
them in the place of a type. -/
theorem Draft.add_legacy (draft : Draft Mark) (lexeme : Lexeme Mark) :
    draft.add true lexeme = draft.add false lexeme ∨
      ∃ kind next, lexeme.kind = .identifier ∧ Word.ofText lexeme.text = .legacyScalar kind ∧
        draft.add false lexeme = .error ⟨lexeme, .legacyScalar kind⟩ ∧
        draft.add true lexeme = .ok next ∧ (lexeme.mark, kind) ∈ next.scalars := by
  rcases draft with ⟨finished, stage⟩
  -- Only where a type begins does reading look at the legacy spellings.
  cases stage with
  | type opened named around typeDraft =>
      cases typeDraft with
      | empty =>
          have passed (legacy : Bool) :
              Draft.add legacy ⟨finished, .type opened named around .empty⟩ lexeme =
                (TypeDraft.ofLexeme legacy lexeme).map fun next =>
                  ⟨finished, .type opened named around next⟩ := by
            change ((TypeDraft.ofLexeme legacy lexeme).map _).map _ = _
            cases TypeDraft.ofLexeme legacy lexeme <;> rfl
          rw [passed, passed]
          rcases TypeDraft.ofLexeme_legacy lexeme with same | ⟨kind, isWord, means, refused, read⟩
          · exact .inl (same ▸ rfl)
          · rw [refused, read]
            refine .inr ⟨kind, _, isWord, means, rfl, rfl, ?_⟩
            simp [Draft.scalars]
      | _ => exact .inl rfl
  | _ => exact .inl rfl

/-- Both ways of reading part at a legacy spelling of a scalar. It is refused without the legacy
spellings. With them it adds its scalar to the draft, and what comes after it is read next. -/
structure Draft.PartsAt (draft : Draft Mark) (lexemes : List (Lexeme Mark)) (lexeme : Lexeme Mark)
    (kind : Scalar) (after : List (Lexeme Mark)) (next : Draft Mark) : Prop where
  divided : ∃ before, lexemes = before ++ lexeme :: after
  isWord : lexeme.kind = .identifier
  means : Word.ofText lexeme.text = .legacyScalar kind
  refused : draft.addAll false lexemes = .error ⟨lexeme, .legacyScalar kind⟩
  goesOn : draft.addAll true lexemes = next.addAll true after
  present : (lexeme.mark, kind) ∈ next.scalars

theorem Draft.addAll_cons (legacy : Bool) (draft : Draft Mark) (first : Lexeme Mark)
    (rest : List (Lexeme Mark)) :
    draft.addAll legacy (first :: rest) =
      draft.add legacy first >>= fun next => next.addAll legacy rest := List.foldlM_cons

/-- What is read alike before the parting does not matter for it. -/
theorem Draft.PartsAt.cons {draft middle next : Draft Mark} {first lexeme : Lexeme Mark}
    {rest after : List (Lexeme Mark)} {kind : Scalar}
    (parts : middle.PartsAt rest lexeme kind after next)
    (alike : ∀ legacy, draft.add legacy first = .ok middle) :
    draft.PartsAt (first :: rest) lexeme kind after next := by
  obtain ⟨before, divided⟩ := parts.divided
  refine ⟨⟨first :: before, congrArg (first :: ·) divided⟩, parts.isWord, parts.means, ?_, ?_,
    parts.present⟩
  · rw [Draft.addAll_cons, alike]
    exact parts.refused
  · rw [Draft.addAll_cons, alike]
    exact parts.goesOn

/-- Lexemes are read in the same way with and without the legacy spellings, or else both ways of
reading part at one of them. -/
theorem Draft.addAll_legacy (draft : Draft Mark) (lexemes : List (Lexeme Mark)) :
    draft.addAll true lexemes = draft.addAll false lexemes ∨
      ∃ lexeme kind after next, draft.PartsAt lexemes lexeme kind after next := by
  induction lexemes generalizing draft with
  | nil => exact .inl rfl
  | cons first rest inductionHypothesis =>
      rcases draft.add_legacy first with same | ⟨kind, next, isWord, means, refused, read, present⟩
      · cases added : draft.add false first with
        | error _ =>
            rw [Draft.addAll_cons, Draft.addAll_cons, same, added]
            exact .inl rfl
        | ok middle =>
            have alike (legacy : Bool) : draft.add legacy first = .ok middle := by
              cases legacy with
              | false => exact added
              | true => exact same.trans added
            rcases inductionHypothesis middle with later | ⟨lexeme, kind, after, next, parts⟩
            · rw [Draft.addAll_cons, Draft.addAll_cons, alike, alike]
              exact .inl later
            · exact .inr ⟨lexeme, kind, after, next, parts.cons alike⟩
      · refine .inr ⟨first, kind, rest, next, ⟨[], rfl⟩, isWord, means, ?_, ?_, present⟩
        · rw [Draft.addAll_cons, refused]
          rfl
        · rw [Draft.addAll_cons, read]
          rfl

/-- A document is read in the same way with and without the legacy spellings, or else both ways of
reading part at one of them. -/
theorem Document.ofLexemes_legacy (mark : Mark) (lexemes : List (Lexeme Mark))
    (ending : Lexeme Mark) :
    Document.ofLexemes true mark lexemes ending = Document.ofLexemes false mark lexemes ending ∨
      ∃ lexeme kind after next, Draft.empty.PartsAt lexemes lexeme kind after next := by
  rcases Draft.empty.addAll_legacy lexemes with same | parts
  · exact .inl (by rw [Document.ofLexemes_eq, Document.ofLexemes_eq, same])
  · exact .inr parts

variable {mark : Mark} {lexemes after : List (Lexeme Mark)} {ending : Lexeme Mark} {kind : Scalar}
  {next : Draft Mark}

/-- Without the legacy spellings a document fails where both ways of reading part. -/
theorem Draft.PartsAt.error (parts : Draft.empty.PartsAt lexemes lexeme kind after next) :
    Document.ofLexemes false mark lexemes ending = .error ⟨lexeme, .legacyScalar kind⟩ := by
  rw [Document.ofLexemes_eq, parts.refused]
  rfl

/-- With the legacy spellings a document has the scalar where both ways of reading part. -/
theorem Draft.PartsAt.mem_scalars (parts : Draft.empty.PartsAt lexemes lexeme kind after next)
    {document : Document Mark}
    (read : Document.ofLexemes true mark lexemes ending = .ok document) :
    (lexeme.mark, kind) ∈ document.scalars := by
  rw [Document.ofLexemes_eq, parts.goesOn] at read
  cases added : next.addAll true after with
  | error _ =>
      rw [added] at read
      cases read
  | ok last =>
      rw [added] at read
      obtain ⟨pairs, -, scalars, -⟩ := Draft.exists_modern (Draft.addAll_eq_ok_iff.1 added)
      have present : (lexeme.mark, kind) ∈ last.scalars :=
        scalars ▸ List.mem_append_left _ parts.present
      obtain ⟨finished, stage⟩ := last
      cases stage with
      | outside =>
          rw [← Except.ok.inj read, Document.scalars_of_finished]
          exact present
      | _ => cases read

/-- With the legacy spellings a document fails after the place where both ways of reading part, if
it fails at all. -/
theorem Draft.PartsAt.fails_later (parts : Draft.empty.PartsAt lexemes lexeme kind after next)
    {error : SyntaxError Mark}
    (failed : Document.ofLexemes true mark lexemes ending = .error error) :
    ∃ before between refused rest,
      lexemes ++ [ending] = before ++ lexeme :: (between ++ refused :: rest) ∧
      refused.Refused true error := by
  rw [Document.ofLexemes_eq, parts.goesOn] at failed
  obtain ⟨before, divided⟩ := parts.divided
  obtain ⟨between, refused, rest, later, refusal⟩ := Draft.exists_refused_of_error failed
  refine ⟨before, between, refused, rest, ?_, refusal⟩
  rw [divided, List.append_assoc, List.cons_append, later]

end StorageSchema
