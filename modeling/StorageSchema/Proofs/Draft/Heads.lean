/-
This file says as what the lexemes of a document are read that begin its types. They are the heads
of the document, and each step of the reader brings the head of its lexeme, if it has one.
-/
import StorageSchema.Document.Node
import StorageSchema.Proofs.Comments.Attachment
import StorageSchema.Proofs.Document.Cover
import StorageSchema.Proofs.Draft.Failure
import StorageSchema.Proofs.Draft.Placement

namespace StorageSchema

variable {legacy : Bool}

/-- A lexeme that begins a type is a scalar, a literal, the keyword of a wrapper, or the name in a
reference. The argument of a live object comes after its keyword. -/
inductive Head where
  | scalar (kind : Scalar)
  | literal
  | wrapper (kind : Wrapper)
  | reference (named : Reference Span)
  | argument (name : Name Span)

/-! ### Heads of documents -/

/-- Arrays and unions begin where their first item does, and so they have no heads of their own. -/
def TypeExpr.isJoined {Mark : Type} : TypeExpr Mark → Bool
  | .array _ _ | .union _ _ => true
  | _ => false

/-- These are the heads of a type itself, each with the offset where it stands. -/
def TypeExpr.ownHeads : TypeExpr Span → List (Nat × Head)
  | .scalar mark kind => [(mark.start, .scalar kind)]
  | .string mark _ | .number mark _ | .boolean mark _ => [(mark.start, .literal)]
  | .reference ⟨mark, name, true⟩ =>
      [(mark.start, .wrapper .liveObject), (name.mark.start, .argument name)]
  | .reference ⟨mark, name, false⟩ => [(mark.start, .reference ⟨mark, name, false⟩)]
  | .liveList mark _ => [(mark.start, .wrapper .liveList)]
  | .liveMap mark _ _ => [(mark.start, .wrapper .liveMap)]
  | .array _ _ | .union _ _ => []

theorem TypeExpr.eq_of_mem_ownHeads {type : TypeExpr Span} {start : Nat}
    {named : Reference Span} (own : (start, Head.reference named) ∈ type.ownHeads) :
    type = .reference named := by
  unfold TypeExpr.ownHeads at own
  split at own <;> simp_all

theorem TypeExpr.exists_of_mem_ownHeads {type : TypeExpr Span} {start : Nat} {name : Name Span}
    (own : (start, Head.argument name) ∈ type.ownHeads) :
    ∃ mark, type = .reference ⟨mark, name, true⟩ := by
  unfold TypeExpr.ownHeads at own
  split at own <;> simp_all

/-- Every type but an array or a union has a head where it begins. -/
theorem TypeExpr.exists_head {type : TypeExpr Span} (single : type.isJoined = false) :
    ∃ head, (type.mark.start, head) ∈ type.ownHeads ∧ ∀ name, head ≠ .argument name := by
  cases type with
  | array _ _ | union _ _ => cases single
  | reference named =>
      rcases named with ⟨mark, name, _ | _⟩
      · exact ⟨_, List.mem_cons_self, by simp⟩
      · exact ⟨_, List.mem_cons_self, by simp⟩
  | _ => exact ⟨_, List.mem_cons_self, by simp⟩

/-- Only types have heads. -/
def Node.heads : Node Span → List (Nat × Head)
  | .type expression => expression.ownHeads
  | _ => []

def TypeExpr.heads (type : TypeExpr Span) : List (Nat × Head) := type.nodes.flatMap Node.heads

/-- These are the heads of a document in the order of the text. -/
def Document.heads (document : Document Span) : List (Nat × Head) :=
  document.nodes.flatMap Node.heads

@[simp] theorem TypeExpr.heads_liveList (mark : Span) (item : TypeExpr Span) :
    (TypeExpr.liveList mark item).heads = (mark.start, .wrapper .liveList) :: item.heads := rfl

@[simp] theorem TypeExpr.heads_liveMap (mark : Span) (key value : TypeExpr Span) :
    (TypeExpr.liveMap mark key value).heads =
      (mark.start, .wrapper .liveMap) :: (key.heads ++ value.heads) := by
  change _ :: ((key.subexpressions ++ value.subexpressions).flatMap ownNodes).flatMap Node.heads = _
  rw [List.flatMap_append, List.flatMap_append]
  rfl

@[simp] theorem TypeExpr.heads_union (mark : Span) (members : List (TypeExpr Span)) :
    (TypeExpr.union mark members).heads = members.flatMap TypeExpr.heads := by
  change ((subexpressionsAll members).flatMap ownNodes).flatMap Node.heads = _
  rw [TypeExpr.flatMap_subexpressionsAll, List.flatMap_map, List.flatMap_assoc]
  rfl

theorem TypeExpr.heads_live (mark : Span) (name : Name Span) :
    (TypeExpr.reference ⟨mark, name, true⟩).heads =
      [(mark.start, .wrapper .liveObject), (name.mark.start, .argument name)] := rfl

/-- The heads of a definition are those of the types of its fields. -/
def Definition.heads (definition : Definition Span) : List (Nat × Head) :=
  definition.fields.flatMap fun field => field.type.heads

theorem Document.heads_eq (document : Document Span) :
    document.heads = document.definitions.flatMap Definition.heads := by
  have inDefinition (definition : Definition Span) :
      definition.nodes.flatMap Node.heads = definition.heads := by
    change (definition.fields.flatMap Field.nodes).flatMap Node.heads = _
    rw [List.flatMap_assoc]
    rfl
  change (document.definitions.flatMap Definition.nodes).flatMap Node.heads = _
  rw [List.flatMap_assoc]
  exact List.flatMap_congr fun definition _ => inDefinition definition

/-- The heads of a document are those of its types. -/
theorem Document.mem_heads_iff {document : Document Span} {start : Nat} {head : Head} :
    (start, head) ∈ document.heads ↔
      ∃ type, Node.type type ∈ document.nodes ∧ (start, head) ∈ type.ownHeads := by
  rw [Document.heads, List.mem_flatMap]
  constructor
  · rintro ⟨node, present, own⟩
    cases node with
    | type expression => exact ⟨expression, present, own⟩
    | _ => cases own
  · rintro ⟨type, present, own⟩
    exact ⟨.type type, present, own⟩

/-! ### Heads of drafts -/

/-- The keyword of an enclosure is its head, and the heads of a key that is complete follow. -/
@[simp] def Enclosure.heads : Enclosure Span → List (Nat × Head)
  | .list keyword => [(keyword.start, .wrapper .liveList)]
  | .mapKey keyword => [(keyword.start, .wrapper .liveMap)]
  | .mapValue keyword key => (keyword.start, .wrapper .liveMap) :: key.heads

@[simp] def Layer.heads (layer : Layer Span) : List (Nat × Head) :=
  layer.members.reverse.flatMap TypeExpr.heads ++ layer.enclosure.heads

@[simp] def Surroundings.heads (around : Surroundings Span) : List (Nat × Head) :=
  around.layers.reverse.flatMap Layer.heads ++ around.members.reverse.flatMap TypeExpr.heads

@[simp] def TypeDraft.heads : TypeDraft Span → List (Nat × Head)
  | .empty => []
  | .complete item | .bracket item => item.heads
  | .wrapper keyword kind => [(keyword.start, .wrapper kind)]
  | .object keyword => [(keyword.start, .wrapper .liveObject)]
  | .namedObject keyword name =>
      [(keyword.start, .wrapper .liveObject), (name.mark.start, .argument name)]

def OpenDefinition.heads (opened : OpenDefinition Span) : List (Nat × Head) :=
  opened.fields.reverse.flatMap fun field => field.type.heads

@[simp] def Stage.heads : Stage Span → List (Nat × Head)
  | .outside | .keyword _ _ | .heading _ _ _ => []
  | .body opened | .label opened _ | .optionalLabel opened _ => opened.heads
  | .type opened _ around draft => opened.heads ++ (around.heads ++ draft.heads)
  | .comma opened field => opened.heads ++ field.type.heads

/-- These are the heads that have been read so far in the order of the text. -/
def Draft.heads (draft : Draft Span) : List (Nat × Head) :=
  draft.finished.reverse.flatMap Definition.heads ++ draft.stage.heads

/-- A document has the heads that have been read at its end. -/
theorem Document.heads_of_finished (mark : Span) (finished : List (Definition Span)) :
    (Document.mk mark finished.reverse).heads = Draft.heads ⟨finished, .outside⟩ := by
  rw [Document.heads_eq]
  exact (List.append_nil _).symm

/-- A type that is finished has the heads of its members. -/
@[simp] theorem Surroundings.heads_finish (around : Surroundings Span) (item : TypeExpr Span) :
    (around.finish item).heads = around.members.reverse.flatMap TypeExpr.heads ++ item.heads :=
  around.flatMap_finish TypeExpr.heads TypeExpr.heads_union item

@[simp] theorem OpenDefinition.heads_addField (opened : OpenDefinition Span) (field : Field Span)
    (lexeme : Lexeme Span) :
    (opened.addField field lexeme).heads = opened.heads ++ field.type.heads := by
  simp [OpenDefinition.heads, OpenDefinition.addField]

/-- A field is finished with the heads that have been read in it. -/
theorem Stage.Between.heads {stage : Stage Span} {opened : OpenDefinition Span}
    {lexeme : Lexeme Span} (between : stage.Between lexeme opened) :
    opened.heads = stage.heads := by
  cases between with
  | body => rfl
  | comma => simp
  | type => simp [Label.field]

/-! ### Heads of lexemes -/

/-- A word begins a type as its meaning says, and any other lexeme begins one as a literal. -/
def Lexeme.head (lexeme : Lexeme Span) : Head :=
  match lexeme.kind, Word.ofText lexeme.text with
  | .identifier, .wrapper kind => .wrapper kind
  | .identifier, .scalar kind | .identifier, .legacyScalar kind => .scalar kind
  | .identifier, .name => .reference ⟨lexeme.mark, ⟨lexeme.mark, lexeme.text⟩, false⟩
  | _, _ => .literal

/-- A lexeme has a head only where a type begins and where a live object has its argument. -/
def Lexeme.heads (lexeme : Lexeme Span) : Expectation → List (Nat × Head)
  | .type => [(lexeme.mark.start, lexeme.head)]
  | .objectName => [(lexeme.mark.start, .argument ⟨lexeme.mark, lexeme.text⟩)]
  | _ => []

/-- No type begins right after a complete item. -/
theorem Lexeme.heads_complete (lexeme : Lexeme Span) (around : Surroundings Span) :
    lexeme.heads around.expectation = [] := by
  rcases around with ⟨members, _ | ⟨⟨_ | _ | _, _⟩, _⟩⟩ <;> rfl

/-- A head stands where its lexeme begins. -/
theorem Lexeme.starts_heads (lexeme : Lexeme Span) (expectation : Expectation) :
    ((lexeme.heads expectation).map Prod.fst).Sublist [lexeme.mark.start] := by
  cases expectation with
  | type | objectName => exact List.Sublist.refl _
  | _ => exact List.nil_sublist _

/-- Each step of a type brings the head of its lexeme. -/
theorem TypeDraft.Step.heads {low stop : Nat} {lexeme : Lexeme Span}
    {state next : Surroundings Span × TypeDraft Span}
    (step : TypeDraft.Step legacy lexeme state next) (around : state.1.Placed low stop)
    (draft : state.2.Placed low stop) (after : stop ≤ lexeme.mark.start)
    (solid : lexeme.mark.start ≤ lexeme.mark.stop) :
    next.1.heads ++ next.2.heads =
      state.1.heads ++ state.2.heads ++ lexeme.heads (state.2.expectation state.1) := by
  have begins {around : Surroundings Span} {begun : TypeDraft Span} {head : Head}
      (reads : lexeme.head = head) (own : begun.heads = [(lexeme.mark.start, head)]) :
      around.heads ++ begun.heads = around.heads ++ [] ++ lexeme.heads .type := by
    rw [own, ← reads, List.append_nil]
    rfl
  have starts {mark : Span} (within : mark.Within low stop) :
      (mark ∪ lexeme.mark).start = mark.start :=
    (within.union_later after solid).1
  have plain {before after : List (Nat × Head)} (same : after = before) : after = before ++ [] :=
    same.trans (List.append_nil before).symm
  cases step with
  | string isString => exact begins (by simp [Lexeme.head, isString]) rfl
  | number isNumber => exact begins (by simp [Lexeme.head, isNumber]) rfl
  | boolean isWord means => exact begins (by simp [Lexeme.head, isWord, means]) rfl
  | wrapper isWord means => exact begins (by simp [Lexeme.head, isWord, means]) rfl
  | scalar isWord means =>
      rcases means with means | ⟨-, means⟩
      · exact begins (by simp [Lexeme.head, isWord, means]) rfl
      · exact begins (by simp [Lexeme.head, isWord, means]) rfl
  | reference isWord means => exact begins (by simp [Lexeme.head, isWord, means]) rfl
  | openBracket _ => simp [TypeDraft.expectation, Lexeme.heads_complete]
  | closeBracket _ => exact plain rfl
  | bar _ => simp [TypeDraft.expectation, Lexeme.heads_complete]
  | @openAngle around keyword kind _ =>
      cases kind with
      | liveObject => exact plain rfl
      | liveList | liveMap =>
          simp [TypeDraft.expectation, TypeDraft.openWrapper, Surroundings.enclose, Lexeme.heads]
  | closeList _ | closeMap _ =>
      have keyword := starts around.leave.2
      rw [Enclosure.keyword] at keyword
      simp [TypeDraft.expectation, Lexeme.heads_complete, keyword]
  | comma _ => simp [TypeDraft.expectation, Lexeme.heads_complete]
  | objectName isWord _ => simp [TypeDraft.expectation, Lexeme.heads]
  | closeObject _ =>
      have keyword := starts draft
      apply plain
      simp [TypeExpr.heads_live, keyword]

theorem Stage.Between.heads_complete {stage : Stage Span} {opened : OpenDefinition Span}
    {lexeme : Lexeme Span} (between : stage.Between lexeme opened) :
    lexeme.heads stage.expectation = [] := by
  cases between <;> rfl

/-- Each step of a document brings the head of its lexeme. -/
theorem Draft.Step.heads {stop : Nat} {lexeme : Lexeme Span} {draft next : Draft Span}
    (step : Draft.Step legacy lexeme draft next) (placed : draft.stage.Placed stop)
    (after : stop ≤ lexeme.mark.start) (solid : lexeme.mark.start ≤ lexeme.mark.stop) :
    next.heads = draft.heads ++ lexeme.heads draft.stage.expectation := by
  cases step with
  | keyword _ _ | typeName _ | openBrace _ | question _ => exact (List.append_nil _).symm
  | colon _ | optionalColon _ =>
      simp [Draft.heads, Surroundings.outermost, Stage.expectation, Lexeme.heads]
  | closeBrace _ between =>
      rw [between.heads_complete, List.append_nil, Draft.heads, Draft.heads, ← between.heads,
        List.reverse_cons, List.flatMap_append, List.flatMap_singleton]
      exact List.append_nil _
  | fieldName _ between =>
      rw [between.heads_complete, List.append_nil, Draft.heads, Draft.heads, ← between.heads]
      rfl
  | type part =>
      obtain ⟨-, name, around, typeDraft⟩ := placed
      have added := part.heads around typeDraft after solid
      simp only [Draft.heads, Stage.heads, added, List.append_assoc, Stage.expectation]
  | comma _ =>
      simp [Draft.heads, Label.field, Stage.expectation, TypeDraft.expectation,
        Lexeme.heads_complete]

/-- What a run has read comes before the lexemes that follow. -/
theorem Draft.placed_of_run {stop : Nat} {before after : List (Lexeme Span)}
    {draft last : Draft Span} (run : Lexeme.Run (Draft.Step legacy) before draft last)
    (placed : draft.stage.Placed stop) (ordered : Lexeme.Ordered stop (before ++ after)) :
    ∃ later, last.stage.Placed later ∧ Lexeme.Ordered later after := by
  induction run generalizing stop with
  | nil => exact ⟨stop, placed, ordered⟩
  | cons step _ inductionHypothesis =>
      obtain ⟨below, solid, others⟩ := ordered
      exact inductionHypothesis (step.placed placed below solid) others

/-- A run brings heads in the order of its lexemes, at most one for each, and each of them is the
head of a lexeme where the run comes to it. -/
theorem Draft.heads_of_run {stop : Nat} {lexemes : List (Lexeme Span)} {draft last : Draft Span}
    (run : Lexeme.Run (Draft.Step legacy) lexemes draft last) (placed : draft.stage.Placed stop)
    (ordered : Lexeme.Ordered stop lexemes) :
    ∃ heads, last.heads = draft.heads ++ heads ∧
      (heads.map Prod.fst).Sublist (lexemes.map (·.mark.start)) ∧
      ∀ head ∈ heads, ∃ before lexeme after middle, lexemes = before ++ lexeme :: after ∧
        Lexeme.Run (Draft.Step legacy) before draft middle ∧
        head ∈ lexeme.heads middle.stage.expectation := by
  induction run generalizing stop with
  | nil => exact ⟨[], (List.append_nil _).symm, List.nil_sublist _, List.forall_mem_nil _⟩
  | @cons lexeme rest draft next last step _ inductionHypothesis =>
      obtain ⟨after, solid, others⟩ := ordered
      obtain ⟨heads, whole, sublist, origins⟩ :=
        inductionHypothesis (step.placed placed after solid) others
      refine ⟨lexeme.heads draft.stage.expectation ++ heads, ?_, ?_, ?_⟩
      · rw [whole, step.heads placed after solid, List.append_assoc]
      · rw [List.map_append]
        exact (lexeme.starts_heads draft.stage.expectation).append sublist
      · intro head present
        rcases List.mem_append.1 present with own | later
        · exact ⟨[], lexeme, rest, draft, rfl, .nil, own⟩
        · obtain ⟨before, other, after, middle, rfl, run, found⟩ := origins head later
          exact ⟨lexeme :: before, other, after, middle, rfl, .cons step run, found⟩

/-! ### Heads of texts -/

variable {text : String} {document : Document Span}

theorem Lexeme.ordered_ofText (text : String) : Lexeme.Ordered 0 (Lexeme.ofText text) :=
  Lexeme.ordered_ofTokens (Token.ordered_scan 0 text.toList) Margin.opening

/-- No two lexemes of a text begin at the same place. -/
theorem Lexeme.nodup_starts (text : String) :
    ((Lexeme.ofText text).map (·.mark.start)).Nodup := by
  have origins := Lexeme.origins_ofTokens Margin.opening (Token.ofText text)
  have starts := congrArg (List.map fun origin : Symbol × Span => origin.2.start) origins
  rw [List.map_map, List.map_map] at starts
  have tokens : ((Token.inside text).map Token.start).Nodup :=
    (Token.nodup_starts text).sublist (List.filter_sublist.map Token.start)
  exact starts.symm ▸ tokens

/-- A lexeme of a text stands where the reader expects something after all lexemes before it. -/
def Lexeme.StandsAt (legacy : Bool) (text : String) (expectation : Expectation)
    (lexeme : Lexeme Span) : Prop :=
  ∃ before after draft, Lexeme.ofText text = before ++ lexeme :: after ∧
    Draft.empty.addAll legacy before = .ok draft ∧ draft.stage.expectation = expectation

/-- A place in a text can be found by reading the lexemes before it. -/
theorem Lexeme.standsAt_of_computed (index : Nat) {lexeme : Lexeme Span}
    {expectation : Expectation} (found : (Lexeme.ofText text)[index]? = some lexeme)
    (expects : (Draft.empty.addAll legacy ((Lexeme.ofText text).take index)).toOption.map
      (fun draft => draft.stage.expectation) = some expectation) :
    lexeme.StandsAt legacy text expectation := by
  obtain ⟨below, rfl⟩ := List.getElem?_eq_some_iff.1 found
  cases reads : Draft.empty.addAll legacy ((Lexeme.ofText text).take index) with
  | error _ => simp [reads, Except.toOption] at expects
  | ok draft =>
      refine ⟨_, (Lexeme.ofText text).drop (index + 1), draft, ?_, reads, ?_⟩
      · rw [← List.drop_eq_getElem_cons below, List.take_append_drop]
      · simpa [reads, Except.toOption] using expects

/-- The heads of a document are those of the lexemes that stand where types begin. -/
theorem Document.mem_heads_iff_standsAt (read : Document.ofText legacy text = .ok document)
    {head : Nat × Head} :
    head ∈ document.heads ↔ ∃ (lexeme : Lexeme Span) (expectation : Expectation),
      lexeme.StandsAt legacy text expectation ∧ head ∈ lexeme.heads expectation := by
  obtain ⟨finished, run, rfl⟩ := Document.ofLexemes_eq_ok_iff.1 read
  have ordered := Lexeme.ordered_ofText text
  have outside : Draft.empty.stage.Placed 0 := trivial
  rw [Document.heads_of_finished]
  constructor
  · intro present
    obtain ⟨heads, whole, -, origins⟩ := Draft.heads_of_run run outside ordered
    rw [whole] at present
    obtain ⟨before, lexeme, after, middle, divided, reads, own⟩ := origins head present
    exact ⟨lexeme, _, ⟨before, after, middle, divided, Draft.addAll_eq_ok_iff.2 reads, rfl⟩, own⟩
  · rintro ⟨lexeme, _, ⟨before, after, draft, divided, reads, rfl⟩, own⟩
    rw [divided] at run ordered
    obtain ⟨middle, first, second⟩ := run.exists_middle
    obtain rfl : middle = draft :=
      Except.ok.inj ((Draft.addAll_eq_ok_iff.2 first).symm.trans reads)
    obtain ⟨stop, placed, below, solid, others⟩ := Draft.placed_of_run first outside ordered
    rcases second with _ | ⟨step, rest⟩
    obtain ⟨later, whole, -⟩ := Draft.heads_of_run rest (step.placed placed below solid) others
    rw [whole, step.heads placed below solid]
    exact List.mem_append_left _ (List.mem_append_right _ own)

/-- A document has one head at most at each place. -/
theorem Document.heads_unique (read : Document.ofText legacy text = .ok document)
    {start : Nat} {head other : Head} (first : (start, head) ∈ document.heads)
    (second : (start, other) ∈ document.heads) : head = other := by
  obtain ⟨finished, run, rfl⟩ := Document.ofLexemes_eq_ok_iff.1 read
  have outside : Draft.empty.stage.Placed 0 := trivial
  obtain ⟨heads, whole, sublist, -⟩ :=
    Draft.heads_of_run run outside (Lexeme.ordered_ofText text)
  rw [Document.heads_of_finished, whole] at first second
  have distinct := (Lexeme.nodup_starts text).sublist sublist
  exact congrArg Prod.snd (List.inj_on_of_nodup_map distinct first second rfl)

/-- What begins where a head stands has that head, unless it is an array or a union. -/
theorem Document.own_head (read : Document.ofText legacy text = .ok document) {start : Nat}
    {head : Head} (listed : (start, head) ∈ document.heads) {type : TypeExpr Span}
    (present : Node.type type ∈ document.nodes) (begins : type.mark.start = start)
    (single : type.isJoined = false) :
    (start, head) ∈ type.ownHeads ∧ ∀ name, head ≠ .argument name := by
  obtain ⟨other, own, noArgument⟩ := TypeExpr.exists_head single
  rw [begins] at own
  obtain rfl := Document.heads_unique read listed (Document.mem_heads_iff.2 ⟨type, present, own⟩)
  exact ⟨own, noArgument⟩

end StorageSchema
