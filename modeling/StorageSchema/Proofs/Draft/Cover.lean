/-
This file shows that the nodes of a draft cover the tokens that have been read. Each step adds one
token, and each node is made from the tokens just before that one.
-/
import StorageSchema.Proofs.Document.Cover
import StorageSchema.Proofs.Draft.Failure

namespace StorageSchema

variable {legacy : Bool}

/-- A significant token is a lexeme once it has its comments. -/
def Token.lexeme (token : Token) (above beside : Option String) : Lexeme Span :=
  ⟨token.kind, token.text, token.span, above, beside⟩

theorem Lexeme.eq_of_origin {lexeme : Lexeme Span} {token : Token}
    (same : lexeme.origin = token.origin) : lexeme = token.lexeme lexeme.above lexeme.beside := by
  rcases lexeme with ⟨kind, text, mark, above, beside⟩
  obtain ⟨symbol, rfl⟩ := Prod.mk.inj same
  obtain ⟨rfl, rfl⟩ := Symbol.mk.inj symbol
  rfl

theorem Token.symbol_eq_word {token : Token} (isWord : token.kind = .identifier) :
    token.symbol = .word token.text := by
  rw [Token.symbol, isWord]
  rfl

/-- If each step covers one more token, a run covers the tokens of its lexemes. -/
theorem Lexeme.Run.covers {State : Type} {step : Lexeme Span → State → State → Prop}
    {form : List Token → State → Prop}
    (steps : ∀ {word : List Token} {token : Token} {above beside : Option String}
      {state next : State}, form word state → step (token.lexeme above beside) state next →
      Token.Apart (word ++ [token]) → form (word ++ [token]) next)
    {lexemes : List (Lexeme Span)} {before tokens : List Token} {state last : State}
    (run : Lexeme.Run step lexemes state last) (read : form before state)
    (same : lexemes.map Lexeme.origin = tokens.map Token.origin)
    (apart : Token.Apart (before ++ tokens)) : form (before ++ tokens) last := by
  induction run generalizing before tokens with
  | nil =>
      obtain rfl := List.map_eq_nil_iff.1 same.symm
      rwa [List.append_nil]
  | @cons lexeme rest state next last taken _ inductionHypothesis =>
      obtain ⟨token, others, rfl, origin, restSame⟩ := List.map_eq_cons_iff.1 same.symm
      rw [List.append_cons] at apart ⊢
      rw [Lexeme.eq_of_origin origin.symm] at taken
      exact inductionHypothesis (steps read taken apart.left) restSame.symm apart

/-! ### Types -/

/-- The members before an item are each followed by a bar. -/
inductive MembersRead : List Token → List (TypeExpr Span) → Prop where
  | nil : MembersRead [] []
  | cons {words word : List Token} (bar : Token) {members : List (TypeExpr Span)}
      {item : TypeExpr Span} : MembersRead words members → (Node.type item).Covers word →
      MembersRead (words ++ word ++ [bar]) (item :: members)

/-- An enclosure has read its opening angle, and the key of a map may be complete. -/
inductive Enclosure.Read : List Token → Enclosure Span → Prop where
  | list (keyword opening : Token) : Read [keyword, opening] (.list keyword.span)
  | mapKey (keyword opening : Token) : Read [keyword, opening] (.mapKey keyword.span)
  | mapValue (keyword opening comma : Token) {word : List Token} {key : TypeExpr Span} :
      (Node.type key).Covers word →
      Read ([keyword, opening] ++ word ++ [comma]) (.mapValue keyword.span key)

inductive LayersRead : List Token → List (Layer Span) → Prop where
  | nil : LayersRead [] []
  | cons {outer words word : List Token} {layers : List (Layer Span)}
      {members : List (TypeExpr Span)} {enclosure : Enclosure Span} :
      LayersRead outer layers → MembersRead words members → enclosure.Read word →
      LayersRead (outer ++ words ++ word) (⟨enclosure, members⟩ :: layers)

/-- A type draft has read the beginning of an item. -/
inductive TypeDraft.Read : List Token → TypeDraft Span → Prop where
  | empty : Read [] .empty
  | complete {word : List Token} {item : TypeExpr Span} : (Node.type item).Covers word →
      Read word (.complete item)
  | bracket {word : List Token} {item : TypeExpr Span} (opening : Token) :
      (Node.type item).Covers word → Read (word ++ [opening]) (.bracket item)
  | wrapper (keyword : Token) (kind : Wrapper) : Read [keyword] (.wrapper keyword.span kind)
  | object (keyword opening : Token) : Read [keyword, opening] (.object keyword.span)
  | namedObject (keyword opening : Token) {name : Token} : name.kind = .identifier →
      Read [keyword, opening, name] (.namedObject keyword.span ⟨name.span, name.text⟩)

/-- The beginning of a type has been read, with its layers first and its last item at the end. -/
inductive TypeRead : List Token → Surroundings Span × TypeDraft Span → Prop where
  | intro {all outer words word : List Token} {around : Surroundings Span}
      {draft : TypeDraft Span} : LayersRead outer around.layers →
      MembersRead words around.members → draft.Read word → outer ++ words ++ word = all →
      TypeRead all (around, draft)

theorem Token.Blocks.append_gap {Tree : Type} {form : List Token → Tree → Prop}
    {tokens : List Token} {trees : List Tree} (blocks : Token.Blocks form tokens trees)
    (gap : List Token) : Token.Blocks form (tokens ++ gap) trees := by
  have joined := Token.Blocks.append blocks (.gap gap)
  rwa [List.append_nil] at joined

/-- The members of a union cover its tokens, and their marks together span them. -/
theorem MembersRead.joined {words word : List Token} {members : List (TypeExpr Span)}
    {item : TypeExpr Span} (read : MembersRead words members)
    (covers : (Node.type item).Covers word) (apart : Token.Apart (words ++ word)) :
    ∃ first rest, (item :: members).reverse = first :: rest ∧
      Token.Spans (words ++ word)
        (rest.foldl (fun mark member => mark ∪ member.mark) first.mark) ∧
      Token.Blocks Node.Covers (words ++ word) ((first :: rest).map .type) := by
  induction read generalizing word item with
  | nil => exact ⟨item, [], rfl, covers.spans, .single covers⟩
  | @cons words earlier bar members last _ own inductionHypothesis =>
      obtain ⟨first, rest, listed, spans, blocks⟩ := inductionHypothesis own apart.left.left
      refine ⟨first, rest ++ [item], ?_, ?_, ?_⟩
      · rw [List.reverse_cons, listed, List.cons_append]
      · rw [List.foldl_append]
        exact spans.union covers.spans apart
      · rw [← List.cons_append, List.map_append]
        exact .append (blocks.append_gap [bar]) (.single covers)

/-- An item completes the type that the members before it belong to. -/
theorem MembersRead.finish {words word : List Token} {around : Surroundings Span}
    {item : TypeExpr Span} (read : MembersRead words around.members)
    (covers : (Node.type item).Covers word) (apart : Token.Apart (words ++ word)) :
    (Node.type (around.finish item)).Covers (words ++ word) := by
  rcases around with ⟨members, layers⟩
  obtain ⟨first, rest, listed, spans, blocks⟩ := read.joined covers apart
  rw [Surroundings.finish]
  cases rest with
  | nil =>
      obtain ⟨rfl, rfl⟩ := List.cons.inj (List.reverse_eq_iff.1 listed)
      cases read
      exact covers
  | cons second rest =>
      rw [listed]
      exact .intro spans trivial blocks

theorem Node.covers_typeName {token : Token} (isWord : token.kind = .identifier) :
    (Node.typeName ⟨token.span, token.text⟩).Covers [token] :=
  .intro (.single token) (congrArg (fun symbol => [symbol]) (Token.symbol_eq_word isWord)) (.gap _)

theorem Node.covers_fieldName {token : Token} (isWord : token.kind = .identifier) :
    (Node.fieldName ⟨token.span, token.text⟩).Covers [token] :=
  .intro (.single token) (congrArg (fun symbol => [symbol]) (Token.symbol_eq_word isWord)) (.gap _)

/-- A wrapper covers the tokens from its keyword to its closing token. -/
theorem Node.covers_wrapper {keyword closing : Token} {inside : List Token}
    {type : TypeExpr Span} (mark : type.mark = keyword.span ∪ closing.span)
    (blocks : Token.Blocks Node.Covers inside type.children)
    (apart : Token.Apart ([keyword] ++ inside ++ [closing])) :
    (Node.type type).Covers ([keyword] ++ inside ++ [closing]) := by
  apply Node.Covers.intro
  · rw [Node.mark, mark]
    exact (Token.Spans.single keyword).union (.single closing) apart
  · trivial
  · exact (Token.Blocks.append (.gap [keyword]) blocks).append_gap [closing]

/-- Each step of a type covers one more token. -/
theorem TypeRead.step {word : List Token} {token : Token} {above beside : Option String}
    {state next : Surroundings Span × TypeDraft Span} (read : TypeRead word state)
    (step : TypeDraft.Step legacy (token.lexeme above beside) state next)
    (apart : Token.Apart (word ++ [token])) : TypeRead (word ++ [token]) next := by
  obtain @⟨outer, words, word, around, draft, layers, members, form, rfl⟩ := read
  have begun {item : TypeExpr Span} (nothing : draft = .empty) (mark : item.mark = token.span)
      (blocks : Token.Blocks Node.Covers [token] item.children) :
      TypeRead (outer ++ words ++ word ++ [token]) (around, .complete item) := by
    subst nothing
    cases form
    have spans : Token.Spans [token] (Node.type item).mark := by
      rw [Node.mark, mark]
      exact .single token
    exact .intro layers members (.complete (.intro spans trivial blocks)) (by simp)
  have own : Token.Apart (word ++ [token]) := by
    rw [List.append_assoc] at apart
    exact apart.right
  have inner : Token.Apart (words ++ word) := by
    rw [List.append_assoc outer] at apart
    exact apart.left.right
  cases step with
  | string _ | number _ | boolean _ _ | scalar _ _ => exact begun rfl rfl (.gap _)
  | reference isWord _ => exact begun rfl rfl (.single (Node.covers_typeName isWord))
  | @wrapper _ kind _ _ =>
      cases form
      exact .intro layers members (.wrapper token kind) (by simp)
  | openBracket _ =>
      rcases form with _ | item
      exact .intro layers members (.bracket token item) (by simp)
  | closeBracket _ =>
      rcases form with _ | _ | ⟨opening, item⟩
      have spans := item.spans.union (.single token) own
      have blocks := ((Token.Blocks.single item).append_gap [opening]).append_gap [token]
      exact .intro layers members (.complete (.intro spans trivial blocks)) (by simp)
  | bar _ =>
      rcases form with _ | item
      exact .intro layers (members.cons token item) .empty (by simp)
  | @openAngle _ _ kind _ =>
      rcases form with _ | _ | _ | keyword
      cases kind with
      | liveObject => exact .intro layers members (.object keyword token) (by simp)
      | liveList =>
          exact .intro (layers.cons members (.list keyword token)) .nil .empty (by simp)
      | liveMap =>
          exact .intro (layers.cons members (.mapKey keyword token)) .nil .empty (by simp)
  | closeList _ =>
      rcases form with _ | item
      rcases layers with _ | @⟨outer, before, _, _, _, _, outerLayers, outerMembers, enclosure⟩
      obtain ⟨keyword, opening⟩ := enclosure
      have blocks := Token.Blocks.append (.gap [opening]) (.single (members.finish item inner))
      have whole : Token.Apart (outer ++ before ++
          ([keyword] ++ ([opening] ++ (words ++ word)) ++ [token])) := by simpa using apart
      have list := Node.covers_wrapper (Eq.refl (TypeExpr.liveList _ _).mark) blocks whole.right
      exact .intro outerLayers outerMembers (.complete list) (by simp)
  | comma _ =>
      rcases form with _ | item
      rcases layers with _ | ⟨outerLayers, outerMembers, enclosure⟩
      obtain _ | ⟨keyword, opening⟩ := enclosure
      exact .intro (outerLayers.cons outerMembers
        (.mapValue keyword opening token (members.finish item inner))) .nil .empty (by simp)
  | closeMap _ =>
      rcases form with _ | item
      rcases layers with _ | @⟨outer, before, _, _, _, _, outerLayers, outerMembers, enclosure⟩
      obtain _ | _ | @⟨keyword, opening, comma, keyWord, _, key⟩ := enclosure
      have blocks := Token.Blocks.append
        ((Token.Blocks.append (.gap [opening]) (.single key)).append_gap [comma])
        (.single (members.finish item inner))
      have whole : Token.Apart (outer ++ before ++ ([keyword] ++
          ([opening] ++ keyWord ++ [comma] ++ (words ++ word)) ++ [token])) := by simpa using apart
      have map := Node.covers_wrapper (Eq.refl (TypeExpr.liveMap _ _ _).mark) blocks whole.right
      exact .intro outerLayers outerMembers (.complete map) (by simp)
  | objectName isWord _ =>
      rcases form with _ | _ | _ | _ | ⟨keyword, opening⟩
      exact .intro layers members (.namedObject keyword opening isWord) (by simp)
  | closeObject _ =>
      rcases form with _ | _ | _ | _ | _ | ⟨keyword, opening, isWord⟩
      have blocks := Token.Blocks.append (.gap [opening]) (.single (Node.covers_typeName isWord))
      have object := Node.covers_wrapper (Eq.refl (TypeExpr.reference ⟨_, _, true⟩).mark) blocks own
      exact .intro layers members (.complete object) (by simp)

/-- A run of a type covers the tokens of its lexemes. -/
theorem TypeRead.run {lexemes : List (Lexeme Span)} {before tokens : List Token}
    {state last : Surroundings Span × TypeDraft Span} (read : TypeRead before state)
    (run : Lexeme.Run (TypeDraft.Step legacy) lexemes state last)
    (same : lexemes.map Lexeme.origin = tokens.map Token.origin)
    (apart : Token.Apart (before ++ tokens)) : TypeRead (before ++ tokens) last :=
  run.covers (fun read step apart => TypeRead.step read step apart) read same apart

/-! ### Definitions -/

/-- An open definition has read its heading and some of its fields. -/
inductive OpenDefinition.Read : List Token → OpenDefinition Span → Prop where
  | intro {keyword name opening : Token} {words : List (List Token)}
      {fields : List (Field Span)} (comment : Option String) : keyword.symbol = .word "type" →
      name.kind = .identifier → opening.kind = .leftBrace →
      List.Forall₂ Node.Covers words (fields.reverse.map .field) →
      Read ([keyword, name, opening] ++ words.flatten)
        ⟨keyword.span, ⟨name.span, name.text⟩, comment, fields⟩

/-- A label has read its name. -/
inductive Label.Read : List Token → Label Span → Prop where
  | intro {name : Token} (optional : List Token) (isOptional : Bool) (comment : Option String) :
      name.kind = .identifier →
      Read (name :: optional) ⟨⟨name.span, name.text⟩, isOptional, comment⟩

/-- A stage has read the beginning of a definition. -/
inductive Stage.Read : List Token → Stage Span → Prop where
  | outside : Read [] .outside
  | keyword {keyword : Token} (comment : Option String) : keyword.symbol = .word "type" →
      Read [keyword] (.keyword keyword.span comment)
  | heading {keyword name : Token} (comment : Option String) : keyword.symbol = .word "type" →
      name.kind = .identifier →
      Read [keyword, name] (.heading keyword.span comment ⟨name.span, name.text⟩)
  | body {word : List Token} {opened : OpenDefinition Span} : opened.Read word →
      Read word (.body opened)
  | label {word labelWord : List Token} {opened : OpenDefinition Span} {named : Label Span} :
      opened.Read word → named.Read labelWord → Read (word ++ labelWord) (.label opened named)
  | optionalLabel {word labelWord : List Token} {opened : OpenDefinition Span}
      {named : Label Span} : opened.Read word → named.Read labelWord →
      Read (word ++ labelWord) (.optionalLabel opened named)
  | type {word labelWord typeWord : List Token} (colon : Token) {opened : OpenDefinition Span}
      {named : Label Span} {around : Surroundings Span} {draft : TypeDraft Span} :
      opened.Read word → named.Read labelWord → TypeRead typeWord (around, draft) →
      Read (word ++ labelWord ++ [colon] ++ typeWord) (.type opened named around draft)
  | comma {word fieldWord : List Token} {opened : OpenDefinition Span} {field : Field Span} :
      opened.Read word → (Node.field field).Covers fieldWord →
      Read (word ++ fieldWord) (.comma opened field)

/-- A draft has read its finished definitions and the beginning of another one, in which no brace
has been closed. -/
inductive Draft.Read : List Token → Draft Span → Prop where
  | intro {all word : List Token} {words : List (List Token)}
      {finished : List (Definition Span)} {stage : Stage Span} :
      List.Forall₂ Node.Covers words (finished.reverse.map .definition) →
      stage.Read word → (∀ token ∈ word, token.kind ≠ .rightBrace) →
      words.flatten ++ word = all → Read all ⟨finished, stage⟩

/-- The comment beside a field has no tokens of the field. -/
theorem Field.covers_beside {word : List Token} {field : Field Span}
    (covers : (Node.field field).Covers word) (beside : Option String) :
    (Node.field { field with trailingComment := beside }).Covers word :=
  .intro covers.spans covers.spells covers.blocks

/-- The latest tree covers what has been read last. -/
theorem Node.covers_snoc {Tree : Type} {node : Tree → Node Span} {words : List (List Token)}
    {word : List Token} {trees : List Tree} {tree : Tree}
    (all : List.Forall₂ Node.Covers words (trees.reverse.map node))
    (covers : (node tree).Covers word) :
    List.Forall₂ Node.Covers (words ++ [word]) ((tree :: trees).reverse.map node) := by
  rw [List.reverse_cons, List.map_append]
  exact List.rel_append all (.cons covers .nil)

theorem OpenDefinition.Read.addField {word fieldWord : List Token}
    {opened : OpenDefinition Span} {field : Field Span} (read : opened.Read word)
    (covers : (Node.field field).Covers fieldWord) (lexeme : Lexeme Span) :
    (opened.addField field lexeme).Read (word ++ fieldWord) := by
  obtain @⟨keyword, name, opening, words, fields, comment, isKeyword, isName, isBrace, all⟩ := read
  have joined := Node.covers_snoc all (Field.covers_beside covers lexeme.beside)
  have added := OpenDefinition.Read.intro comment isKeyword isName isBrace joined
  rwa [List.flatten_append, List.flatten_singleton, ← List.append_assoc] at added

/-- A field without a comma reaches from its name to the end of its type. -/
structure Field.Reaches (word : List Token) (field : Field Span) : Prop where
  spans : Token.Spans word field.mark
  spells : ∃ name middle, word = name :: middle ∧ name.kind = .identifier ∧
    name.span = field.name.mark ∧
    (name :: middle).getLast?.map (·.span.stop) = some field.type.mark.stop
  blocks : Token.Blocks Node.Covers word (Node.field field).children

theorem Field.Reaches.covers {word : List Token} {field : Field Span}
    (reaches : field.Reaches word) : (Node.field field).Covers word := by
  obtain ⟨name, middle, rfl, isName, starts, stops⟩ := reaches.spells
  refine .intro reaches.spans ?_ reaches.blocks
  exact ⟨name, middle, [], (List.append_nil _).symm, isName, starts, stops, .inl rfl⟩

theorem Field.Reaches.covers_comma {word : List Token} {field : Field Span}
    (reaches : field.Reaches word) {comma : Token} (isComma : comma.kind = .comma)
    (apart : Token.Apart (word ++ [comma])) :
    (Node.field { field with mark := field.mark ∪ comma.span }).Covers (word ++ [comma]) := by
  obtain ⟨name, middle, rfl, isName, starts, stops⟩ := reaches.spells
  refine .intro ?_ ?_ (reaches.blocks.append_gap [comma])
  · rw [← List.append_nil (name :: middle)] at apart ⊢
    exact reaches.spans.union (.single comma) apart
  · exact ⟨name, middle, [comma], rfl, isName, starts, stops, .inr ⟨comma, rfl, isComma⟩⟩

theorem TypeRead.finish {word : List Token} {members : List (TypeExpr Span)}
    {item : TypeExpr Span} (read : TypeRead word (⟨members, []⟩, .complete item))
    (apart : Token.Apart word) :
    (Node.type (Surroundings.finish ⟨members, []⟩ item)).Covers word := by
  obtain ⟨layers, before, last, rfl⟩ := read
  cases layers
  rcases last with _ | last
  exact before.finish last apart

/-- A complete type after a label makes a field. -/
theorem Label.Read.field {labelWord typeWord : List Token} {named : Label Span}
    {type : TypeExpr Span} (read : named.Read labelWord) (colon : Token)
    (covers : (Node.type type).Covers typeWord)
    (apart : Token.Apart (labelWord ++ [colon] ++ typeWord)) :
    (named.field type).Reaches (labelWord ++ [colon] ++ typeWord) := by
  obtain @⟨name, optional, isOptional, comment, isName⟩ := read
  have divided : name :: optional ++ [colon] ++ typeWord =
      [name] ++ (optional ++ [colon]) ++ typeWord := by simp
  rw [divided] at apart ⊢
  constructor
  · exact (Token.Spans.single name).union covers.spans apart
  · refine ⟨name, optional ++ [colon] ++ typeWord, rfl, isName, rfl, ?_⟩
    obtain ⟨_, last, -, ends, mark⟩ := covers.spans
    change _ = some type.mark.stop
    rw [show type.mark = _ from mark]
    simp [List.getLast?_append, List.getLast?_cons, ends]
  · exact .append ((Token.Blocks.single (Node.covers_fieldName isName)).append_gap _)
      (.single covers)

/-- Between two fields the definition has read all the fields before. -/
theorem Stage.Read.between {word : List Token} {stage : Stage Span}
    {opened : OpenDefinition Span} {lexeme : Lexeme Span} (read : stage.Read word)
    (between : stage.Between lexeme opened) (apart : Token.Apart word) : opened.Read word := by
  cases between with
  | body =>
      cases read
      assumption
  | comma =>
      cases read with
      | comma before field => exact before.addField field lexeme
  | type =>
      cases read with
      | type colon before named type =>
          have own := apart
          rw [List.append_assoc, List.append_assoc, ← List.append_assoc _ [colon]] at own
          have reaches := named.field colon (type.finish own.right.right) own.right
          have added := before.addField reaches.covers lexeme
          simpa using added

/-- A closing brace ends the definition that has been read. -/
theorem OpenDefinition.Read.close {word : List Token} {opened : OpenDefinition Span}
    {closing : Token} (read : opened.Read word) (isBrace : closing.kind = .rightBrace)
    (inside : ∀ token ∈ word, token.kind ≠ .rightBrace)
    (apart : Token.Apart (word ++ [closing])) :
    (Node.definition (opened.close closing.span)).Covers (word ++ [closing]) := by
  obtain @⟨keyword, name, opening, words, fields, comment, isKeyword, isName, isOpening, all⟩ :=
    read
  have divided : [keyword, name, opening] ++ words.flatten ++ [closing] =
      [keyword] ++ ([name, opening] ++ words.flatten) ++ [closing] := rfl
  apply Node.Covers.intro
  · rw [divided] at apart ⊢
    exact (Token.Spans.single keyword).union (.single closing) apart
  · refine ⟨keyword, name, opening, words, closing, rfl, isKeyword, rfl, isOpening, isBrace, ?_, ?_⟩
    · intro token present
      exact inside token (List.mem_append_right _ present)
    · apply (List.forall₂_map_right_iff.1 all).imp
      intro word field covers
      exact ⟨covers.spans, covers.spells⟩
  · have named := Token.Blocks.append (.gap [keyword])
      ((Token.Blocks.single (Node.covers_typeName isName)).append_gap [opening])
    exact (named.append (.of_forall₂ all)).append_gap [closing]

/-- No token of a type is a closing brace. -/
theorem TypeDraft.Step.kind_ne_rightBrace {lexeme : Lexeme Span}
    {state next : Surroundings Span × TypeDraft Span}
    (step : TypeDraft.Step legacy lexeme state next) : lexeme.kind ≠ .rightBrace := by
  cases step <;> simp_all

/-- Each step of a document covers one more token. -/
theorem Draft.Read.step {word : List Token} {token : Token} {above beside : Option String}
    {draft next : Draft Span} (read : draft.Read word)
    (step : Draft.Step legacy (token.lexeme above beside) draft next)
    (apart : Token.Apart (word ++ [token])) : next.Read (word ++ [token]) := by
  obtain @⟨word, words, finished, stage, definitions, form, inside, rfl⟩ := read
  have goesOn (other : token.kind ≠ .rightBrace) :
      ∀ inner ∈ word ++ [token], inner.kind ≠ .rightBrace := by
    simp only [List.forall_mem_append, List.forall_mem_singleton]
    exact ⟨inside, other⟩
  have own : Token.Apart (word ++ [token]) := by
    rw [List.append_assoc] at apart
    exact apart.right
  have later {stage : Stage Span} (form : stage.Read (word ++ [token]))
      (other : token.kind ≠ .rightBrace) :
      Draft.Read (words.flatten ++ word ++ [token]) ⟨finished, stage⟩ :=
    .intro definitions form (goesOn other) (List.append_assoc _ _ _).symm
  have begin {earlier labelWord : List Token} {opened : OpenDefinition Span}
      {named : Label Span} (before : opened.Read earlier) (read : named.Read labelWord) :
      (Stage.type opened named Surroundings.outermost .empty).Read
        (earlier ++ labelWord ++ [token]) := by
    have nothing : TypeRead [] (Surroundings.outermost, .empty) := .intro .nil .nil .empty rfl
    have typed := Stage.Read.type token before read nothing
    rwa [List.append_nil] at typed
  cases step with
  | keyword isWord means =>
      cases form
      apply later
      · exact .keyword above (by rw [Token.symbol_eq_word isWord]; exact congrArg _ means)
      · simp [show token.kind = .identifier from isWord]
  | typeName isWord =>
      obtain _ | ⟨_, isKeyword⟩ := form
      apply later
      · exact .heading _ isKeyword isWord
      · simp [show token.kind = .identifier from isWord]
  | openBrace isBrace =>
      obtain _ | _ | ⟨_, isKeyword, isName⟩ := form
      apply later
      · exact .body (@OpenDefinition.Read.intro _ _ _ [] [] _ isKeyword isName isBrace .nil)
      · simp [show token.kind = .leftBrace from isBrace]
  | closeBrace isBrace between =>
      have closed := (form.between between own.left).close isBrace inside own
      refine .intro (Node.covers_snoc definitions closed) .outside (List.forall_mem_nil _) ?_
      simp
  | fieldName isWord between =>
      apply later
      · exact .label (form.between between own.left) (.intro [] false _ isWord)
      · simp [show token.kind = .identifier from isWord]
  | question isMark =>
      rcases form with _ | _ | _ | _ | ⟨opened, named⟩
      obtain ⟨optional, _, comment, isName⟩ := named
      apply later
      · rw [List.append_assoc]
        exact .optionalLabel opened (.intro (optional ++ [token]) true comment isName)
      · simp [show token.kind = .question from isMark]
  | colon isColon =>
      rcases form with _ | _ | _ | _ | ⟨opened, named⟩
      apply later
      · exact begin opened named
      · simp [show token.kind = .colon from isColon]
  | optionalColon isColon =>
      rcases form with _ | _ | _ | _ | _ | ⟨opened, named⟩
      apply later
      · exact begin opened named
      · simp [show token.kind = .colon from isColon]
  | type part =>
      rcases form with _ | _ | _ | _ | _ | _ | ⟨colon, opened, named, type⟩
      apply later
      · rw [List.append_assoc]
        rw [List.append_assoc] at own
        exact .type colon opened named (type.step part own.right)
      · exact part.kind_ne_rightBrace
  | comma isComma =>
      rcases form with _ | _ | _ | _ | _ | _ | ⟨colon, opened, named, type⟩
      have whole (earlier labelWord typeWord : List Token) :
          earlier ++ labelWord ++ [colon] ++ typeWord ++ [token] =
            earlier ++ (labelWord ++ [colon] ++ typeWord ++ [token]) := by simp
      rw [whole] at later own
      have inner := own.right.left
      have field := (named.field colon (type.finish inner.right) inner).covers_comma isComma
        own.right
      apply later
      · exact .comma opened field
      · simp [show token.kind = .comma from isComma]

/-- Nothing has been read at the beginning. -/
theorem Draft.Read.empty : Draft.Read [] Draft.empty :=
  @Draft.Read.intro _ _ [] _ _ .nil .outside (List.forall_mem_nil _) rfl

/-- A run covers the tokens of its lexemes. -/
theorem Draft.Read.run {lexemes : List (Lexeme Span)} {before tokens : List Token}
    {draft last : Draft Span} (read : draft.Read before)
    (run : Lexeme.Run (Draft.Step legacy) lexemes draft last)
    (same : lexemes.map Lexeme.origin = tokens.map Token.origin)
    (apart : Token.Apart (before ++ tokens)) : last.Read (before ++ tokens) :=
  run.covers (fun read step apart => Draft.Read.step read step apart) read same apart

/-- The definitions of a document cover the significant tokens of its text. -/
theorem Document.exists_words {text : String} {document : Document Span}
    (read : Document.ofText legacy text = .ok document) :
    ∃ words : List (List Token), Token.inside text = words.flatten ∧
      List.Forall₂ Node.Covers words (document.definitions.map .definition) := by
  obtain ⟨finished, run, rfl⟩ := Document.ofLexemes_eq_ok_iff.1 read
  have origins := Lexeme.origins_ofTokens Margin.opening (Token.ofText text)
  have covered := Draft.Read.empty.run run origins (Token.apart_inside text)
  rw [List.nil_append] at covered
  obtain @⟨_, words, _, _, definitions, stage, -, whole⟩ := covered
  cases stage
  rw [List.append_nil] at whole
  exact ⟨words, whole.symm, definitions⟩

end StorageSchema
