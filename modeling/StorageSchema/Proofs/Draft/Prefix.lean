/-
This file says what the symbols amount to that a draft has read. They begin a derivation, and the
draft holds the trees of the parts that are complete.
-/
import StorageSchema.Proofs.Draft.Outline
import StorageSchema.Proofs.Token.Scan
import StorageSchema.Proofs.Word

namespace StorageSchema

variable {legacy : Bool}

/-- The lexeme of a symbol has no mark and no comments. -/
def Symbol.lexeme (symbol : Symbol) : Lexeme Unit := ⟨symbol.kind, symbol.text, (), none, none⟩

/-- The members before an item are each followed by a bar. -/
inductive MembersBefore (legacy : Bool) : List Symbol → List (TypeExpr Unit) → Prop where
  | nil : MembersBefore legacy [] []
  | cons {words word : List Symbol} {members : List (TypeExpr Unit)} {item : TypeExpr Unit} :
      MembersBefore legacy words members → ItemForm legacy word item →
      MembersBefore legacy (words ++ word ++ [.sign '|']) (item :: members)

/-- An enclosure has been opened, and the key of a map may be complete. -/
inductive Enclosure.Form (legacy : Bool) : List Symbol → Enclosure Unit → Prop where
  | list : Form legacy [.word "LiveList", .sign '<'] (.list ())
  | mapKey : Form legacy [.word "LiveMap", .sign '<'] (.mapKey ())
  | mapValue {word : List Symbol} {key : TypeExpr Unit} : TypeForm legacy word key →
      Form legacy ([.word "LiveMap", .sign '<'] ++ word ++ [.sign ',']) (.mapValue () key)

/-- The layers around a union are each an enclosure after the members before it. -/
inductive LayersBefore (legacy : Bool) : List Symbol → List (Layer Unit) → Prop where
  | nil : LayersBefore legacy [] []
  | cons {outer words word : List Symbol} {layers : List (Layer Unit)}
      {members : List (TypeExpr Unit)} {enclosure : Enclosure Unit} :
      LayersBefore legacy outer layers → MembersBefore legacy words members →
      enclosure.Form legacy word →
      LayersBefore legacy (outer ++ words ++ word) (⟨enclosure, members⟩ :: layers)

/-- A type draft has read the beginning of an item. -/
inductive TypeDraft.Form (legacy : Bool) : List Symbol → TypeDraft Unit → Prop where
  | empty : Form legacy [] .empty
  | complete {word : List Symbol} {item : TypeExpr Unit} : ItemForm legacy word item →
      Form legacy word (.complete item)
  | bracket {word : List Symbol} {item : TypeExpr Unit} : ItemForm legacy word item →
      Form legacy (word ++ [.sign '[']) (.bracket item)
  | wrapper (kind : Wrapper) : Form legacy [.word kind.keyword] (.wrapper () kind)
  | object : Form legacy [.word "LiveObject", .sign '<'] (.object ())
  | namedObject {name : String} : IsTypeName name →
      Form legacy [.word "LiveObject", .sign '<', .word name] (.namedObject () ⟨(), name⟩)

/-- What has been read of a type begins a derivation of it. -/
inductive TypePrefix (legacy : Bool) :
    List Symbol → Surroundings Unit × TypeDraft Unit → Prop where
  | intro {all outer words word : List Symbol} {around : Surroundings Unit}
      {draft : TypeDraft Unit} : LayersBefore legacy outer around.layers →
      MembersBefore legacy words around.members → draft.Form legacy word →
      outer ++ words ++ word = all → TypePrefix legacy all (around, draft)

theorem MembersBefore.members {words word : List Symbol} {members : List (TypeExpr Unit)}
    {item : TypeExpr Unit} (before : MembersBefore legacy words members)
    (form : ItemForm legacy word item) :
    MembersForm legacy (words ++ word) (item :: members).reverse := by
  induction before generalizing word item with
  | nil => exact .first form
  | cons _ last inductionHypothesis =>
      rw [List.reverse_cons, List.append_assoc _ [_]]
      have joined := MembersForm.next (inductionHypothesis last) form
      rwa [List.append_assoc _ [_]] at joined

/-- An item completes the type that the members before it belong to. -/
theorem MembersBefore.finish {words word : List Symbol} {members : List (TypeExpr Unit)}
    {item : TypeExpr Unit} (before : MembersBefore legacy words members)
    (form : ItemForm legacy word item) (layers : List (Layer Unit)) :
    TypeForm legacy (words ++ word) (Surroundings.finish ⟨members, layers⟩ item) := by
  have joined := before.members form
  rw [Surroundings.finish]
  rcases listed : (item :: members).reverse with _ | ⟨first, _ | ⟨second, rest⟩⟩
  · simp at listed
  · obtain ⟨rfl, rfl⟩ := List.cons.inj (List.reverse_eq_iff.1 listed)
    cases before
    exact .single form
  · rw [listed] at joined
    exact .union joined

/-- Each step of a type goes on with the derivation that has begun. -/
theorem TypePrefix.step {word : List Symbol} {symbol : Symbol}
    {state next : Surroundings Unit × TypeDraft Unit} (before : TypePrefix legacy word state)
    (spelled : symbol.IsSpelled) (step : TypeDraft.Step legacy symbol.lexeme state next) :
    TypePrefix legacy (word ++ [symbol]) next := by
  obtain @⟨outer, words, word, around, draft, layers, members, form, rfl⟩ := before
  have begun : ∀ {item : TypeExpr Unit}, draft = .empty → PrimaryForm legacy [symbol] item →
      TypePrefix legacy (outer ++ words ++ word ++ [symbol]) (around, .complete item) := by
    rintro item rfl primary
    cases form
    exact .intro layers members (.complete (.primary primary)) (by simp)
  cases step with
  | string isString =>
      obtain ⟨kind, text⟩ := symbol
      obtain rfl : kind = .string := isString
      exact begun rfl (.string text)
  | number isNumber =>
      obtain ⟨kind, text⟩ := symbol
      obtain rfl : kind = .number := isNumber
      exact begun rfl (.number text)
  | @boolean _ value isWord means =>
      obtain ⟨kind, text⟩ := symbol
      obtain rfl : kind = .identifier := isWord
      obtain rfl : text = if value then "true" else "false" := Word.ofText_eq_iff.1 means
      cases value
      · exact begun rfl .no
      · exact begun rfl .yes
  | @wrapper _ wrapper isWord means =>
      obtain ⟨kind, text⟩ := symbol
      obtain rfl : kind = .identifier := isWord
      obtain rfl : text = wrapper.keyword := Word.ofText_eq_iff.1 means
      cases form
      exact .intro layers members (.wrapper wrapper) (by simp [Symbol.word])
  | @scalar _ scalar isWord means =>
      obtain ⟨kind, text⟩ := symbol
      obtain rfl : kind = .identifier := isWord
      rcases means with means | ⟨allowed, means⟩
      · obtain rfl : text = scalar.keyword := Word.ofText_eq_iff.1 means
        exact begun rfl (.scalar scalar)
      · exact begun rfl (.legacyScalar allowed (Word.ofText_eq_iff.1 means).1)
  | reference isWord means =>
      obtain ⟨kind, text⟩ := symbol
      obtain rfl : kind = .identifier := isWord
      exact begun rfl (.name (Word.ofText_eq_iff.1 means))
  | openBracket isBracket =>
      obtain rfl := spelled.eq_sign '[' rfl isBracket
      rcases form with _ | item
      exact .intro layers members (.bracket item) (by simp)
  | closeBracket isBracket =>
      obtain rfl := spelled.eq_sign ']' rfl isBracket
      rcases form with _ | _ | item
      exact .intro layers members (.complete (.array item)) (by simp)
  | bar isBar =>
      obtain rfl := spelled.eq_sign '|' rfl isBar
      rcases form with _ | item
      exact .intro layers (members.cons item) .empty (by simp)
  | @openAngle _ _ kind isAngle =>
      obtain rfl := spelled.eq_sign '<' rfl isAngle
      cases form
      cases kind with
      | liveObject => exact .intro layers members .object (by simp [Wrapper.keyword])
      | liveList =>
          exact .intro (layers.cons members .list) .nil .empty (by simp [Wrapper.keyword])
      | liveMap =>
          exact .intro (layers.cons members .mapKey) .nil .empty (by simp [Wrapper.keyword])
  | closeList isAngle =>
      obtain rfl := spelled.eq_sign '>' rfl isAngle
      rcases form with _ | item
      rcases layers with _ | ⟨outerLayers, outerMembers, enclosure⟩
      cases enclosure
      exact .intro outerLayers outerMembers
        (.complete (.primary (.liveList (members.finish item _)))) (by simp)
  | comma isComma =>
      obtain rfl := spelled.eq_sign ',' rfl isComma
      rcases form with _ | item
      rcases layers with _ | ⟨outerLayers, outerMembers, enclosure⟩
      cases enclosure
      exact .intro (outerLayers.cons outerMembers (.mapValue (members.finish item _))) .nil .empty
        (by simp)
  | closeMap isAngle =>
      obtain rfl := spelled.eq_sign '>' rfl isAngle
      rcases form with _ | item
      rcases layers with _ | ⟨outerLayers, outerMembers, enclosure⟩
      rcases enclosure with _ | _ | key
      exact .intro outerLayers outerMembers
        (.complete (.primary (.liveMap key (members.finish item _)))) (by simp)
  | objectName isWord means =>
      obtain ⟨kind, text⟩ := symbol
      obtain rfl : kind = .identifier := isWord
      cases form
      exact .intro layers members (.namedObject (Word.ofText_eq_iff.1 means))
        (by simp [Symbol.word, Symbol.lexeme])
  | closeObject isAngle =>
      obtain rfl := spelled.eq_sign '>' rfl isAngle
      rcases form with _ | _ | _ | _ | _ | name
      exact .intro layers members (.complete (.primary (.liveObject name))) (by simp)

/-- An open definition has read its heading and some of its fields. -/
inductive OpenDefinition.Form (legacy : Bool) : List Symbol → OpenDefinition Unit → Prop where
  | intro (name : String) {word : List Symbol} {fields : List (Field Unit)} :
      SequenceForm (FieldForm legacy) word fields.reverse →
      Form legacy ([.word "type", .word name, .sign '\x7b'] ++ word) ⟨(), ⟨(), name⟩, none, fields⟩

/-- A label is a name, and a question mark after it makes it optional. -/
inductive Label.Form : List Symbol → Label Unit → Prop where
  | intro (name : String) (isOptional : Bool) :
      Form ([.word name] ++ Symbol.optional isOptional (.sign '?'))
        ⟨⟨(), name⟩, isOptional, none⟩

/-- A stage has read the beginning of a definition. -/
inductive Stage.Form (legacy : Bool) : List Symbol → Stage Unit → Prop where
  | outside : Form legacy [] .outside
  | keyword : Form legacy [.word "type"] (.keyword () none)
  | heading (name : String) :
      Form legacy [.word "type", .word name] (.heading () none ⟨(), name⟩)
  | body {word : List Symbol} {opened : OpenDefinition Unit} : opened.Form legacy word →
      Form legacy word (.body opened)
  | label {word labelWord : List Symbol} {opened : OpenDefinition Unit} {named : Label Unit} :
      opened.Form legacy word → named.Form labelWord → named.isOptional = false →
      Form legacy (word ++ labelWord) (.label opened named)
  | optionalLabel {word labelWord : List Symbol} {opened : OpenDefinition Unit}
      {named : Label Unit} : opened.Form legacy word → named.Form labelWord →
      Form legacy (word ++ labelWord) (.optionalLabel opened named)
  | type {word labelWord typeWord : List Symbol} {opened : OpenDefinition Unit}
      {named : Label Unit} {around : Surroundings Unit} {draft : TypeDraft Unit} :
      opened.Form legacy word → named.Form labelWord →
      TypePrefix legacy typeWord (around, draft) →
      Form legacy (word ++ labelWord ++ [.sign ':'] ++ typeWord)
        (.type opened named around draft)
  | comma {word fieldWord : List Symbol} {opened : OpenDefinition Unit} {field : Field Unit} :
      opened.Form legacy word → FieldForm legacy fieldWord field →
      Form legacy (word ++ fieldWord) (.comma opened field)

/-- A draft has read its finished definitions and the beginning of another one. -/
inductive Draft.Form (legacy : Bool) : List Symbol → Draft Unit → Prop where
  | intro {all words word : List Symbol} {finished : List (Definition Unit)}
      {stage : Stage Unit} : SequenceForm (DefinitionForm legacy) words finished.reverse →
      stage.Form legacy word → words ++ word = all → Form legacy all ⟨finished, stage⟩

theorem OpenDefinition.Form.addField {word fieldWord : List Symbol}
    {opened : OpenDefinition Unit} {field : Field Unit} (form : opened.Form legacy word)
    (added : FieldForm legacy fieldWord field) (symbol : Symbol) :
    (opened.addField field symbol.lexeme).Form legacy (word ++ fieldWord) := by
  obtain ⟨name, fields⟩ := form
  cases added with
  | field fieldName isOptional comma type =>
      rw [List.append_assoc]
      refine .intro name ?_
      rw [List.reverse_cons]
      exact .next fields (.field fieldName isOptional comma type)

/-- A complete type after a label makes a field, and a comma may end it. -/
theorem Label.Form.field {labelWord typeWord : List Symbol} {named : Label Unit}
    {members : List (TypeExpr Unit)} {item : TypeExpr Unit} (form : named.Form labelWord)
    (before : TypePrefix legacy typeWord (⟨members, []⟩, .complete item)) (comma : Bool) :
    FieldForm legacy
      (labelWord ++ [.sign ':'] ++ typeWord ++ Symbol.optional comma (.sign ','))
      (named.field (Surroundings.finish ⟨members, []⟩ item)) := by
  obtain ⟨name, isOptional⟩ := form
  obtain ⟨layers, words, last, rfl⟩ := before
  cases layers
  rcases last with _ | last
  exact .field name isOptional comma (words.finish last [])

/-- Between two fields the definition has read all the fields before. -/
theorem Stage.Form.between {word : List Symbol} {stage : Stage Unit}
    {opened : OpenDefinition Unit} {symbol : Symbol} (form : stage.Form legacy word)
    (between : stage.Between symbol.lexeme opened) : opened.Form legacy word := by
  cases between with
  | body =>
      cases form
      assumption
  | comma =>
      cases form with
      | comma before field => exact before.addField field symbol
  | type =>
      cases form with
      | type before named type =>
          have added := before.addField (named.field type false) symbol
          simpa [Symbol.optional] using added

/-- Each step of a document goes on with the derivation that has begun. -/
theorem Draft.Form.step {word : List Symbol} {symbol : Symbol} {draft next : Draft Unit}
    (before : draft.Form legacy word) (spelled : symbol.IsSpelled)
    (step : Draft.Step legacy symbol.lexeme draft next) :
    next.Form legacy (word ++ [symbol]) := by
  obtain @⟨words, word, finished, stage, definitions, form, rfl⟩ := before
  cases step with
  | keyword isWord means =>
      obtain ⟨kind, text⟩ := symbol
      obtain rfl : kind = .identifier := isWord
      obtain rfl : text = "type" := means
      cases form
      exact .intro definitions .keyword (by simp [Symbol.word])
  | typeName isWord =>
      obtain ⟨kind, text⟩ := symbol
      obtain rfl : kind = .identifier := isWord
      cases form
      exact .intro definitions (.heading text) (by simp [Symbol.word])
  | openBrace isBrace =>
      obtain rfl := spelled.eq_sign '\x7b' rfl isBrace
      rcases form with _ | _ | name
      exact .intro definitions (.body (.intro name .nil)) (by simp)
  | closeBrace isBrace between =>
      obtain rfl := spelled.eq_sign '\x7d' rfl isBrace
      obtain ⟨name, fields⟩ := form.between between
      have closed := definitions.next (.definition name fields)
      rw [← List.reverse_cons] at closed
      exact .intro closed .outside (by simp)
  | fieldName isWord between =>
      obtain ⟨kind, text⟩ := symbol
      obtain rfl : kind = .identifier := isWord
      exact .intro definitions (.label (form.between between) (.intro text false) rfl)
        (by simp [Symbol.word, Symbol.optional])
  | question isMark =>
      obtain rfl := spelled.eq_sign '?' rfl isMark
      rcases form with _ | _ | _ | _ | ⟨opened, named, required⟩
      obtain ⟨name, isOptional⟩ := named
      obtain rfl : isOptional = false := required
      exact .intro definitions (.optionalLabel opened (.intro name true))
        (by simp [Symbol.optional])
  | colon isColon =>
      obtain rfl := spelled.eq_sign ':' rfl isColon
      rcases form with _ | _ | _ | _ | ⟨opened, named, required⟩
      exact .intro definitions (.type opened named (.intro .nil .nil .empty rfl)) (by simp)
  | optionalColon isColon =>
      obtain rfl := spelled.eq_sign ':' rfl isColon
      rcases form with _ | _ | _ | _ | _ | ⟨opened, named⟩
      exact .intro definitions (.type opened named (.intro .nil .nil .empty rfl)) (by simp)
  | type part =>
      rcases form with _ | _ | _ | _ | _ | _ | ⟨opened, named, type⟩
      exact .intro definitions (.type opened named (type.step spelled part)) (by simp)
  | comma isComma =>
      obtain rfl := spelled.eq_sign ',' rfl isComma
      rcases form with _ | _ | _ | _ | _ | _ | ⟨opened, named, type⟩
      exact .intro definitions (.comma opened (named.field type true))
        (by simp [Symbol.optional])

end StorageSchema
