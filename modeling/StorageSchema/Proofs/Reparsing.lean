/-
This file reads the parts of a text by themselves. The slice of a definition has that definition and
nothing else, and the slice of a type can be the type of any field.
-/
import StorageSchema.Proofs.Check.Resolution
import StorageSchema.Proofs.Draft.Cover
import StorageSchema.Proofs.Draft.Parts

namespace StorageSchema

variable {legacy : Bool} {text : String}

theorem Span.preservesUnions_shift (distance : Nat) : PreservesUnions (Span.shift distance) :=
  Span.preservesUnions_move fun _ _ less => Nat.add_lt_add_right less distance

theorem Span.shift_comp_shift (distance further : Nat) :
    Span.shift further ∘ Span.shift distance = Span.shift distance ∘ Span.shift further := by
  funext span
  simp only [Function.comp_apply, Span.shift, Span.move, Nat.add_right_comm]

/-- Lexemes that stand in a row in a text that is read are those of a part of it. -/
theorem Document.exists_segment {document : Document Span}
    (read : Document.ofText legacy text = .ok document) {word : List (Lexeme Span)}
    (within : word <:+: Lexeme.ofText text) (nonempty : word ≠ []) :
    ∃ part start, Lexeme.Segment text.toList word part start := by
  obtain ⟨finished, run, -⟩ := Document.ofLexemes_eq_ok_iff.1 read
  obtain ⟨front, rest, divided⟩ := within
  apply Lexeme.exists_segment divided.symm nonempty
  intro lexeme present
  apply run.isSolid
  rw [← divided]
  exact List.mem_append_left rest (List.mem_append_right front present)

/-! ### Definitions -/

/-- A definition spans what it is read from. -/
theorem Definition.IsReadFrom.spans {word : List (Lexeme Span)} {definition : Definition Span}
    (read : definition.IsReadFrom legacy word) {tokens : List Token}
    (same : word.map Lexeme.origin = tokens.map Token.origin) (apart : Token.Apart tokens) :
    Token.Spans tokens definition.mark := by
  have covered := Draft.Read.empty.run read.run same apart
  rw [List.nil_append] at covered
  obtain ⟨definitions, stage, -, rfl⟩ := covered
  cases stage
  rcases definitions with _ | ⟨own, ⟨⟩⟩
  rw [List.flatten_singleton, List.append_nil]
  exact own.spans

theorem Draft.view_empty {Mark Other : Type} (change : Mark → Other) (comments : Bool) :
    (Draft.empty : Draft Mark).view change comments = Draft.empty := rfl

/-- The slice of a definition is read by itself, and then nothing is above it. -/
theorem Definition.IsReadFrom.reparses {word : List (Lexeme Span)} {part : List Char} {start : Nat}
    {definition : Definition Span} (read : definition.IsReadFrom legacy word)
    (segment : Lexeme.Segment text.toList word part start) :
    ∃ alone, Document.ofText legacy (String.ofList part) =
        .ok ⟨⟨0, Text.size part⟩, [alone]⟩ ∧
      alone.map (Span.shift start) = { definition with leadingComment := none } := by
  have run := (read.inMargin Margin.opening).run
  rw [segment.found, ← Draft.view_empty (Span.shift start) true] at run
  obtain ⟨⟨finished, stage⟩, own, viewed⟩ :=
    (Lexeme.Run.view_iff (Draft.Step.view_iff (Span.preservesUnions_shift start))).1 run
  obtain ⟨single, outside⟩ := Draft.mk.inj viewed
  obtain ⟨alone, rfl, moved⟩ := List.map_eq_singleton_iff.1 single
  cases stage <;> cases outside
  refine ⟨alone, Document.ofLexemes_eq_ok_iff.2 ⟨[alone], ?_, ?_⟩, moved⟩
  · rwa [Lexeme.ofText, Token.ofText, String.toList_ofList]
  · rw [Text.size_eq_utf8ByteSize]
    rfl

/-! ### Types -/

/-- Reading a type does not look at the margin before it. -/
theorem TypeExpr.IsReadFrom.inMargin {word : List (Lexeme Span)} {type : TypeExpr Span}
    (read : type.IsReadFrom legacy word) (margin : Margin) :
    type.IsReadFrom legacy (Lexeme.inMargin margin word) := by
  obtain ⟨members, item, run, finished⟩ := read
  refine ⟨members, item, ?_, finished⟩
  rcases run with _ | ⟨step, rest⟩
  exact .cons (step.withMargin margin.above margin.beside) rest

theorem TypeDraft.mapBoth_empty {Mark Other : Type} (change : Mark → Other) :
    TypeDraft.mapBoth change (Surroundings.outermost, .empty) =
      (Surroundings.outermost, .empty) := rfl

/-- A type is read from views of lexemes if it is the view of one that is read from them. -/
theorem TypeExpr.isReadFrom_view_iff {Mark Other : Type} [Union Mark] [Union Other]
    {change : Mark → Other} (unions : PreservesUnions change) {comments : Bool}
    {word : List (Lexeme Mark)} {type : TypeExpr Other} :
    type.IsReadFrom legacy (word.map (Lexeme.view change comments)) ↔
      ∃ own : TypeExpr Mark, own.IsReadFrom legacy word ∧ own.map change = type := by
  have runs (last : Surroundings Other × TypeDraft Other) :
      Lexeme.Run (TypeDraft.Step legacy) (word.map (Lexeme.view change comments))
          (Surroundings.outermost, .empty) last ↔
        ∃ next, Lexeme.Run (TypeDraft.Step legacy) word (Surroundings.outermost, .empty) next ∧
          TypeDraft.mapBoth change next = last := by
    rw [← TypeDraft.mapBoth_empty change]
    exact Lexeme.Run.view_iff (TypeDraft.Step.view_iff unions)
  constructor
  · rintro ⟨members, item, run, rfl⟩
    obtain ⟨⟨⟨inner, layers⟩, draft⟩, own, viewed⟩ := (runs _).1 run
    obtain ⟨around, complete⟩ := Prod.mk.inj viewed
    obtain ⟨rfl, noLayers⟩ := Surroundings.mk.inj around
    obtain rfl := List.map_eq_nil_iff.1 noLayers
    cases draft <;> cases complete
    exact ⟨_, ⟨inner, _, own, rfl⟩, Surroundings.map_finish unions _ _⟩
  · rintro ⟨_, ⟨members, item, run, rfl⟩, rfl⟩
    refine ⟨members.map (TypeExpr.map change), item.map change, ?_, ?_⟩
    · exact (runs _).2 ⟨_, run, rfl⟩
    · exact (Surroundings.map_finish unions ⟨members, []⟩ item).symm

/-- A type spans what it is read from. -/
theorem TypeExpr.IsReadFrom.spans {word : List (Lexeme Span)} {type : TypeExpr Span}
    (read : type.IsReadFrom legacy word) {tokens : List Token}
    (same : word.map Lexeme.origin = tokens.map Token.origin) (apart : Token.Apart tokens) :
    Token.Spans tokens type.mark := by
  obtain ⟨members, item, run, rfl⟩ := read
  have nothing : TypeRead [] (Surroundings.outermost, .empty) := .intro .nil .nil .empty rfl
  have covered := nothing.run run same apart
  rw [List.nil_append] at covered
  exact (covered.finish apart).spans

theorem TypeExpr.IsReadFrom.ne_nil {word : List (Lexeme Span)} {type : TypeExpr Span}
    (read : type.IsReadFrom legacy word) : word ≠ [] := by
  rintro rfl
  obtain ⟨members, item, ⟨⟩, -⟩ := read

/-! ### Types as the type of a field -/

/-- This is the text of a definition whose only field has the type. -/
def Text.asField (type : List Char) : List Char :=
  "type X \x7b f: ".toList ++ type ++ " \x7d".toList

/-- These lexemes come before the type of the field. -/
def Lexeme.fieldHeading : List (Lexeme Span) :=
  [⟨.identifier, "type", ⟨0, 4⟩, none, none⟩, ⟨.identifier, "X", ⟨5, 6⟩, none, none⟩,
    ⟨.leftBrace, "\x7b", ⟨7, 8⟩, none, none⟩, ⟨.identifier, "f", ⟨9, 10⟩, none, none⟩,
    ⟨.colon, ":", ⟨10, 11⟩, none, none⟩]

/-- The brace after the type stands further on than a space. -/
def Lexeme.fieldEnd (stop : Nat) : Lexeme Span :=
  ⟨.rightBrace, "\x7d", ⟨stop + 1, stop + 2⟩, none, none⟩

theorem Token.scan_fieldHeading (tail : List Char) :
    Token.scan 0 ("type X \x7b f: ".toList ++ tail) =
      Token.scan 0 "type X \x7b f:".toList ++ Token.scan 12 tail := by
  have ends : Text.EndsWithToken "type X \x7b f:".toList := by
    have divided : Token.scan 0 "type X \x7b f:".toList =
        [⟨.identifier, "type", 0⟩, ⟨.identifier, "X", 5⟩, ⟨.leftBrace, "\x7b", 7⟩,
          ⟨.identifier, "f", 9⟩] ++ [⟨.colon, ":", 10⟩] := by decide +kernel
    exact .of_scan divided (by simp [Token.Kind.IsSolid]) (by decide)
  have found := ends 0 (' ' :: tail) (by simp [Token.Delimits, Token.continuesName])
  rwa [Token.scan_space _ _ (by decide)] at found

theorem Token.scan_fieldEnd (start : Nat) :
    Token.scan start " \x7d".toList = [⟨.rightBrace, "\x7d", start + 1⟩] := by
  change Token.scan start (' ' :: ('\x7d' :: [] ++ [])) = _
  rw [Token.scan_space _ _ (by decide), Token.scan_measured (by decide) rfl, Token.scan_nil]
  rfl

/-- A part that ends with a token has its lexemes as the type of a field too. -/
theorem Lexeme.ofText_asField {word : List (Lexeme Span)} {part : List Char} {start : Nat}
    (segment : Lexeme.Segment text.toList word part start) :
    Lexeme.ofText (String.ofList (Text.asField part)) = Lexeme.fieldHeading ++
      (Lexeme.ofTokens Margin.afterLexeme (Token.scan 0 part)).map
        (Lexeme.view (Span.shift 12) true) ++ [Lexeme.fieldEnd (12 + Text.size part)] := by
  have heading : Lexeme.ofTokens Margin.opening (Token.scan 0 "type X \x7b f:".toList) =
      Lexeme.fieldHeading := by decide +kernel
  have passed : (Token.scan 0 "type X \x7b f:".toList).foldl Margin.pass Margin.opening =
      Margin.afterLexeme := by decide +kernel
  have delimits : Token.Delimits " \x7d".toList := by
    simp [Token.Delimits, Token.continuesName]
  have ended : Lexeme.ofTokens Margin.afterLexeme
      (Token.scan (12 + Text.size part) " \x7d".toList) =
        [Lexeme.fieldEnd (12 + Text.size part)] := by
    rw [Token.scan_fieldEnd]
    rfl
  rw [Lexeme.ofText, Token.ofText, String.toList_ofList]
  unfold Text.asField
  rw [List.append_assoc, Token.scan_fieldHeading, Lexeme.ofTokens_append, heading, passed,
    segment.joined _ _ _ delimits, ended, List.append_assoc]

/-- This is the field that has the type. -/
def TypeExpr.asField (type : TypeExpr Span) : Field Span :=
  (Label.mk ⟨⟨9, 10⟩, "f"⟩ false none).field type

/-- This is the definition of the field, which the brace after the type closes. -/
def TypeExpr.asDefinition (type : TypeExpr Span) (stop : Nat) : Definition Span :=
  OpenDefinition.close ⟨⟨0, 4⟩, ⟨⟨5, 6⟩, "X"⟩, none, [type.asField]⟩ (Lexeme.fieldEnd stop).mark

/-- What a type is read from is read in a field too. -/
theorem TypeExpr.IsReadFrom.asDefinition {word : List (Lexeme Span)} {type : TypeExpr Span}
    (read : type.IsReadFrom legacy word) (stop : Nat) :
    Lexeme.Run (Draft.Step legacy) (Lexeme.fieldHeading ++ word ++ [Lexeme.fieldEnd stop])
      Draft.empty ⟨[type.asDefinition stop], .outside⟩ := by
  obtain ⟨members, item, run, rfl⟩ := read
  let opened : OpenDefinition Span := ⟨⟨0, 4⟩, ⟨⟨5, 6⟩, "X"⟩, none, []⟩
  let named : Label Span := ⟨⟨⟨9, 10⟩, "f"⟩, false, none⟩
  have heading : Lexeme.Run (Draft.Step legacy) Lexeme.fieldHeading Draft.empty
      ⟨[], .type opened named Surroundings.outermost .empty⟩ :=
    .cons (.keyword rfl rfl) <| .cons (.typeName rfl) <| .cons (.openBrace rfl) <|
      .cons (.fieldName rfl .body) <| .single (.colon rfl)
  have inType := run.lift
    (fun state => (⟨[], .type opened named state.1 state.2⟩ : Draft Span))
    fun _ _ _ step => Draft.Step.type step
  exact (heading.append inType).append (.single (.closeBrace rfl .type))

/-- The slice of a type is read in a field as that type. -/
theorem TypeExpr.IsReadFrom.reparses {word : List (Lexeme Span)} {part : List Char} {start : Nat}
    {type : TypeExpr Span} (read : type.IsReadFrom legacy word)
    (segment : Lexeme.Segment text.toList word part start) :
    ∃ moved : TypeExpr Span, Document.ofText legacy (String.ofList (Text.asField part)) =
        .ok ⟨⟨0, Text.size (Text.asField part)⟩, [moved.asDefinition (12 + Text.size part)]⟩ ∧
      moved.map (Span.shift start) = type.map (Span.shift 12) := by
  -- The lexemes are taken out of the text to the front, and from there into the field.
  have inText := read.inMargin Margin.afterLexeme
  rw [segment.found, TypeExpr.isReadFrom_view_iff (Span.preservesUnions_shift start)] at inText
  obtain ⟨own, alone, rfl⟩ := inText
  have inField : (own.map (Span.shift 12)).IsReadFrom legacy
      ((Lexeme.ofTokens Margin.afterLexeme (Token.scan 0 part)).map
        (Lexeme.view (Span.shift 12) true)) :=
    (TypeExpr.isReadFrom_view_iff (Span.preservesUnions_shift 12)).2 ⟨own, alone, rfl⟩
  have run := inField.asDefinition (12 + Text.size part)
  rw [← Lexeme.ofText_asField segment] at run
  refine ⟨own.map (Span.shift 12), ?_, ?_⟩
  · refine Document.ofLexemes_eq_ok_iff.2 ⟨_, run, ?_⟩
    rw [Text.size_eq_utf8ByteSize]
    rfl
  · rw [TypeExpr.map_map, TypeExpr.map_map, Span.shift_comp_shift]

/-! ### Every node -/

/-- The part that has some lexemes is the slice at what they span. -/
theorem Lexeme.Segment.slice {word : List (Lexeme Span)} {part : List Char} {start : Nat}
    {mark : Span} (segment : Lexeme.Segment text.toList word part start)
    (spans : ∀ tokens : List Token, word.map Lexeme.origin = tokens.map Token.origin →
      Token.Apart tokens → Token.Spans tokens mark) :
    mark.start = start ∧ Text.slice? text.toList mark = some part := by
  obtain ⟨tokens, same, apart, whole⟩ := segment.spans
  obtain rfl := (spans tokens same apart).unique whole
  exact ⟨rfl, Text.slice?_eq_some_iff.2 segment.slices⟩

/-- The slice of a definition is a document that has this definition only, further to the front and
without the comment above it. -/
def Definition.Reparses (legacy : Bool) (text : String) (definition : Definition Span) : Prop :=
  ∃ part alone, Text.slice? text.toList definition.mark = some part ∧
    Document.ofText legacy (String.ofList part) = .ok ⟨⟨0, Text.size part⟩, [alone]⟩ ∧
    alone.map (Span.shift definition.mark.start) = { definition with leadingComment := none }

/-- The slice of a type is the same type where it stands as that of the only field, which is twelve
bytes from the front. -/
def TypeExpr.Reparses (legacy : Bool) (text : String) (type : TypeExpr Span) : Prop :=
  ∃ part declared field, Text.slice? text.toList type.mark = some part ∧
    Document.ofText legacy (String.ofList (Text.asField part)) =
      .ok ⟨⟨0, Text.size (Text.asField part)⟩, [declared]⟩ ∧
    declared.name.text = "X" ∧ declared.fields = [field] ∧ field.name.text = "f" ∧
    field.isOptional = false ∧
    field.type.map (Span.shift type.mark.start) = type.map (Span.shift 12)

/-- Every definition and every type of a document can be read again from its slice, at any depth and
whatever surrounds it. -/
theorem Document.nodes_reparse (legacy : Bool) (text : String) (document : Document Span)
    (read : Document.ofText legacy text = .ok document) :
    (∀ definition ∈ document.definitions, definition.Reparses legacy text) ∧
      ∀ type, Node.type type ∈ document.nodes → type.Reparses legacy text := by
  obtain ⟨words, lexemes, definitions⟩ := Document.exists_lexemes read
  have inWord := exists_infix_of_forall₂ definitions
  rw [← lexemes] at inWord
  constructor
  · intro definition declared
    obtain ⟨word, within, own⟩ := inWord definition declared
    obtain ⟨part, start, segment⟩ := Document.exists_segment read within own.ne_nil
    obtain ⟨rfl, slice⟩ := segment.slice fun _ same apart => own.spans same apart
    obtain ⟨alone, reparsed, moved⟩ := own.reparses segment
    exact ⟨part, alone, slice, reparsed, moved⟩
  · intro type present
    obtain ⟨definition, declared, field, isField, below⟩ :=
      Document.exists_field_of_mem_nodes present
    obtain ⟨word, within, own⟩ := inWord definition declared
    obtain ⟨block, inside, found⟩ := own.typesFound field isField type below
    obtain ⟨part, start, segment⟩ :=
      Document.exists_segment read (inside.trans within) found.ne_nil
    obtain ⟨rfl, slice⟩ := segment.slice fun _ same apart => found.spans same apart
    obtain ⟨moved, reparsed, same⟩ := found.reparses segment
    exact ⟨part, _, moved.asField, slice, reparsed, rfl, rfl, rfl, rfl, same⟩

/-- Here a comment stands above a definition, and another one inside the union in a list. -/
theorem Document.nodes_reparse_of_live_list :
    ∃ document,
      Document.ofText true "// é\ntype Storage \x7ba: LiveList<Int | // b\n\"é\">[], // c\n\x7d" =
        .ok document ∧
      document.nodes.map (fun node => (node.kindName, node.mark)) = [("Document", ⟨0, 58⟩),
        ("ObjectTypeDefinition", ⟨6, 58⟩), ("TypeName", ⟨11, 18⟩), ("FieldDef", ⟨20, 51⟩),
        ("Identifier", ⟨20, 21⟩), ("ArrayType", ⟨23, 50⟩), ("LiveListType", ⟨23, 48⟩),
        ("UnionType", ⟨32, 47⟩), ("NumberType", ⟨32, 35⟩), ("StringLiteral", ⟨43, 47⟩)] ∧
      (∀ definition ∈ document.definitions, definition.Reparses true
        "// é\ntype Storage \x7ba: LiveList<Int | // b\n\"é\">[], // c\n\x7d") ∧
      ∀ type, Node.type type ∈ document.nodes → type.Reparses true
        "// é\ntype Storage \x7ba: LiveList<Int | // b\n\"é\">[], // c\n\x7d" := by
  apply Document.exists_of_text
    (fun document => document.nodes.map fun node => (node.kindName, node.mark))
    [("Document", ⟨0, 58⟩), ("ObjectTypeDefinition", ⟨6, 58⟩), ("TypeName", ⟨11, 18⟩),
      ("FieldDef", ⟨20, 51⟩), ("Identifier", ⟨20, 21⟩), ("ArrayType", ⟨23, 50⟩),
      ("LiveListType", ⟨23, 48⟩), ("UnionType", ⟨32, 47⟩), ("NumberType", ⟨32, 35⟩),
      ("StringLiteral", ⟨43, 47⟩)]
  · decide +kernel
  · intro document read nodes
    obtain ⟨definitions, types⟩ := Document.nodes_reparse true _ document read
    exact ⟨nodes, definitions, types⟩

end StorageSchema
