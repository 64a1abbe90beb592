/-
This file shows that the marks of a document follow its text. They come from the tokens that the
nodes cover, and these stand apart from one another.
-/
import StorageSchema.Proofs.Check.Report
import StorageSchema.Proofs.Draft.Cover

namespace StorageSchema

variable {legacy : Bool} {text : String} {document : Document Span}

theorem Token.slices_of_mem_inside {token : Token} (present : token ∈ Token.inside text) :
    Text.Slices text.toList token.span token.text.toList :=
  Token.slices_of_mem_ofText (List.mem_filter.1 present).1

theorem Document.blocks (read : Document.ofText legacy text = .ok document) :
    Token.Blocks Node.Covers (Token.inside text) (Node.document document).children := by
  obtain ⟨words, whole, all⟩ := Document.exists_words read
  rw [whole]
  exact .of_forall₂ all

/-- Every other node of a document covers a part of its tokens. -/
theorem Document.exists_block (read : Document.ofText legacy text = .ok document)
    {node : Node Span} (present : node ∈ document.nodes) :
    node = .document document ∨ ∃ block, block <:+: Token.inside text ∧ node.Covers block :=
  (Document.mem_nodes_iff.1 present).exists_block (Document.blocks read)

/-- The mark of a node that covers tokens begins with one of them and ends with one. -/
theorem Node.Covers.exists_ends {block : List Token} {node : Node Span}
    (covers : node.Covers block) (within : block <:+: Token.inside text) :
    node.mark.start < node.mark.stop ∧
      (∃ token ∈ Token.inside text, token.start = node.mark.start) ∧
      ∃ token ∈ Token.inside text, token.span.stop = node.mark.stop := by
  have placed := covers.spans.placed ((Token.apart_inside text).sublist within.sublist)
  obtain ⟨first, last, heads, ends, mark⟩ := covers.spans
  refine ⟨placed, ⟨first, ?_, ?_⟩, ⟨last, ?_, ?_⟩⟩
  · exact within.subset (List.mem_of_mem_head? heads)
  · rw [mark]
  · exact within.subset (List.mem_of_getLast? ends)
  · rw [mark]

/-- The mark of every node is placed in the text. -/
theorem Document.placed_of_mem_nodes (read : Document.ofText legacy text = .ok document)
    {node : Node Span} (present : node ∈ document.nodes) :
    node.mark.PlacedIn text.toList := by
  rcases Document.exists_block read present with rfl | ⟨block, within, covers⟩
  · change document.mark.PlacedIn text.toList
    rw [Document.mark_of_ofText read]
    refine ⟨Nat.zero_le _, ⟨[], text.toList, rfl, rfl⟩, ⟨text.toList, [], ?_, ?_⟩⟩
    · rw [List.append_nil]
    · exact (Text.size_toList text).symm
  · obtain ⟨solid, ⟨first, firstInside, starts⟩, ⟨last, lastInside, stops⟩⟩ :=
      covers.exists_ends within
    have begins := (Token.slices_of_mem_inside firstInside).placed.start
    have ends := (Token.slices_of_mem_inside lastInside).placed.stop
    rw [show first.span.start = node.mark.start from starts] at begins
    rw [stops] at ends
    exact ⟨solid.le, begins, ends⟩

/-- The children of a node lie in its mark one after the other. -/
theorem Document.marks_of_children (read : Document.ofText legacy text = .ok document)
    {node : Node Span} (present : node ∈ document.nodes) :
    (∀ child ∈ node.children, node.mark.start ≤ child.mark.start ∧
      child.mark.stop ≤ node.mark.stop) ∧
    node.children.Pairwise fun first second => first.mark.stop ≤ second.mark.start := by
  have apart := Token.apart_inside text
  rcases Document.exists_block read present with rfl | ⟨word, within, covers⟩
  · refine ⟨?_, Node.pairwise_children (Document.blocks read) apart⟩
    intro child below
    have inner := Document.mem_nodes_iff.2 (.child .self below)
    have ends := (Document.placed_of_mem_nodes read inner).stop.le_utf8ByteSize
    change document.mark.start ≤ _ ∧ _ ≤ document.mark.stop
    rw [Document.mark_of_ofText read]
    exact ⟨Nat.zero_le _, ends⟩
  · have own := apart.sublist within.sublist
    refine ⟨?_, Node.pairwise_children covers.blocks own⟩
    intro child below
    obtain ⟨block, part, inner⟩ := covers.blocks.exists_block child below
    obtain ⟨first, last, heads, ends, mark⟩ := inner.spans
    rw [mark]
    have firstInside := part.subset (List.mem_of_mem_head? heads)
    have lastInside := part.subset (List.mem_of_getLast? ends)
    exact ⟨(covers.spans.covers own firstInside).1, (covers.spans.covers own lastInside).2⟩

/-- A node that is a name has it in the text. -/
theorem Document.slices_of_name (read : Document.ofText legacy text = .ok document)
    {node : Node Span} (present : node ∈ document.nodes) {name : Name Span}
    (named : node = .typeName name ∨ node = .fieldName name) :
    Text.Slices text.toList name.mark name.text.toList := by
  have covered : ∃ block, block <:+: Token.inside text ∧ Token.Spans block name.mark ∧
      block.map Token.symbol = [.word name.text] := by
    rcases Document.exists_block read present with rfl | ⟨block, within, covers⟩
    · rcases named with other | other <;> cases other
    · rcases named with rfl | rfl <;> exact ⟨block, within, covers.spans, covers.spells⟩
  obtain ⟨block, within, spans, spells⟩ := covered
  obtain ⟨token, rest, rfl, symbol, none⟩ := List.map_eq_cons_iff.1 spells
  obtain rfl := List.map_eq_nil_iff.1 none
  obtain ⟨first, last, heads, ends, mark⟩ := spans
  obtain rfl := Option.some.inj heads
  obtain rfl := Option.some.inj ends
  rw [mark, ← show token.text = name.text from congrArg Symbol.text symbol]
  exact Token.slices_of_mem_inside (within.subset List.mem_cons_self)

/-- A comma that comes first belongs to what ends before it. -/
def Token.stopWithComma (stop : Nat) : List Token → Nat
  | [] => stop
  | token :: _ => if token.kind = .comma then token.span.stop else stop

/-- No comma follows the tokens of a field in its definition. -/
theorem Field.exists_word {words : List (List Token)} {fields : List (Field Span)}
    (all : List.Forall₂ (fun word field => Token.Spans word field.mark ∧ field.Spells word) words
      fields) {field : Field Span} (present : field ∈ fields) {closing : Token}
    (noComma : closing.kind ≠ .comma) :
    ∃ before word next after, words.flatten ++ [closing] = before ++ word ++ next :: after ∧
      Token.Spans word field.mark ∧ field.Spells word ∧ next.kind ≠ .comma := by
  induction all with
  | nil => cases present
  | @cons word other words fields own rest inductionHypothesis =>
      rcases List.mem_cons.1 present with rfl | later
      · cases rest with
        | nil => exact ⟨[], word, closing, [], by simp, own.1, own.2, noComma⟩
        | @cons _ _ others _ following _ =>
            obtain ⟨-, name, middle, comma, rfl, isName, -⟩ := following
            refine ⟨[], word, name, middle ++ comma ++ others.flatten ++ [closing], ?_, own.1,
              own.2, by simp [isName]⟩
            simp
      · obtain ⟨before, found, next, after, divided, spells⟩ := inductionHypothesis later
        refine ⟨word ++ before, found, next, after, ?_, spells⟩
        rw [List.flatten_cons, List.append_assoc, divided]
        simp

/-- The mark of a field reaches to the comma after its type if there is one. -/
theorem Field.Spells.mark_eq {word : List Token} {field : Field Span} (spells : field.Spells word)
    (spans : Token.Spans word field.mark) {next : Token} (noComma : next.kind ≠ .comma)
    (after : List Token) :
    ∃ name middle rest, word ++ next :: after = name :: middle ++ rest ∧
      name.span = field.name.mark ∧
      (name :: middle).getLast?.map (·.span.stop) = some field.type.mark.stop ∧
      field.mark = ⟨name.start, Token.stopWithComma field.type.mark.stop rest⟩ := by
  obtain ⟨name, middle, comma, rfl, -, starts, stops, noneOrOne⟩ := spells
  obtain ⟨first, last, heads, ends, mark⟩ := spans
  obtain rfl := Option.some.inj heads
  rcases noneOrOne with rfl | ⟨sign, rfl, isComma⟩
  · rw [List.append_nil] at ends ⊢
    refine ⟨name, middle, next :: after, rfl, starts, stops, ?_⟩
    rw [ends] at stops
    rw [mark, Token.stopWithComma, if_neg noComma]
    exact congrArg _ (Option.some.inj stops)
  · refine ⟨name, middle, sign :: next :: after, by simp, starts, stops, ?_⟩
    obtain rfl : sign = last := by
      rw [List.getLast?_concat] at ends
      exact Option.some.inj ends
    rw [mark, Token.stopWithComma, if_pos isComma]

/-- A definition reaches from its keyword to the first closing brace after it. -/
theorem Definition.exists_ends {block : List Token} {definition : Definition Span}
    (covers : (Node.definition definition).Covers block) :
    ∃ keyword name opening middle closing,
      block = keyword :: name :: opening :: middle ++ [closing] ∧
      keyword.symbol = .word "type" ∧ name.span = definition.name.mark ∧
      opening.kind = .leftBrace ∧ closing.kind = .rightBrace ∧
      (∀ token ∈ middle, token.kind ≠ .rightBrace) ∧
      definition.mark = ⟨keyword.start, closing.span.stop⟩ := by
  obtain ⟨keyword, name, opening, words, closing, rfl, isKeyword, named, isOpening, isClosing,
    noBrace, -⟩ := covers.spells
  obtain ⟨first, last, heads, ends, mark⟩ := covers.spans
  obtain rfl := Option.some.inj heads
  obtain rfl : closing = last := by
    rw [List.getLast?_concat] at ends
    exact Option.some.inj ends
  exact ⟨keyword, name, opening, words.flatten, closing, rfl, isKeyword, named, isOpening,
    isClosing, noBrace, mark⟩

/-- A field in a definition reaches from its name to its comma or to the end of its type. -/
theorem Definition.exists_field_ends {block : List Token} {definition : Definition Span}
    (covers : (Node.definition definition).Covers block) {field : Field Span}
    (isField : field ∈ definition.fields) (later : List Token) :
    ∃ before name middle after, block ++ later = before ++ name :: middle ++ after ∧
      name.span = field.name.mark ∧
      (name :: middle).getLast?.map (·.span.stop) = some field.type.mark.stop ∧
      field.mark = ⟨name.start, Token.stopWithComma field.type.mark.stop after⟩ := by
  obtain ⟨keyword, name, opening, words, closing, rfl, -, -, -, isClosing, -, fields⟩ :=
    covers.spells
  have closes : closing.kind ≠ .comma := by simp [isClosing]
  obtain ⟨before, word, next, after, divided, spans, spells, noComma⟩ :=
    Field.exists_word fields isField closes
  obtain ⟨fieldName, middle, rest, joined, starts, stops, mark⟩ :=
    spells.mark_eq spans noComma (after ++ later)
  refine ⟨keyword :: name :: opening :: before, fieldName, middle, rest, ?_, starts, stops, mark⟩
  rw [List.append_assoc _ (fieldName :: middle), ← joined]
  have inner := congrArg (· ++ later) divided
  simp only [List.append_assoc, List.cons_append, List.nil_append] at inner ⊢
  rw [inner]

/-- The marks of a document map its text. The document has the whole text. Every other node begins
with one significant token of the text and ends with one, and so it is not empty and stands between
boundaries. Children lie in the marks of their parents one after the other. A name has its mark
where it stands in the text. A definition reaches from its keyword to the brace that closes it, and
a field reaches from its name to its comma, or to the end of its type if it has none. -/
theorem Document.marks_map_text (legacy : Bool) (text : String) (document : Document Span)
    (read : Document.ofText legacy text = .ok document) :
    document.mark = ⟨0, text.utf8ByteSize⟩ ∧
    (∀ node, (Node.document document).Inside node → node = .document document ∨
      node.mark.start < node.mark.stop ∧ node.mark.stop ≤ text.utf8ByteSize ∧
      Text.IsBoundary text.toList node.mark.start ∧ Text.IsBoundary text.toList node.mark.stop ∧
      (∃ token ∈ Token.inside text, token.start = node.mark.start) ∧
      ∃ token ∈ Token.inside text, token.span.stop = node.mark.stop) ∧
    (∀ node, (Node.document document).Inside node →
      (∀ child ∈ node.children,
        node.mark.start ≤ child.mark.start ∧ child.mark.stop ≤ node.mark.stop) ∧
      node.children.Pairwise fun first second => first.mark.stop ≤ second.mark.start) ∧
    (∀ name, (Node.document document).Inside (.typeName name) ∨
        (Node.document document).Inside (.fieldName name) →
      Text.slice? text.toList name.mark = some name.text.toList) ∧
    ∀ definition ∈ document.definitions,
      (∃ before keyword name opening middle closing after,
        Token.inside text =
          before ++ keyword :: name :: opening :: middle ++ closing :: after ∧
        keyword.symbol = .word "type" ∧ name.span = definition.name.mark ∧
        opening.kind = .leftBrace ∧ closing.kind = .rightBrace ∧
        (∀ token ∈ middle, token.kind ≠ .rightBrace) ∧
        definition.mark = ⟨keyword.start, closing.span.stop⟩) ∧
      ∀ field ∈ definition.fields, ∃ before name middle after,
        Token.inside text = before ++ name :: middle ++ after ∧ name.span = field.name.mark ∧
        (name :: middle).getLast?.map (·.span.stop) = some field.type.mark.stop ∧
        field.mark = ⟨name.start, Token.stopWithComma field.type.mark.stop after⟩ := by
  refine ⟨Document.mark_of_ofText read, ?_, ?_, ?_, ?_⟩
  · intro node inside
    have present := Document.mem_nodes_iff.2 inside
    rcases Document.exists_block read present with whole | ⟨block, within, covers⟩
    · exact .inl whole
    · have placed := Document.placed_of_mem_nodes read present
      obtain ⟨solid, first, last⟩ := covers.exists_ends within
      exact .inr ⟨solid, placed.stop.le_utf8ByteSize, placed.start, placed.stop, first, last⟩
  · intro node inside
    exact Document.marks_of_children read (Document.mem_nodes_iff.2 inside)
  · intro name named
    rw [Text.slice?_eq_some_iff]
    rcases named with inside | inside
    · exact Document.slices_of_name read (Document.mem_nodes_iff.2 inside) (.inl rfl)
    · exact Document.slices_of_name read (Document.mem_nodes_iff.2 inside) (.inr rfl)
  · intro definition declared
    obtain ⟨block, ⟨earlier, later, whole⟩, covers⟩ := (Document.blocks read).exists_block
      (.definition definition) (List.mem_map_of_mem declared)
    constructor
    · obtain ⟨keyword, name, opening, middle, closing, rfl, ends⟩ :=
        Definition.exists_ends covers
      refine ⟨earlier, keyword, name, opening, middle, closing, later, ?_, ends⟩
      rw [← whole]
      simp
    · intro field isField
      obtain ⟨before, name, middle, after, divided, ends⟩ :=
        Definition.exists_field_ends covers isField later
      refine ⟨earlier ++ before, name, middle, after, ?_, ends⟩
      rw [← whole, List.append_assoc earlier, divided]
      simp

/-- Here a field has a comma after a string with a wide character, and the other one ends with a
union. -/
theorem Document.marks_map_text_of_union :
    ∃ document,
      Document.ofText false "# é\ntype A \x7b x: \"é\", y?: A[] | null \x7d" = .ok document ∧
      document.nodes.map Node.mark =
        [⟨0, 39⟩, ⟨5, 39⟩, ⟨10, 11⟩, ⟨14, 22⟩, ⟨14, 15⟩, ⟨17, 21⟩, ⟨23, 37⟩, ⟨23, 24⟩, ⟨27, 37⟩,
          ⟨27, 30⟩, ⟨27, 28⟩, ⟨27, 28⟩, ⟨33, 37⟩] ∧
      document.mark = ⟨0, 39⟩ ∧
      ∀ node, (Node.document document).Inside node →
        node.children.Pairwise fun first second => first.mark.stop ≤ second.mark.start := by
  apply Document.exists_of_text (fun document => document.nodes.map Node.mark)
    [⟨0, 39⟩, ⟨5, 39⟩, ⟨10, 11⟩, ⟨14, 22⟩, ⟨14, 15⟩, ⟨17, 21⟩, ⟨23, 37⟩, ⟨23, 24⟩, ⟨27, 37⟩,
      ⟨27, 30⟩, ⟨27, 28⟩, ⟨27, 28⟩, ⟨33, 37⟩]
  · decide +kernel
  · intro document read marks
    obtain ⟨whole, -, children, -⟩ := Document.marks_map_text false _ document read
    exact ⟨marks, whole, fun node inside => (children node inside).2⟩

end StorageSchema
