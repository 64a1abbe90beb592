/-
This file shows that the written form of a normal document is read into that document. The reader is
followed through the text together with the margin, from one line to the next.
-/
import StorageSchema.Proofs.Comments.TextLines
import StorageSchema.Proofs.Written.TypeExpr

namespace StorageSchema

open Token (Delimits IsIdentifier)

variable {Mark : Type} {legacy : Bool} {spell : Double → List Char}

/-- The reader moves past a token together with its margin. -/
inductive Draft.Move (legacy : Bool) (lexeme : Lexeme Unit) :
    Margin × Draft Unit → Margin × Draft Unit → Prop where
  | comment {margin : Margin} {draft : Draft Unit} : lexeme.kind = .comment →
      Move legacy lexeme (margin, draft) (margin.addComment (commentBody lexeme.text), draft)
  | newline {margin : Margin} {draft : Draft Unit} : lexeme.kind = .newline →
      Move legacy lexeme (margin, draft) (margin.endLine, draft)
  | step {margin : Margin} {draft next : Draft Unit} :
      Draft.Step legacy { lexeme with above := margin.above, beside := margin.beside } draft next →
      Move legacy lexeme (margin, draft) (Margin.afterLexeme, next)

/-- The reader moves over a word from one symbol to the next. -/
def Draft.Moves (legacy : Bool) (word : List Symbol) (state next : Margin × Draft Unit) : Prop :=
  Lexeme.Run (Draft.Move legacy) (word.map Symbol.lexeme) state next

theorem Draft.Moves.append {first second : List Symbol} {state next last : Margin × Draft Unit}
    (left : Draft.Moves legacy first state next) (right : Draft.Moves legacy second next last) :
    Draft.Moves legacy (first ++ second) state last := by
  rw [Draft.Moves, List.map_append]
  exact Lexeme.Run.append left right

/-- The moves over the symbols of a text take the steps of its lexemes with their comments. -/
theorem Draft.Moves.run {tokens : List Token} {margin last : Margin} {draft next : Draft Unit}
    (moves : Draft.Moves legacy (tokens.map Token.symbol) (margin, draft) (last, next)) :
    Lexeme.Run (Draft.Step legacy)
      ((Lexeme.ofTokens margin tokens).map (Lexeme.outline true)) draft next := by
  induction tokens generalizing margin draft with
  | nil =>
      cases moves
      exact .nil
  | cons token rest inductionHypothesis =>
      rcases moves with _ | ⟨move, moves⟩
      cases move with
      | comment isComment =>
          have insignificant : token.isSignificant = false :=
            decide_eq_false fun solid => solid.1 isComment
          rw [Lexeme.ofTokens_insignificant _ rest insignificant,
            Margin.pass_comment margin isComment]
          exact inductionHypothesis moves
      | newline isNewline =>
          have insignificant : token.isSignificant = false :=
            decide_eq_false fun solid => solid.2 isNewline
          rw [Lexeme.ofTokens_insignificant _ rest insignificant,
            Margin.pass_newline margin isNewline]
          exact inductionHypothesis moves
      | step step =>
          have solid := step.isSolid
          have significant : token.isSignificant = true := decide_eq_true ⟨solid.1, solid.2.1⟩
          rw [Lexeme.ofTokens_significant _ rest significant]
          exact .cons step (inductionHypothesis moves)

/-- Just after a lexeme no comment is at hand, and what is read goes on in the same way. -/
theorem Draft.Reads.moves {word : List Symbol} {draft next : Draft Unit}
    (read : Draft.Reads legacy word draft next) :
    Draft.Moves legacy word (Margin.afterLexeme, draft) (Margin.afterLexeme, next) := by
  induction word generalizing draft with
  | nil =>
      cases read
      exact .nil
  | cons symbol rest inductionHypothesis =>
      rcases read with _ | ⟨step, read⟩
      exact .cons (.step step) (inductionHypothesis read)

/-- A text moves the reader from one state to another if it is divided into symbols that do so,
whatever follows it. -/
def Text.Moves (legacy : Bool) (text : List Char) (state next : Margin × Draft Unit) : Prop :=
  ∃ word, (∀ tail, Symbol.scan (text ++ tail) = word ++ Symbol.scan tail) ∧
    Draft.Moves legacy word state next

theorem Text.Moves.nil (state : Margin × Draft Unit) : Text.Moves legacy [] state state :=
  ⟨[], fun _ => rfl, .nil⟩

theorem Text.Moves.append {first second : List Char} {state next last : Margin × Draft Unit}
    (left : Text.Moves legacy first state next) (right : Text.Moves legacy second next last) :
    Text.Moves legacy (first ++ second) state last := by
  obtain ⟨word, scanned, moves⟩ := left
  obtain ⟨other, scannedOther, movesOther⟩ := right
  refine ⟨word ++ other, ?_, ?_⟩
  · intro tail
    rw [List.append_assoc, scanned, scannedOther, List.append_assoc]
  · exact moves.append movesOther

theorem Text.Moves.space {text : List Char} {state next : Margin × Draft Unit}
    (moves : Text.Moves legacy text state next) : Text.Moves legacy (' ' :: text) state next := by
  obtain ⟨word, scanned, moves⟩ := moves
  refine ⟨word, ?_, moves⟩
  intro tail
  rw [List.cons_append, Symbol.scan_space rfl, scanned]

theorem Text.Moves.indent {indent text : List Char} {state next : Margin × Draft Unit}
    (moves : Text.Moves legacy text state next) (spaces : ∀ letter ∈ indent, letter = ' ') :
    Text.Moves legacy (indent ++ text) state next := by
  induction indent with
  | nil => exact moves
  | cons letter rest inductionHypothesis =>
      obtain ⟨rfl, others⟩ := List.forall_mem_cons.1 spaces
      exact (inductionHypothesis others).space

theorem Draft.moves_newline (legacy : Bool) (margin : Margin) (draft : Draft Unit) :
    Draft.Moves legacy [.sign '\n'] (margin, draft) (margin.endLine, draft) :=
  .single (.newline rfl)

theorem Text.moves_newline (legacy : Bool) (margin : Margin) (draft : Draft Unit) :
    Text.Moves legacy ['\n'] (margin, draft) (margin.endLine, draft) :=
  ⟨[.sign '\n'], fun tail => Symbol.scan_sign rfl tail, Draft.moves_newline legacy margin draft⟩

/-- A text that spells a word is divided into it, whatever follows, once a sign ends it. -/
theorem Symbol.Spells.moves {text : List Char} {word : List Symbol} (letter : Char)
    {kind : Token.Kind} {state next : Margin × Draft Unit} (spells : Symbol.Spells text word)
    (sign : Token.punctuation? letter = some kind)
    (ends : Token.continuesName letter = false ∧ letter ≠ '.')
    (moves : Draft.Moves legacy (word ++ [.sign letter]) state next) :
    Text.Moves legacy (text ++ [letter]) state next := by
  refine ⟨_, ?_, moves⟩
  intro tail
  rw [List.append_assoc, List.singleton_append, spells _ (Token.delimits_cons ends tail),
    Symbol.scan_sign sign, List.append_assoc]
  rfl

/-! ### Comments -/

theorem Text.trim_space {line : List Char} (trimmed : Text.IsTrimmed line) :
    Text.trim (' ' :: line) = line := by
  have first : line.dropWhile Text.isBlank = line := by
    cases line with
    | nil => rfl
    | cons letter rest => exact List.dropWhile_cons_of_neg (by simp [trimmed.1 letter rfl])
  have blank : Text.isBlank ' ' = true := by decide
  rw [Text.trim_eq, List.dropWhile_cons_of_pos blank, first, List.rdropWhile_eq_self_iff]
  intro nonempty
  simp [trimmed.2 _ (List.getLast_mem_getLast? nonempty)]

theorem commentBody_written {line : List Char} (trimmed : Text.IsTrimmed line) :
    commentBody (String.ofList ('#' :: ' ' :: line)) = String.ofList line := by
  rw [commentBody, String.toList_ofList]
  exact congrArg String.ofList (Text.trim_space trimmed)

/-- A written comment ends its line. -/
theorem Text.moves_comment (legacy : Bool) {line : List Char} (single : '\n' ∉ line)
    (trimmed : Text.IsTrimmed line) (margin : Margin) (draft : Draft Unit) :
    Text.Moves legacy ('#' :: ' ' :: line ++ ['\n']) (margin, draft)
      ((margin.addComment (String.ofList line)).endLine, draft) := by
  refine ⟨[⟨.comment, String.ofList ('#' :: ' ' :: line)⟩, .sign '\n'], ?_, ?_⟩
  · intro tail
    have spaced : '\n' ∉ ' ' :: line := by simpa using single
    have found := Symbol.scan_comment spaced tail
    rw [Symbol.scan_sign rfl] at found
    simpa using found
  · rw [← commentBody_written trimmed]
    exact .cons (.comment rfl) (Draft.moves_newline legacy _ draft)

/-- Lines of comments that are written one below the other make up a block. -/
theorem Text.moves_lines (legacy : Bool) {indent : List Char}
    (spaces : ∀ letter ∈ indent, letter = ' ') {lines : List (List Char)}
    (single : ∀ line ∈ lines, '\n' ∉ line)
    (trimmed : ∀ line ∈ lines, Text.IsTrimmed line) (block : List String) (beside : Option String)
    (draft : Draft Unit) :
    Text.Moves legacy (lines.flatMap fun line => indent ++ ['#', ' '] ++ line ++ ['\n'])
      (⟨block, none, beside, true⟩, draft)
      (⟨(lines.map String.ofList).reverse ++ block, none, beside, true⟩, draft) := by
  -- The margin holds the latest line first, so the block before the lines is generalized.
  induction lines generalizing block with
  | nil => exact .nil _
  | cons line rest inductionHypothesis =>
      obtain ⟨firstSingle, othersSingle⟩ := List.forall_mem_cons.1 single
      obtain ⟨firstTrimmed, othersTrimmed⟩ := List.forall_mem_cons.1 trimmed
      have first := (Text.moves_comment legacy firstSingle firstTrimmed
        ⟨block, none, beside, true⟩ draft).indent spaces
      have others := inductionHypothesis othersSingle othersTrimmed (String.ofList line :: block)
      simpa using first.append others

/-- A block of the lines of a comment is that comment. -/
theorem Margin.above_of_splitOn (value : String) (comment beside : Option String)
    (isFresh : Bool) :
    Margin.above ⟨((value.toList.splitOn '\n').map String.ofList).reverse, comment, beside,
      isFresh⟩ = some value := by
  have joined : "\n".intercalate ((value.toList.splitOn '\n').map String.ofList) = value := by
    have letters : ((value.toList.splitOn '\n').map String.ofList).map String.toList =
        value.toList.splitOn '\n' := by
      simp [Function.comp_def]
    rw [← String.toList_inj, String.toList_intercalate, letters]
    exact List.intercalate_splitOn '\n'
  unfold Margin.above
  split
  · next none =>
      have nonempty := List.splitOnP_ne_nil (· == '\n') value.toList
      simp [List.splitOn_eq_splitOnP, nonempty] at none
  · rw [List.reverse_reverse, joined]

/-- Above a thing its comment is gathered in the margin. -/
theorem Text.moves_above (legacy : Bool) {indent : List Char}
    (spaces : ∀ letter ∈ indent, letter = ' ')
    {comment : Option String} (normal : ∀ value ∈ comment, IsLeadingComment value)
    (beside : Option String) (draft : Draft Unit) :
    ∃ margin : Margin, margin.above = comment ∧ margin.beside = beside ∧
      Text.Moves legacy (writtenAbove indent comment) (⟨[], none, beside, true⟩, draft)
        (margin, draft) := by
  cases comment with
  | none => exact ⟨_, rfl, rfl, .nil _⟩
  | some value =>
      refine ⟨_, ?_, rfl, Text.moves_lines legacy spaces (fun line => Text.notMem_of_mem_splitOn)
        (normal value rfl) [] beside draft⟩
      rw [List.append_nil]
      exact Margin.above_of_splitOn value none beside true

/-- The line after a lexeme is like the first one. -/
theorem Margin.endLine_afterLexeme : Margin.afterLexeme.endLine = Margin.opening := rfl

/-- The comment beside a thing ends its line. -/
theorem Text.moves_beside (legacy : Bool) {comment : Option String}
    (normal : ∀ value ∈ comment, IsTrailingComment value) (draft : Draft Unit) :
    Text.Moves legacy (writtenBeside comment ++ ['\n']) (Margin.afterLexeme, draft)
      (⟨[], none, comment, true⟩, draft) := by
  cases comment with
  | none => exact Text.moves_newline legacy Margin.afterLexeme draft
  | some value =>
      obtain ⟨single, trimmed⟩ := normal value rfl
      have moves := Text.moves_comment legacy single trimmed Margin.afterLexeme draft
      rw [String.ofList_toList] at moves
      exact moves.space

/-! ### Fields and definitions -/

/-- A stage awaits another field if the lexeme after it brings the comment beside the last one. -/
def Stage.Awaits (stage : Stage Unit) (beside : Option String) (opened : OpenDefinition Unit) :
    Prop :=
  ∀ lexeme : Lexeme Unit, lexeme.beside = beside → stage.Between lexeme opened

/-- A name and the type after it spell the symbols of a field. -/
theorem Symbol.Spells.field {name : String} (identifier : IsIdentifier name.toList)
    {text : List Char} {word : List Symbol} (spells : Symbol.Spells text word)
    (isOptional : Bool) :
    Symbol.Spells (name.toList ++ (if isOptional then ['?'] else []) ++ [':', ' '] ++ text)
      ([.word name] ++ (Symbol.optional isOptional (.sign '?') ++ [.sign ':'] ++ word)) := by
  have typed := spells.space.sign ':' rfl
  cases isOptional with
  | false => simpa [Symbol.optional] using (Symbol.Spells.word identifier).append typed (by decide)
  | true =>
      simpa [Symbol.optional] using
        (Symbol.Spells.word identifier).append (typed.sign '?' rfl) (by decide)

/-- The line of a field is read into the field, without the comment beside it. -/
theorem Field.moves_line (legacy : Bool) (faithful : Double.IsFaithful spell) {field : Field Mark}
    (normal : field.IsNormal) {margin : Margin} (above : margin.above = field.leadingComment)
    {stage : Stage Unit} {opened : OpenDefinition Unit}
    (awaits : stage.Awaits margin.beside opened) (finished : List (Definition Unit)) :
    Text.Moves legacy
      (field.name.text.toList ++ (if field.isOptional then ['?'] else []) ++ [':', ' '] ++
        field.type.written spell ++ [','])
      (margin, ⟨finished, stage⟩)
      (Margin.afterLexeme, ⟨finished, .comma opened
        { field.outline true with trailingComment := none }⟩) := by
  have written : field.type.outline.IsWritten legacy (field.type.written spell) :=
    field.type.isWritten_written faithful normal.type
  obtain ⟨word, form, -, spells⟩ := written
  refine (spells.field normal.name field.isOptional).moves ',' rfl (by decide) ?_
  obtain ⟨earlier, last, same, read⟩ :=
    form.readsAfterName finished opened field.name.outline field.isOptional field.leadingComment
  have named : Draft.Moves legacy [.word field.name.text] (margin, ⟨finished, stage⟩)
      (Margin.afterLexeme,
        ⟨finished, .label opened ⟨field.name.outline, false, field.leadingComment⟩⟩) := by
    rw [← above]
    exact .single (.step (.fieldName rfl (awaits _ rfl)))
  have goesOn := (read.append (.single (.sign ',') (.comma rfl))).moves
  rw [same] at goesOn
  rw [List.append_assoc]
  exact named.append goesOn

/-- A written field is read into the field, and the next lexeme brings the comment beside it. -/
theorem Field.moves_written (legacy : Bool) (faithful : Double.IsFaithful spell) {field : Field Mark}
    (normal : field.IsNormal) {beside : Option String} {stage : Stage Unit}
    {opened : OpenDefinition Unit} (awaits : stage.Awaits beside opened)
    (finished : List (Definition Unit)) :
    ∃ last : Stage Unit,
      last.Awaits field.trailingComment
        { opened with fields := field.outline true :: opened.fields } ∧
      Text.Moves legacy (field.written spell) (⟨[], none, beside, true⟩, ⟨finished, stage⟩)
        (⟨[], none, field.trailingComment, true⟩, ⟨finished, last⟩) := by
  have spaces : ∀ letter ∈ [' ', ' '], letter = ' ' := by simp
  obtain ⟨margin, above, same, aboveMoves⟩ :=
    Text.moves_above legacy spaces normal.leading beside ⟨finished, stage⟩
  have line := Field.moves_line legacy faithful normal above (same ▸ awaits) finished
  have moves := (aboveMoves.append (line.indent spaces)).append
    (Text.moves_beside legacy normal.trailing _)
  refine ⟨_, ?_, by simpa [Field.written] using moves⟩
  intro lexeme isBeside
  have added : opened.addField { field.outline true with trailingComment := none } lexeme =
      { opened with fields := field.outline true :: opened.fields } := by
    rw [OpenDefinition.addField, isBeside]
    rfl
  rw [← added]
  exact .comma

/-- Written fields are read one after the other. -/
theorem Field.moves_all (legacy : Bool) (faithful : Double.IsFaithful spell)
    {fields : List (Field Mark)} (normal : ∀ field ∈ fields, field.IsNormal)
    {beside : Option String} {stage : Stage Unit}
    {opened : OpenDefinition Unit} (awaits : stage.Awaits beside opened)
    (finished : List (Definition Unit)) :
    ∃ (last : Stage Unit) (comment : Option String),
      last.Awaits comment
        { opened with fields := (fields.map (Field.outline true)).reverse ++ opened.fields } ∧
      Text.Moves legacy (fields.flatMap (Field.written spell))
        (⟨[], none, beside, true⟩, ⟨finished, stage⟩)
        (⟨[], none, comment, true⟩, ⟨finished, last⟩) := by
  -- The comment beside a field is attached by the lexeme after it. The state between two fields
  -- therefore still has that comment in its margin, and its stage awaits it.
  induction fields generalizing beside stage opened with
  | nil => exact ⟨stage, beside, awaits, .nil _⟩
  | cons field rest inductionHypothesis =>
      obtain ⟨first, others⟩ := List.forall_mem_cons.1 normal
      obtain ⟨next, awaitsNext, moves⟩ := Field.moves_written legacy faithful first awaits finished
      obtain ⟨last, comment, awaitsLast, more⟩ := inductionHypothesis others awaitsNext
      refine ⟨last, comment, by simpa using awaitsLast, ?_⟩
      rw [List.flatMap_cons]
      exact moves.append more

/-- The heading of a definition opens it with the comment above. -/
theorem Definition.moves_heading (legacy : Bool) {name : String}
    (identifier : IsIdentifier name.toList) (margin : Margin) (finished : List (Definition Unit)) :
    Text.Moves legacy ("type".toList ++ [' '] ++ name.toList ++ [' ', '\x7b', '\n'])
      (margin, ⟨finished, .outside⟩)
      (Margin.opening, ⟨finished, .body ⟨(), ⟨(), name⟩, margin.above, []⟩⟩) := by
  have keyword : Symbol.Spells "type".toList [.word "type"] := .word (by decide)
  have named := (Symbol.Spells.word identifier).append
    (Symbol.Spells.space (.sign '\x7b' rfl .nil)) (by decide)
  have spells := keyword.append named.space (by decide)
  have opened : Draft.Reads legacy [.word name, .sign '\x7b']
      ⟨finished, .keyword () margin.above⟩
      ⟨finished, .body ⟨(), ⟨(), name⟩, margin.above, []⟩⟩ :=
    .cons (.typeName rfl) (.single (.openBrace rfl))
  have begun : Draft.Moves legacy [.word "type"] (margin, ⟨finished, .outside⟩)
      (Margin.afterLexeme, ⟨finished, .keyword () margin.above⟩) :=
    .single (.step (.keyword rfl rfl))
  have moves := spells.moves '\n' rfl (by decide)
    ((begun.append opened.moves).append (Draft.moves_newline legacy _ _))
  rw [Margin.endLine_afterLexeme] at moves
  simpa using moves

/-- A written definition is read into the definition. -/
theorem Definition.moves_written (legacy : Bool) (faithful : Double.IsFaithful spell)
    {definition : Definition Mark} (normal : definition.IsNormal)
    (finished : List (Definition Unit)) :
    Text.Moves legacy (definition.written spell) (Margin.opening, ⟨finished, .outside⟩)
      (Margin.opening, ⟨definition.outline true :: finished, .outside⟩) := by
  obtain ⟨margin, above, -, aboveMoves⟩ :=
    Text.moves_above legacy (List.forall_mem_nil _) normal.leading none ⟨finished, .outside⟩
  change Text.Moves legacy _ (Margin.opening, _) _ at aboveMoves
  have heading := Definition.moves_heading legacy normal.name margin finished
  have awaits : Stage.Awaits (.body ⟨(), ⟨(), definition.name.text⟩, margin.above, []⟩) none _ :=
    fun _ _ => .body
  obtain ⟨last, comment, awaitsBrace, fields⟩ :=
    Field.moves_all legacy faithful normal.fields awaits finished
  have closed : (OpenDefinition.close ⟨(), ⟨(), definition.name.text⟩, margin.above,
      (definition.fields.map (Field.outline true)).reverse ++ []⟩ ()) =
        definition.outline true := by
    rw [above, List.append_nil, OpenDefinition.close, List.reverse_reverse]
    rfl
  have brace : Draft.Moves legacy [.sign '\x7d']
      (⟨[], none, comment, true⟩, ⟨finished, last⟩)
      (Margin.afterLexeme, ⟨definition.outline true :: finished, .outside⟩) := by
    rw [← closed]
    exact .single (.step (.closeBrace rfl (awaitsBrace _ rfl)))
  have ended := Text.moves_newline legacy Margin.afterLexeme
    ⟨definition.outline true :: finished, .outside⟩
  rw [Margin.endLine_afterLexeme] at ended
  have moves := ((aboveMoves.append heading).append fields).append
    ((Symbol.Spells.nil.moves '\x7d' rfl (by decide) brace).append ended)
  simpa [Definition.written] using moves

/-- Definitions that are written with blank lines between them are read one after the other. -/
theorem Definition.moves_all (legacy : Bool) (faithful : Double.IsFaithful spell) :
    (definitions : List (Definition Mark)) → (∀ definition ∈ definitions, definition.IsNormal) →
      (finished : List (Definition Unit)) →
      Text.Moves legacy (['\n'].intercalate (definitions.map (Definition.written spell)))
        (Margin.opening, ⟨finished, .outside⟩)
        (Margin.opening, ⟨(definitions.map (Definition.outline true)).reverse ++ finished, .outside⟩)
  | [], _, _ => .nil _
  | [definition], normal, finished => by
      have moves := Definition.moves_written legacy faithful (List.forall_mem_singleton.1 normal)
        finished
      simpa using moves
  | definition :: second :: rest, normal, finished => by
      obtain ⟨first, others⟩ := List.forall_mem_cons.1 normal
      have moves := Definition.moves_written legacy faithful first finished
      have blank := Text.moves_newline legacy Margin.opening
        ⟨definition.outline true :: finished, .outside⟩
      have more := Definition.moves_all legacy faithful (second :: rest) others
        (definition.outline true :: finished)
      simpa using moves.append (blank.append more)

/-! ### Documents -/

/-- A text that moves the reader from its opening to the outside of all definitions is read. -/
theorem Text.Moves.exists_document {text : List Char} {margin : Margin}
    {finished : List (Definition Unit)}
    (moves : Text.Moves legacy text (Margin.opening, Draft.empty) (margin, ⟨finished, .outside⟩)) :
    ∃ document, Document.ofText legacy (String.ofList text) = .ok document ∧
      document.outline true = ⟨(), finished.reverse⟩ := by
  obtain ⟨word, scanned, moves⟩ := moves
  have symbols : (Token.ofText (String.ofList text)).map Token.symbol = word := by
    have whole := scanned []
    rw [List.append_nil, Symbol.scan_nil, List.append_nil] at whole
    rw [Token.ofText, String.toList_ofList, ← whole]
    rfl
  rw [← symbols] at moves
  exact Document.exists_of_outline (Document.ofLexemes_eq_ok_iff.2 ⟨finished, moves.run, rfl⟩)

theorem Document.exists_of_written (legacy : Bool) (faithful : Double.IsFaithful spell)
    {document : Document Mark} (normal : document.IsNormal) :
    ∃ read, Document.ofText legacy (String.ofList (document.written spell)) = .ok read ∧
      read.outline true = document.outline true := by
  obtain ⟨read, found, same⟩ :=
    (Definition.moves_all legacy faithful document.definitions normal []).exists_document
  rw [List.append_nil, List.reverse_reverse] at same
  exact ⟨read, found, same⟩

/-- The documents that are read are normal, and in either mode a normal document is read from its
written form, with everything in it but the marks. -/
theorem Document.written_faithful (spell : Double → List Char)
    (faithful : Double.IsFaithful spell) :
    (∀ legacy text document, Document.ofText legacy text = .ok document → document.IsNormal) ∧
      ∀ (legacy : Bool) (document : Document Mark), document.IsNormal →
        ∃ read, Document.ofText legacy (String.ofList (document.written spell)) = .ok read ∧
          read.outline true = document.outline true :=
  ⟨fun _ _ _ read => Document.isNormal_of_ofText read,
    fun legacy _ normal => Document.exists_of_written legacy faithful normal⟩

/-- Here a definition has comments, and its field is optional and has a union as its type. -/
theorem Document.written_faithful_of_union :
    ∃ (spell : Double → List Char) (document : Document Unit),
      Double.IsFaithful spell ∧ document.IsNormal ∧
      document.written spell =
        "# a\n# b\ntype A \x7b\n  # c\n  x?: -1.5 | null[], # d\n\x7d\n".toList ∧
      ∃ read, Document.ofText false
          "# a\n# b\ntype A \x7b\n  # c\n  x?: -1.5 | null[], # d\n\x7d\n" = .ok read ∧
        read.outline true = document := by
  have magnitude : Token.IsMagnitude (['1'] ++ '.' :: ['5']) :=
    .fraction (by decide) (by decide)
  have spells : Double.IsSpelling ['-', '1', '.', '5'] (Double.ofDecimal ⟨true, 15, 1⟩) :=
    ⟨.negative magnitude, rfl⟩
  obtain ⟨spell, faithful, same⟩ := Double.exists_isFaithful spells
  have type : TypeExpr.IsNormal (.union () [.number () (Double.ofDecimal ⟨true, 15, 1⟩),
      .array () (.scalar () .null)]) :=
    ⟨by decide, ⟨id, _, spells⟩, ⟨id, id, trivial⟩, trivial⟩
  have field : Field.IsNormal ⟨(), ⟨(), "x"⟩, true, _, some "c", some "d"⟩ :=
    ⟨by decide, type, by decide, by decide⟩
  have normal : Document.IsNormal ⟨(), [⟨(), ⟨(), "A"⟩, [_], some "a\nb"⟩]⟩ :=
    List.forall_mem_singleton.2 ⟨by decide, List.forall_mem_singleton.2 field, by decide⟩
  have text : Document.written spell ⟨(), [⟨(), ⟨(), "A"⟩, [⟨(), ⟨(), "x"⟩, true,
      .union () [.number () (Double.ofDecimal ⟨true, 15, 1⟩), .array () (.scalar () .null)],
      some "c", some "d"⟩], some "a\nb"⟩]⟩ =
        "# a\n# b\ntype A \x7b\n  # c\n  x?: -1.5 | null[], # d\n\x7d\n".toList := by
    simp only [Document.written, List.map_singleton, Definition.written, List.flatMap_singleton,
      Field.written, TypeExpr.written, TypeExpr.writtenAll, same]
    decide
  have written := (Document.written_faithful spell faithful).2 false _ normal
  rw [text, String.ofList_toList] at written
  exact ⟨spell, _, faithful, normal, text, written⟩

end StorageSchema
