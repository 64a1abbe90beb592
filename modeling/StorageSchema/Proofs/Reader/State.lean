/-
This file shows what a reader looks at and takes. It sees the lexemes of its text one after another,
with the comments around them, and then the ending.
-/
import StorageSchema.Proofs.Comments.Slots
import StorageSchema.Proofs.Reader.Trivia
import StorageSchema.Proofs.Token.Fitting
import StorageSchema.Reader.TypeExpr

namespace StorageSchema

/-! ### What is read of a lexeme -/

theorem Decimal.isUnsigned_of_magnitude {text : List Char} (magnitude : Token.IsMagnitude text) :
    Decimal.isUnsigned text = true := by
  cases magnitude with
  | whole isDigits =>
      have ended : (text ++ []).dropWhile Char.isDigit = [] :=
        List.dropWhile_append_of_pos isDigits.2
      rw [List.append_nil] at ended
      simp [Decimal.isUnsigned, ended, isDigits.1]
  | @fraction digits places isWhole isPlaces =>
      obtain ⟨first, others, rfl⟩ := List.exists_cons_of_ne_nil isWhole.1
      have point : ('.' : Char).isDigit = false := by decide
      have isDigit := isWhole.2 first List.mem_cons_self
      have areDigits : places.all Char.isDigit = true := List.all_eq_true.2 isPlaces.2
      rw [Decimal.isUnsigned, List.dropWhile_append_of_pos isWhole.2,
        List.dropWhile_cons_of_neg (by simp [point])]
      simp [isDigit, isPlaces.1, areDigits]

/-- Every numeral is read as a number. -/
theorem Decimal.ofSpelling?_of_numeral {text : List Char} (numeral : Token.IsNumeral text) :
    Decimal.ofSpelling? text = some (Decimal.ofSpelling text) := by
  cases numeral with
  | positive magnitude =>
      obtain ⟨digit, others, rfl, isDigit⟩ := magnitude.exists_digit
      have noSign : digit ≠ '-' := by
        rintro rfl
        exact absurd isDigit (by decide)
      simp [Decimal.ofSpelling?, noSign, Decimal.isUnsigned_of_magnitude magnitude]
  | negative magnitude =>
      simp [Decimal.ofSpelling?, Decimal.isUnsigned_of_magnitude magnitude]

/-- The value of a quoted text is cut out from between its quotes. -/
theorem Text.Quoted.value?_of_isQuoted {text : String} (quoted : Text.IsQuoted text.toList) :
    Text.Quoted.value? text = some (String.ofList (Text.Quoted.decode text.toList)) := by
  obtain ⟨quote, inner, narrow, spelled, sliced, decoded⟩ := quoted
  have slices := Text.slice?_eq_some_iff.1 sliced
  rw [Text.size_toList] at slices
  have positive : ¬ text.utf8ByteSize = 0 := by
    rw [← Text.size_toList, spelled]
    simp [narrow]
  rw [Text.Quoted.value?, if_neg positive, Text.part?_of_slices slices, decoded, Option.map_some,
    String.toList_ofList]

/-- The cut of a lexeme is what a reader sees of it. -/
def Lexeme.cut (lexeme : Lexeme Span) : Cut := ⟨lexeme.kind, lexeme.mark⟩

/-- A lexeme fits a text if it is a part of the text, and if numbers and strings have values. -/
structure Lexeme.FitsText (text : String) (lexeme : Lexeme Span) : Prop where
  part : Text.part? text lexeme.mark = some lexeme.text
  numeral : lexeme.kind = .number →
    Decimal.ofSpelling? lexeme.text.toList = some (Decimal.ofSpelling lexeme.text.toList)
  quoted : lexeme.kind = .string → Text.Quoted.value? lexeme.text =
    some (String.ofList (Text.Quoted.decode lexeme.text.toList))

theorem Token.FitsText.lexeme {text : String} {token : Token}
    (present : token ∈ Token.ofText text ++ [Token.endOf text]) (above beside : Option String) :
    Lexeme.FitsText text ⟨token.kind, token.text, token.span, above, beside⟩ where
  part := Token.part?_of_mem present
  numeral isNumber :=
    Decimal.ofSpelling?_of_numeral ((Token.fitsText_of_mem present).numeral isNumber)
  quoted isString :=
    Text.Quoted.value?_of_isQuoted ((Token.fitsText_of_mem present).quoted isString)

/-! ### Lexemes still to come -/

/-- These are the lexemes of some tokens and the ending of the text after them. -/
def Lexeme.upTo (text : String) (hasTaken : Bool) (tokens : List Token) : List (Lexeme Span) :=
  Lexeme.ofTokens (Margin.start hasTaken) tokens ++ [Lexeme.endOf text]

theorem Lexeme.ofTokens_of_insignificant {tokens : List Token}
    (insignificant : ∀ token ∈ tokens, token.isSignificant = false) (margin : Margin) :
    Lexeme.ofTokens margin tokens = [] := by
  induction tokens generalizing margin with
  | nil => rfl
  | cons token rest inductionHypothesis =>
      obtain ⟨first, others⟩ := List.forall_mem_cons.1 insignificant
      rw [Lexeme.ofTokens_insignificant _ _ first, inductionHypothesis others]

theorem Lexeme.length_ofTokens_le (margin : Margin) (tokens : List Token) :
    (Lexeme.ofTokens margin tokens).length ≤ tokens.length := by
  induction tokens generalizing margin with
  | nil => exact Nat.le_refl 0
  | cons token rest inductionHypothesis =>
      cases significant : token.isSignificant with
      | true =>
          rw [Lexeme.ofTokens_significant _ _ significant]
          exact Nat.succ_le_succ (inductionHypothesis _)
      | false =>
          rw [Lexeme.ofTokens_insignificant _ _ significant]
          exact (inductionHypothesis _).trans (Nat.le_succ _)

theorem Lexeme.exists_token_of_mem {margin : Margin} {tokens : List Token} {lexeme : Lexeme Span}
    (present : lexeme ∈ Lexeme.ofTokens margin tokens) :
    ∃ token ∈ tokens, lexeme.kind = token.kind := by
  induction tokens generalizing margin with
  | nil => cases present
  | cons token rest inductionHypothesis =>
      cases significant : token.isSignificant with
      | true =>
          rw [Lexeme.ofTokens_significant _ _ significant] at present
          rcases List.mem_cons.1 present with rfl | later
          · exact ⟨token, List.mem_cons_self, rfl⟩
          · obtain ⟨other, inRest, same⟩ := inductionHypothesis later
            exact ⟨other, List.mem_cons_of_mem _ inRest, same⟩
      | false =>
          rw [Lexeme.ofTokens_insignificant _ _ significant] at present
          obtain ⟨other, inRest, same⟩ := inductionHypothesis present
          exact ⟨other, List.mem_cons_of_mem _ inRest, same⟩

/-- Only the last lexeme of a text is its ending. -/
theorem Lexeme.kind_ne_ending {text : String} {lexeme : Lexeme Span}
    (present : lexeme ∈ Lexeme.ofText text) : lexeme.kind ≠ .ending := by
  obtain ⟨token, isToken, same⟩ := Lexeme.exists_token_of_mem present
  rw [same]
  exact Token.kind_ne_ending_of_mem_scan isToken

/-- Every token takes a byte of the text. -/
theorem Token.length_scan_le (start : Nat) (text : List Char) :
    (Token.scan start text).length ≤ Text.size text := by
  induction start, text using Token.scan.induct with
  | case1 start =>
      rw [Token.scan_nil]
      exact Nat.le_refl 0
  | case2 start first rest space inductionHypothesis =>
      rw [Token.scan_space start rest space]
      exact inductionHypothesis.trans (Nat.le_add_left _ _)
  | case3 start first rest solid measured text inductionHypothesis =>
      rw [Token.scan_token start rest solid, List.length_cons]
      have divided : Text.size (first :: rest) =
          Text.size text + Text.size (rest.drop measured.2) := by
        rw [← Text.size_append]
        exact congrArg (fun tail => Text.size (first :: tail)) (List.take_append_drop _ _).symm
      have positive : 0 < Text.size text :=
        Nat.lt_of_lt_of_le first.utf8Size_pos (Nat.le_add_right _ _)
      change (Token.scan (start + Text.size text) (rest.drop measured.2)).length + 1 ≤ _
      omega

/-- Before a lexeme the margin is that of the gap, and after it the gap is empty. -/
theorem Lexeme.upTo_token {text : String} {hasTaken : Bool} {gap others : List Token}
    {token : Token} (insignificant : ∀ token ∈ gap, token.isSignificant = false)
    (significant : token.isSignificant = true) :
    Lexeme.upTo text hasTaken (gap ++ token :: others) =
      ⟨token.kind, token.text, token.span, (Margin.since hasTaken gap).above,
        (Margin.since hasTaken gap).beside⟩ :: Lexeme.upTo text true others := by
  rw [Lexeme.upTo, Lexeme.ofTokens_append, Lexeme.ofTokens_of_insignificant insignificant,
    Lexeme.ofTokens_significant _ _ significant]
  rfl

theorem Lexeme.upTo_gap {text : String} {hasTaken : Bool} {gap : List Token}
    (insignificant : ∀ token ∈ gap, token.isSignificant = false) :
    Lexeme.upTo text hasTaken gap = [Lexeme.endOf text] := by
  rw [Lexeme.upTo, Lexeme.ofTokens_of_insignificant insignificant]
  rfl

theorem Token.isTrivia_cut (token : Token) :
    token.cut.isTrivia = !token.isSignificant := by
  cases kind : token.kind <;> simp [Cut.isTrivia, Token.cut, Token.isSignificant, kind]

namespace Reader

variable {text : String} {reader : Reader}

/-- A reader stands between a gap and the rest of the tokens of its text. -/
structure Stands (text : String) (gap rest : List Token) (reader : Reader) : Prop where
  text_eq : reader.text = text
  trivia_eq : reader.trivia.toList = gap.map Token.cut
  insignificant : ∀ token ∈ gap, token.isSignificant = false
  suffix : gap ++ rest <:+ Token.ofText text

/-- The rest of the tokens is ahead, or else the first of them has been looked at, or the ending. -/
inductive Sees (text : String) : Option Cut → Nat → List Token → Prop where
  | ahead {offset : Nat} {rest : List Token} : Token.Ahead text offset rest →
      Sees text none offset rest
  | token {offset : Nat} {token : Token} {others : List Token} : token.isSignificant = true →
      Token.Ahead text offset others → Sees text (some token.cut) offset (token :: others)
  | ending {offset : Nat} : Sees text (some (Token.endOf text).cut) offset []

/-- A reader awaits the lexemes from its place on. -/
def Awaits (text : String) (lexemes : List (Lexeme Span)) (reader : Reader) : Prop :=
  ∃ gap rest, reader.Stands text gap rest ∧ Sees text reader.next reader.offset rest ∧
    lexemes = Lexeme.upTo text reader.hasTaken (gap ++ rest)

theorem awaits_ofText (text : String) :
    (ofText text).Awaits text (Lexeme.ofText text ++ [Lexeme.endOf text]) := by
  refine ⟨[], Token.ofText text, ⟨rfl, rfl, List.forall_mem_nil _, List.suffix_rfl⟩, ?_, rfl⟩
  exact .ahead (Token.ahead_ofText text)

theorem Awaits.text_eq {lexemes : List (Lexeme Span)} (awaits : reader.Awaits text lexemes) :
    reader.text = text := by
  obtain ⟨gap, rest, stands, -, -⟩ := awaits
  exact stands.text_eq

theorem Stands.length_le {gap rest : List Token} (stands : reader.Stands text gap rest) :
    (gap ++ rest).length ≤ text.utf8ByteSize := by
  rw [← Text.size_toList]
  exact stands.suffix.length_le.trans (Token.length_scan_le 0 text.toList)

/-- There is at least the ending, and there are no more lexemes than bytes before it. -/
theorem Awaits.length_le {lexemes : List (Lexeme Span)} (awaits : reader.Awaits text lexemes) :
    lexemes.length ≤ text.utf8ByteSize + 1 := by
  obtain ⟨gap, rest, stands, -, rfl⟩ := awaits
  rw [Lexeme.upTo, List.length_append, List.length_singleton]
  exact Nat.succ_le_succ ((Lexeme.length_ofTokens_le _ _).trans stands.length_le)

theorem Awaits.ne_nil {lexemes : List (Lexeme Span)} (awaits : reader.Awaits text lexemes) :
    lexemes ≠ [] := by
  obtain ⟨gap, rest, -, -, rfl⟩ := awaits
  simp [Lexeme.upTo]

theorem Awaits.exists_cons {lexemes : List (Lexeme Span)} (awaits : reader.Awaits text lexemes) :
    ∃ lexeme others, lexemes = lexeme :: others :=
  List.exists_cons_of_ne_nil awaits.ne_nil

/-! ### Looking at the next lexeme -/

theorem Stands.isGap {gap rest : List Token} (stands : reader.Stands text gap rest) :
    IsGap text gap where
  insignificant := stands.insignificant
  follow := ((Token.isChain_scan 0 text.toList).suffix stands.suffix).left_of_append
  present _ inside := stands.suffix.subset (List.mem_append_left rest inside)

theorem look?_of_next {cut : Cut} (found : reader.next = some cut) (rounds : Nat) :
    reader.look? rounds = some (cut, reader) := by
  rw [look?.eq_def]
  simp [found]

theorem look?_of_trivia {cut : Cut} {offset : Nat} (unseen : reader.next = none)
    (found : Token.next? reader.text reader.offset = some (cut, offset))
    (isTrivia : cut.isTrivia = true) (rounds : Nat) :
    reader.look? (rounds + 1) =
      look? rounds { reader with offset := offset, trivia := reader.trivia.push cut } := by
  rw [look?.eq_def]
  simp [unseen, found, isTrivia]

theorem look?_of_solid {cut : Cut} {offset : Nat} (unseen : reader.next = none)
    (found : Token.next? reader.text reader.offset = some (cut, offset))
    (solid : cut.isTrivia = false) (rounds : Nat) :
    reader.look? (rounds + 1) =
      some (cut, { reader with offset := offset, next := some cut }) := by
  rw [look?.eq_def]
  simp [unseen, found, solid]

/-- A token of the trivia goes into the gap. -/
theorem Stands.push {gap others : List Token} {token : Token}
    (stands : reader.Stands text gap (token :: others))
    (insignificant : token.isSignificant = false) (offset : Nat) :
    Stands text (gap ++ [token]) others
      { reader with offset := offset, trivia := reader.trivia.push token.cut } := by
  constructor
  · exact stands.text_eq
  · simp [stands.trivia_eq]
  · exact List.forall_mem_append.2
      ⟨stands.insignificant, List.forall_mem_singleton.2 insignificant⟩
  · have suffix := stands.suffix
    rwa [List.append_cons] at suffix

/-- A reader that has rounds enough looks at the next lexeme, and it awaits the same ones then. -/
theorem exists_look {gap rest : List Token} {rounds : Nat} (enough : rest.length < rounds)
    (stands : reader.Stands text gap rest) (sees : Sees text reader.next reader.offset rest) :
    ∃ cut next, reader.look? rounds = some (cut, next) ∧ next.next = some cut ∧
      next.hasTaken = reader.hasTaken ∧
      next.Awaits text (Lexeme.upTo text reader.hasTaken (gap ++ rest)) := by
  -- The gap grows by comments and line breaks until a lexeme comes, and each takes a round.
  induction rounds generalizing reader gap rest with
  | zero => cases enough
  | succ rounds inductionHypothesis =>
      cases found : reader.next with
      | some cut =>
          exact ⟨cut, reader, look?_of_next found _, found, rfl, gap, rest, stands, sees, rfl⟩
      | none =>
          rw [found] at sees
          cases sees with
          | ahead ahead =>
              rw [← stands.text_eq] at ahead
              cases rest with
              | nil =>
                  obtain ⟨stop, next⟩ := ahead.next?_nil
                  refine ⟨_, _, look?_of_solid found next rfl rounds, rfl, rfl, gap, [],
                    { stands with }, ?_, rfl⟩
                  rw [stands.text_eq]
                  exact .ending
              | cons token others =>
                  obtain ⟨stop, next, later⟩ := ahead.next?_cons
                  have isTrivia := Token.isTrivia_cut token
                  cases significant : token.isSignificant with
                  | true =>
                      rw [significant] at isTrivia
                      exact ⟨_, _, look?_of_solid found next isTrivia rounds, rfl, rfl, gap,
                        token :: others, { stands with },
                        .token significant (stands.text_eq ▸ later), rfl⟩
                  | false =>
                      rw [significant] at isTrivia
                      rw [look?_of_trivia found next isTrivia, List.append_cons]
                      apply inductionHypothesis (Nat.lt_of_succ_lt_succ enough)
                      · exact stands.push significant stop
                      · rw [found]
                        exact .ahead (stands.text_eq ▸ later)

/-! ### What is looked at -/

/-- A reader that looks at a lexeme has it for its next token and finds the comments of the lexeme.
Any lexeme but the ending can be taken, and then the others are awaited. -/
structure Looks (text : String) (lexeme : Lexeme Span) (others : List (Lexeme Span))
    (reader : Reader) : Prop where
  awaits : reader.Awaits text (lexeme :: others)
  next_eq : reader.next = some lexeme.cut
  fits : lexeme.FitsText text
  above : lexeme.kind ≠ .ending → reader.commentAbove? = some lexeme.above
  beside : reader.hasTaken = true → ∃ comment, reader.commentBeside? = some comment ∧
    (lexeme.kind ≠ .ending → comment = lexeme.beside)
  take : lexeme.kind ≠ .ending → ∃ next, reader.take? = some (lexeme.cut, next) ∧
    next.hasTaken = true ∧ next.Awaits text others

/-- A reader that has come to a token looks at its lexeme, with the comments of the gap. -/
theorem Stands.looks {gap others : List Token} {token : Token}
    (stands : reader.Stands text gap (token :: others))
    (significant : token.isSignificant = true) (next : reader.next = some token.cut)
    (ahead : Token.Ahead text reader.offset others) :
    reader.Looks text ⟨token.kind, token.text, token.span,
      (Margin.since reader.hasTaken gap).above, (Margin.since reader.hasTaken gap).beside⟩
      (Lexeme.upTo text true others) := by
  have present : token ∈ Token.ofText text := stands.suffix.subset (by simp)
  have sees : Sees text reader.next reader.offset (token :: others) :=
    next ▸ .token significant ahead
  constructor
  · exact ⟨gap, token :: others, stands, sees,
      (Lexeme.upTo_token stands.insignificant significant).symm⟩
  · exact next
  · exact Token.FitsText.lexeme (List.mem_append_left _ present) _ _
  · intro _
    have follow : Token.Follow (gap ++ token :: others) :=
      (Token.isChain_scan 0 text.toList).suffix stands.suffix
    have notNewline : token.kind ≠ .newline := by
      intro isNewline
      simp [Token.isSignificant, isNewline] at significant
    exact commentAbove?_eq stands.text_eq stands.trivia_eq stands.isGap
      (follow.areLines stands.insignificant notNewline)
  · intro hasTaken
    exact ⟨_, commentBeside?_eq stands.text_eq stands.trivia_eq stands.isGap hasTaken,
      fun _ => rfl⟩
  · intro _
    have later : others <:+ Token.ofText text :=
      ((List.suffix_cons token others).trans (List.suffix_append gap _)).trans stands.suffix
    refine ⟨{ reader with next := none, trivia := #[], hasTaken := true }, ?_, rfl, [], others,
      ⟨stands.text_eq, rfl, List.forall_mem_nil _, later⟩, .ahead ahead, rfl⟩
    rw [take?, next]
    rfl

/-- Whatever a reader has for its next token is the cut of a lexeme that it looks at. -/
theorem Awaits.exists_looks {lexemes : List (Lexeme Span)} {cut : Cut}
    (awaits : reader.Awaits text lexemes) (found : reader.next = some cut) :
    ∃ lexeme others, lexemes = lexeme :: others ∧ cut = lexeme.cut ∧
      reader.Looks text lexeme others := by
  obtain ⟨gap, rest, stands, sees, rfl⟩ := awaits
  have same := sees
  rw [found] at same
  generalize offset : reader.offset = place at same
  cases same with
  | token significant ahead =>
      exact ⟨_, _, Lexeme.upTo_token stands.insignificant significant, rfl,
        stands.looks significant found (offset ▸ ahead)⟩
  | ending =>
      have single : Lexeme.upTo text reader.hasTaken (gap ++ []) = [Lexeme.endOf text] := by
        rw [List.append_nil]
        exact Lexeme.upTo_gap stands.insignificant
      refine ⟨Lexeme.endOf text, [], single, rfl, ⟨⟨gap, [], stands, sees, single.symm⟩, found, ?_,
        ?_, ?_, ?_⟩⟩
      · exact Token.FitsText.lexeme (List.mem_append_right _ List.mem_cons_self) _ _
      · exact fun inside => absurd rfl inside
      · intro hasTaken
        exact ⟨_, commentBeside?_eq stands.text_eq stands.trivia_eq stands.isGap hasTaken,
          fun inside => absurd rfl inside⟩
      · exact fun inside => absurd rfl inside

/-- Looking always has an answer. -/
theorem Awaits.look? {lexemes : List (Lexeme Span)} (awaits : reader.Awaits text lexemes) :
    ∃ lexeme others next, lexemes = lexeme :: others ∧
      reader.look? (text.utf8ByteSize + 1) = some (lexeme.cut, next) ∧
      next.hasTaken = reader.hasTaken ∧ next.Looks text lexeme others := by
  obtain ⟨gap, rest, stands, sees, rfl⟩ := awaits
  have enough : rest.length < text.utf8ByteSize + 1 := by
    have bound := stands.length_le
    rw [List.length_append] at bound
    omega
  obtain ⟨cut, next, looked, found, hasTaken, awaits⟩ := exists_look enough stands sees
  obtain ⟨lexeme, others, same, rfl, looks⟩ := awaits.exists_looks found
  exact ⟨lexeme, others, next, same, looked, hasTaken, looks⟩

/-- Looking again changes nothing. -/
theorem Looks.look? {lexeme : Lexeme Span} {others : List (Lexeme Span)}
    (looks : reader.Looks text lexeme others) (rounds : Nat) :
    reader.look? rounds = some (lexeme.cut, reader) :=
  look?_of_next looks.next_eq rounds

end Reader

end StorageSchema
