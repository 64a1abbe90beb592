/-
This file says which symbols a text is divided into, and how they follow from its parts.
-/
import StorageSchema.Proofs.Token.Spelling

namespace StorageSchema

open Token (IsSpelled Delimits)

/-- These are the symbols of all tokens of a text, with its comments and line breaks. -/
def Symbol.scan (text : List Char) : List Symbol := (Token.scan 0 text).map Token.symbol

/-- Where a text begins does not matter for its symbols. -/
theorem Token.symbols_scan (start : Nat) (text : List Char) :
    (Token.scan start text).map Token.symbol = Symbol.scan text := by
  have anywhere : ∀ start other, (Token.scan start text).map Token.symbol =
      (Token.scan other text).map Token.symbol := by
    intro start
    induction start, text using Token.scan.induct with
    | case1 start =>
        intro other
        rw [Token.scan_nil, Token.scan_nil]
    | case2 start first rest space inductionHypothesis =>
        intro other
        rw [Token.scan_space start rest space, Token.scan_space other rest space]
        exact inductionHypothesis _
    | case3 start first rest solid token text inductionHypothesis =>
        intro other
        rw [Token.scan_token start rest solid, Token.scan_token other rest solid, List.map_cons,
          List.map_cons]
        exact congrArg (_ :: ·) (inductionHypothesis _)
  exact anywhere start 0

@[simp] theorem Symbol.scan_nil : Symbol.scan [] = [] := by
  rw [Symbol.scan, Token.scan_nil, List.map_nil]

theorem Symbol.scan_space {letter : Char} (space : Token.isSpace letter = true)
    (rest : List Char) : Symbol.scan (letter :: rest) = Symbol.scan rest := by
  rw [Symbol.scan, Token.scan_space 0 rest space, Token.symbols_scan]

/-- A token that is measured at the beginning of a text is its first one. -/
theorem Token.scan_measured {kind : Token.Kind} {first : Char} {rest tail : List Char}
    (solid : Token.isSpace first = false)
    (measured : Token.measure first (rest ++ tail) = (kind, rest.length))
    (start : Nat) :
    Token.scan start (first :: rest ++ tail) = ⟨kind, String.ofList (first :: rest), start⟩ ::
      Token.scan (start + Text.size (first :: rest)) tail := by
  rw [List.cons_append, Token.scan_token start _ (by simp [solid]), measured, List.take_left,
    List.drop_left]

/-- A token that is measured at the beginning is the first symbol. -/
theorem Symbol.scan_measured {kind : Token.Kind} {first : Char} {rest tail : List Char}
    (solid : Token.isSpace first = false)
    (measured : Token.measure first (rest ++ tail) = (kind, rest.length)) :
    Symbol.scan (first :: rest ++ tail) =
      ⟨kind, String.ofList (first :: rest)⟩ :: Symbol.scan tail := by
  rw [Symbol.scan, Token.scan_measured solid measured, List.map_cons, Token.symbols_scan]
  rfl

theorem Symbol.scan_spelled {kind : Token.Kind} {text tail : List Char}
    (spelled : IsSpelled kind text)
    (delimits : kind = .identifier ∨ kind = .number → Delimits tail) :
    Symbol.scan (text ++ tail) = ⟨kind, String.ofList text⟩ :: Symbol.scan tail := by
  cases text with
  | nil =>
      cases spelled with
      | identifier identifier => exact identifier.elim
      | number numeral =>
          cases numeral with
          | positive magnitude =>
              obtain ⟨_, _, same, _⟩ := magnitude.exists_digit
              cases same
  | cons first rest =>
      obtain ⟨solid, measured⟩ := Token.measure_spelled spelled delimits
      exact Symbol.scan_measured solid measured

/-- No sign has the kind of a token with more to it than one character. -/
theorem Token.kind_of_punctuation? {kind : Token.Kind} {letter : Char}
    (sign : Token.punctuation? letter = some kind) :
    kind ∉ [.identifier, .number, .string, .unterminatedString, .invalid, .comment, .ending] := by
  unfold Token.punctuation? at sign
  split at sign <;> cases sign <;> decide

/-- Nothing goes on with a sign. -/
theorem Symbol.scan_sign {kind : Token.Kind} {letter : Char}
    (sign : Token.punctuation? letter = some kind) (tail : List Char) :
    Symbol.scan (letter :: tail) = .sign letter :: Symbol.scan tail := by
  have noSign := Token.kind_of_punctuation? sign
  have found : Symbol.scan ([letter] ++ tail) =
      ⟨kind, String.ofList [letter]⟩ :: Symbol.scan tail := by
    refine Symbol.scan_spelled (.sign sign) ?_
    rintro (rfl | rfl) <;> simp at noSign
  rw [Symbol.sign, sign]
  exact found

/-- A comment goes on to the end of its line. -/
theorem Symbol.scan_comment {line : List Char} (single : '\n' ∉ line) (tail : List Char) :
    Symbol.scan ('#' :: line ++ '\n' :: tail) =
      ⟨.comment, String.ofList ('#' :: line)⟩ :: Symbol.scan ('\n' :: tail) := by
  apply Symbol.scan_measured (by decide)
  have counted : Token.countWhile Token.continuesLine (line ++ '\n' :: tail) = line.length := by
    apply Token.countWhile_append
    · intro letter present
      simp only [Token.continuesLine, bne_iff_ne]
      rintro rfl
      exact single present
    · simp [Token.continuesLine]
  simp [Token.measure, counted]

/-! ### Tokens of a text -/

/-- Each token of a text is measured at the place where it begins. -/
theorem Token.exists_measured_of_mem_scan {start : Nat} {text : List Char} {token : Token}
    (present : token ∈ Token.scan start text) :
    ∃ first rest, token.kind = (Token.measure first rest).1 ∧
      token.text.toList = first :: rest.take (Token.measure first rest).2 := by
  induction start, text using Token.scan.induct with
  | case1 start =>
      rw [Token.scan_nil] at present
      cases present
  | case2 start first rest space inductionHypothesis =>
      rw [Token.scan_space start rest space] at present
      exact inductionHypothesis present
  | case3 start first rest noSpace measured text inductionHypothesis =>
      rw [Token.scan_token start rest noSpace] at present
      rcases List.mem_cons.1 present with rfl | later
      · exact ⟨first, rest, rfl, String.toList_ofList⟩
      · exact inductionHypothesis later

/-- A token is a word, a number, a string, a comment or a sign, or else it has no place in any
document. -/
theorem Token.measure_kind (first : Char) (rest : List Char) :
    (Token.measure first rest).1 ∈
        [.identifier, .number, .string, .unterminatedString, .invalid] ∨
      Token.measure first rest = (.comment, Token.countWhile Token.continuesLine rest) ∨
      Token.punctuation? first = some (Token.measure first rest).1 := by
  unfold Token.measure
  split
  · exact .inr (.inl rfl)
  split
  · exact .inl (by simp)
  split
  · exact .inl (by simp)
  split
  · rcases Token.stringLength_kind first rest with closed | isOpen
    · exact .inl (by simp [closed])
    · exact .inl (by simp [isOpen])
  · cases sign : Token.punctuation? first with
    | none => exact .inl (by simp)
    | some kind => exact .inr (.inr rfl)

/-- A symbol is spelled if a document can contain it. -/
def Symbol.IsSpelled (symbol : Symbol) : Prop := Token.IsSpelled symbol.kind symbol.text.toList

/-- The tokens of a text that documents can consist of are spelled as their kinds are. -/
theorem Token.isSpelled_of_mem_scan {start : Nat} {text : List Char} {token : Token}
    (present : token ∈ Token.scan start text) (solid : token.kind.IsSolid) :
    token.symbol.IsSpelled := by
  obtain ⟨first, rest, kind, spelling⟩ := Token.exists_measured_of_mem_scan present
  rw [Symbol.IsSpelled, Token.symbol, spelling]
  rw [kind] at solid ⊢
  exact Token.isSpelled_of_measure rfl solid

theorem Token.kind_ne_ending_of_mem_scan {start : Nat} {text : List Char} {token : Token}
    (present : token ∈ Token.scan start text) : token.kind ≠ .ending := by
  obtain ⟨first, rest, kind, -⟩ := Token.exists_measured_of_mem_scan present
  rw [kind]
  intro ending
  rcases Token.measure_kind first rest with plain | comment | sign
  · rw [ending] at plain
    simp at plain
  · rw [comment] at ending
    cases ending
  · rw [ending] at sign
    exact Token.kind_of_punctuation? sign (by simp)

/-- Two signs of one kind are the same. -/
theorem Token.punctuation?_injective {kind : Token.Kind} {first second : Char}
    (left : Token.punctuation? first = some kind) (right : Token.punctuation? second = some kind) :
    first = second := by
  unfold Token.punctuation? at left right
  split at left <;> cases left <;> split at right <;> first | rfl | cases right

/-- A spelled symbol of the kind of a sign is that sign. -/
theorem Symbol.IsSpelled.eq_sign {symbol : Symbol} (spelled : symbol.IsSpelled) (letter : Char)
    {kind : Token.Kind} (sign : Token.punctuation? letter = some kind)
    (same : symbol.kind = kind) : symbol = .sign letter := by
  rcases symbol with ⟨own, text⟩
  obtain rfl : own = kind := same
  have noSign := Token.kind_of_punctuation? sign
  change Token.IsSpelled own text.toList at spelled
  generalize spelling : text.toList = letters at spelled
  cases spelled with
  | identifier _ | number _ | string _ _ => simp at noSign
  | sign written =>
      obtain rfl := Token.punctuation?_injective written sign
      rw [Symbol.sign, written, ← spelling, String.ofList_toList]
      rfl

theorem Symbol.IsSpelled.isIdentifier {text : String} (spelled : (Symbol.word text).IsSpelled) :
    Token.IsIdentifier text.toList := by
  rw [Symbol.IsSpelled, Symbol.word] at spelled
  generalize text.toList = letters at spelled ⊢
  cases spelled with
  | identifier identifier => exact identifier
  | sign sign => exact absurd (Token.kind_of_punctuation? sign) (by simp)

theorem Symbol.IsSpelled.isNumeral {text : String}
    (spelled : (Symbol.mk .number text).IsSpelled) : Token.IsNumeral text.toList := by
  rw [Symbol.IsSpelled] at spelled
  generalize text.toList = letters at spelled ⊢
  cases spelled with
  | number numeral => exact numeral
  | sign sign => exact absurd (Token.kind_of_punctuation? sign) (by simp)

end StorageSchema
