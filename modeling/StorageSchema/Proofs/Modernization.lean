/-
This file shows that reading with the legacy spellings of scalars is reading the text in modern
words. Without them reading fails at the first of them, if there is one.
-/
import StorageSchema.Proofs.Check.Acceptance
import StorageSchema.Proofs.Comments.Slots
import StorageSchema.Proofs.Draft.Cover
import StorageSchema.Proofs.Draft.Legacy
import StorageSchema.Proofs.Token.Renaming
import StorageSchema.Proofs.Token.Slice

namespace StorageSchema

/-! ### The text in modern words -/

theorem Scalar.isIdentifier_keyword (kind : Scalar) :
    Token.IsIdentifier kind.keyword.toList := by
  cases kind <;> decide

theorem Margin.pass_symbol (margin : Margin) {first second : Token}
    (same : first.symbol = second.symbol) : margin.pass first = margin.pass second := by
  rcases first with ⟨kind, text, start⟩
  obtain ⟨rfl, rfl⟩ := Symbol.mk.inj same
  rfl

/-- Tokens are renamed in the way of their lexemes if the new names are the keywords of the scalars
that the lexemes are read as, whatever the places of the renamed tokens are. -/
structure Token.RenamedAs (margin : Margin) (pairs : List (Lexeme Span × Option Scalar))
    (renames : List (Token × Option String)) : Prop where
  names : ∀ pair ∈ renames, Token.IsRenaming pair
  edits : renames.filterMap Token.edit? =
    (pairs.filterMap Lexeme.scalar?).map fun scalar => (scalar.1, scalar.2.keyword)
  lexemes : ∀ others : List Token, others.map Token.symbol = renames.map Token.renamed →
    (Lexeme.ofTokens margin others).map (Lexeme.outline true) =
      (pairs.map Lexeme.modern).map (Lexeme.outline true)

section Renaming

variable {margin : Margin} {token : Token} {pairs : List (Lexeme Span × Option Scalar)}
  {renames : List (Token × Option String)}

/-- A token that is no lexeme keeps its name. -/
theorem Token.RenamedAs.insignificant (dropped : token.isSignificant = false)
    (rest : Token.RenamedAs (margin.pass token) pairs renames) :
    Token.RenamedAs margin pairs ((token, none) :: renames) := by
  refine ⟨?_, rest.edits, ?_⟩
  · exact List.forall_mem_cons.2 ⟨(fun _ present => nomatch present), rest.names⟩
  · intro others symbols
    obtain ⟨other, later, rfl, same, symbols⟩ := List.map_eq_cons_iff.1 symbols
    have otherDropped : other.isSignificant = false :=
      (congrArg Symbol.isSignificant same).trans dropped
    rw [Lexeme.ofTokens_insignificant margin later otherDropped, margin.pass_symbol same]
    exact rest.lexemes later symbols

/-- A token that is a lexeme has the keyword as its name if the lexeme is read as a scalar. -/
theorem Token.RenamedAs.significant {kind : Option Scalar} (kept : token.isSignificant = true)
    (isWord : kind.isSome → token.kind = .identifier)
    (rest : Token.RenamedAs Margin.afterLexeme pairs renames) :
    Token.RenamedAs margin ((token.lexeme margin.above margin.beside, kind) :: pairs)
      ((token, kind.map Scalar.keyword) :: renames) := by
  refine ⟨List.forall_mem_cons.2 ⟨?_, rest.names⟩, ?_, ?_⟩
  · intro new present
    obtain ⟨scalar, rfl, rfl⟩ := Option.map_eq_some_iff.1 present
    exact ⟨isWord rfl, scalar.isIdentifier_keyword⟩
  · cases kind with
    | none => exact rest.edits
    | some scalar => exact congrArg (_ :: ·) rest.edits
  · intro others symbols
    obtain ⟨other, later, rfl, same, symbols⟩ := List.map_eq_cons_iff.1 symbols
    have otherKept : other.isSignificant = true :=
      (congrArg Symbol.isSignificant same).trans kept
    obtain ⟨sameKind, sameText⟩ := Symbol.mk.inj same
    rw [Lexeme.ofTokens_significant margin later otherKept, List.map_cons, List.map_cons,
      List.map_cons, rest.lexemes later symbols, sameKind, sameText]
    rfl

end Renaming

/-- The lexemes that are read as scalars have tokens that can be renamed. -/
theorem Lexeme.exists_renaming {margin : Margin} {tokens : List Token}
    {pairs : List (Lexeme Span × Option Scalar)}
    (lexemes : pairs.map Prod.fst = Lexeme.ofTokens margin tokens)
    (words : ∀ pair ∈ pairs, pair.2.isSome → pair.1.kind = .identifier) :
    ∃ renames, renames.map Prod.fst = tokens ∧ Token.RenamedAs margin pairs renames := by
  induction tokens generalizing margin pairs with
  | nil =>
      obtain rfl := List.map_eq_nil_iff.1 lexemes
      refine ⟨[], rfl, List.forall_mem_nil _, rfl, ?_⟩
      intro others symbols
      rw [List.map_eq_nil_iff.1 symbols]
      rfl
  | cons token rest inductionHypothesis =>
      cases kept : token.isSignificant with
      | false =>
          rw [Lexeme.ofTokens_insignificant margin rest kept] at lexemes
          obtain ⟨renames, rfl, renamed⟩ := inductionHypothesis lexemes words
          exact ⟨(token, none) :: renames, rfl, renamed.insignificant kept⟩
      | true =>
          rw [Lexeme.ofTokens_significant margin rest kept] at lexemes
          obtain ⟨⟨lexeme, kind⟩, pairs, rfl, rfl, others⟩ := List.map_eq_cons_iff.1 lexemes
          obtain ⟨isWord, words⟩ := List.forall_mem_cons.1 words
          obtain ⟨renames, rfl, renamed⟩ := inductionHypothesis others words
          exact ⟨(token, kind.map Scalar.keyword) :: renames, rfl, renamed.significant kept isWord⟩

/-- The text in modern words is read without the legacy spellings into a document that says the
same. -/
theorem Document.exists_modernText {legacy : Bool} {text : String} {document : Document Span}
    (read : Document.ofText legacy text = .ok document) :
    ∃ modern other, document.modernText? text = some modern ∧
      Document.ofText false modern = .ok other ∧ other.outline true = document.outline true := by
  obtain ⟨pairs, lexemes, scalars, modernRead, words⟩ := Document.exists_modern read
  obtain ⟨renames, tokens, names, edits, renamed⟩ := Lexeme.exists_renaming lexemes words
  obtain ⟨result, replaced, symbols, -⟩ := Token.exists_renamed renames tokens names
  have modern : document.modernText? text = some (String.ofList result) := by
    rw [Document.modernText?, scalars, ← edits, replaced]
    rfl
  have scanned : (Token.ofText (String.ofList result)).map Token.symbol =
      renames.map Token.renamed := by
    rw [← symbols, Token.ofText, String.toList_ofList]
    rfl
  have outlined := Document.ofLexemes_outline false true ⟨0, text.utf8ByteSize⟩
    (pairs.map Lexeme.modern) (Lexeme.endOf text)
  rw [modernRead, ← renamed _ scanned] at outlined
  obtain ⟨other, found, same⟩ := Document.exists_of_outline outlined
  exact ⟨_, other, modern, found, same⟩

/-! ### Failures at legacy spellings -/

/-- A failure blames a legacy spelling if all that it shows is an identifier that spells a scalar in
another way than its keyword does. -/
structure Failure.BlamesLegacy (failure : Failure) (text : String) (token : Token)
    (kind : Scalar) : Prop where
  present : token ∈ Token.ofText text
  isWord : token.kind = .identifier
  spelled : lowercase token.text ∈ kind.spellings
  legacy : token.text ≠ kind.keyword
  shown : failure.diagnostics = [⟨token.span, String.join ["legacy built-in type `", token.text,
    "` is not supported, use `", kind.keyword, "` instead"]⟩]

/-- What is read past a legacy spelling has its scalar, or else it fails at a later token. -/
def Review.ReadsPast (text : String) (token : Token) (kind : Scalar) :
    Except Failure (Document Span) → Prop
  | .ok document => Node.type (.scalar token.span kind) ∈ document.nodes
  | .error failure => ∃ before between later after message,
      Token.significant text = before ++ token :: (between ++ later :: after) ∧
      token.span.stop ≤ later.span.start ∧ failure.diagnostics = [⟨later.span, message⟩]

/-- The message about a legacy spelling begins with another letter than all others do. -/
theorem SyntaxError.head?_message {Mark : Type} (error : SyntaxError Mark) :
    error.message.toList.head? = some 'l' ↔ ∃ kind, error.cause = .legacyScalar kind := by
  unfold SyntaxError.message
  split
  · next cause => simp [cause, String.join]
  · next cause => simp [cause, Expectation.message]
  · next cause =>
      rw [cause]
      split <;> simp [String.join]

theorem Lexeme.exists_token {text : String} {lexeme : Lexeme Span}
    (present : lexeme ∈ Lexeme.ofText text) :
    ∃ token ∈ Token.ofText text, token.origin = lexeme.origin := by
  have listed : lexeme.origin ∈ (Lexeme.ofText text).map Lexeme.origin :=
    List.mem_map_of_mem present
  rw [Lexeme.ofText, Lexeme.origins_ofTokens] at listed
  obtain ⟨token, significant, same⟩ := List.mem_map.1 listed
  exact ⟨token, (List.mem_filter.1 significant).1, same⟩

/-- Two lexemes of a text come one after the other as their tokens do. -/
theorem Token.exists_later {text : String} {lexeme other : Lexeme Span}
    {before between after : List (Lexeme Span)}
    (divided : Lexeme.ofText text ++ [Lexeme.endOf text] =
      before ++ lexeme :: (between ++ other :: after)) :
    ∃ front token middle later rest,
      Token.significant text = front ++ token :: (middle ++ later :: rest) ∧
      token.origin = lexeme.origin ∧ later.span = other.mark := by
  have origins : (Token.significant text).map Token.origin =
      (Lexeme.ofText text ++ [Lexeme.endOf text]).map Lexeme.origin := by
    rw [Token.significant_eq, List.map_append, List.map_append, Lexeme.ofText,
      Lexeme.origins_ofTokens]
    rfl
  rw [divided, List.map_append, List.map_cons, List.map_append, List.map_cons] at origins
  obtain ⟨front, tokens, split, -, origins⟩ := List.map_eq_append_iff.1 origins
  obtain ⟨token, tokens, rfl, origin, origins⟩ := List.map_eq_cons_iff.1 origins
  obtain ⟨middle, tokens, rfl, -, origins⟩ := List.map_eq_append_iff.1 origins
  obtain ⟨later, rest, rfl, last, -⟩ := List.map_eq_cons_iff.1 origins
  exact ⟨front, token, middle, later, rest, split, origin, congrArg Prod.snd last⟩

/-- The review adds nothing to how a text is read. -/
theorem Review.read_congr {text : String} {first second : Bool}
    (same : Document.ofText first text = Document.ofText second text) :
    (Review.ofText text).read first = (Review.ofText text).read second := by
  simp only [Review.read_eq_ofText, Review.ofText, same]

/-- With the legacy spellings none of them is to blame. -/
theorem Failure.BlamesLegacy.not_legacy {failure : Failure} {text : String} {token : Token}
    {kind : Scalar} (blames : failure.BlamesLegacy text token kind) :
    ((Review.ofText text).read true).1 ≠ .error failure := by
  intro failed
  -- The failure shows a message only, but its first letter tells what the error was.
  obtain ⟨error, refused, shown⟩ := Review.exists_error failed
  have begins : error.message.toList.head? = some 'l' := by
    rw [show error.message = _ from congrArg Diagnostic.message
      (List.singleton_inj.1 (shown.symm.trans blames.shown))]
    simp [String.join]
  obtain ⟨other, cause⟩ := error.head?_message.1 begins
  rw [Document.ofText, Document.ofLexemes_eq] at refused
  obtain ⟨_, _, _, -, refusal⟩ := Draft.exists_refused_of_error refused
  cases refusal with
  | expected _ => cases cause
  | legacyScalar isModern _ _ => cases isModern

/-- A failure blames one legacy spelling only. -/
theorem Failure.BlamesLegacy.unique {failure : Failure} {text : String} {first second : Token}
    {kind other : Scalar} (left : failure.BlamesLegacy text first kind)
    (right : failure.BlamesLegacy text second other) : first = second ∧ kind = other := by
  have shown := List.singleton_inj.1 (left.shown.symm.trans right.shown)
  obtain rfl := Token.eq_of_span left.present right.present (congrArg Diagnostic.span shown)
  have means : Word.ofText first.text = .legacyScalar kind :=
    Word.ofText_eq_iff.2 ⟨left.spelled, left.legacy⟩
  have otherMeans : Word.ofText first.text = .legacyScalar other :=
    Word.ofText_eq_iff.2 ⟨right.spelled, right.legacy⟩
  exact ⟨rfl, Word.legacyScalar.inj (means.symm.trans otherMeans)⟩

section Parting

variable {text : String} {lexeme : Lexeme Span} {kind : Scalar} {after : List (Lexeme Span)}
  {next : Draft Span}

/-- Without the legacy spellings the failure blames the one where both ways of reading part. -/
theorem Draft.PartsAt.exists_blamed
    (parts : Draft.empty.PartsAt (Lexeme.ofText text) lexeme kind after next) :
    ∃ failure token, ((Review.ofText text).read false).1 = .error failure ∧
      token.span = lexeme.mark ∧ failure.BlamesLegacy text token kind := by
  obtain ⟨before, divided⟩ := parts.divided
  have listed : lexeme ∈ Lexeme.ofText text :=
    divided ▸ List.mem_append_right before List.mem_cons_self
  obtain ⟨token, present, origin⟩ := Lexeme.exists_token listed
  obtain ⟨symbol, place⟩ := Prod.mk.inj origin
  obtain ⟨sameKind, sameText⟩ := Symbol.mk.inj symbol
  obtain ⟨spelled, legacy⟩ := Word.ofText_eq_iff.1 parts.means
  obtain ⟨failure, failed, shown⟩ := Review.exists_failure parts.error
  refine ⟨failure, token, failed, place, present, sameKind.trans parts.isWord, sameText ▸ spelled,
    sameText ▸ legacy, ?_⟩
  rw [place, sameText]
  exact shown

/-- With the legacy spellings the text is read past the one where both ways of reading part. -/
theorem Draft.PartsAt.readsPast
    (parts : Draft.empty.PartsAt (Lexeme.ofText text) lexeme kind after next) {token : Token}
    (place : token.span = lexeme.mark) (present : token ∈ Token.ofText text) :
    Review.ReadsPast text token kind ((Review.ofText text).read true).1 := by
  cases read : ((Review.ofText text).read true).1 with
  | ok document =>
      have scalar := parts.mem_scalars (Review.read_eq_ok_iff.1 read)
      obtain ⟨node, isNode, isScalar⟩ := List.mem_filterMap.1 scalar
      rw [Node.scalar?_eq_some_iff.1 isScalar, ← place] at isNode
      exact isNode
  | error failure =>
      obtain ⟨error, failed, shown⟩ := Review.exists_error read
      obtain ⟨_, _, refused, _, divided, refusal⟩ := parts.fails_later failed
      obtain ⟨before, other, between, later, rest, tokens, origin, latest⟩ :=
        Token.exists_later divided
      have isWord : other.kind = .identifier :=
        (congrArg (fun origin => origin.1.kind) origin).trans parts.isWord
      have listed : other ∈ Token.significant text :=
        tokens ▸ List.mem_append_right before List.mem_cons_self
      have inside : other ∈ Token.ofText text :=
        Token.mem_ofText_of_significant listed (by simp [isWord])
      have samePlace : other.span = token.span := (congrArg Prod.snd origin).trans place.symm
      obtain rfl := Token.eq_of_span inside present samePlace
      refine ⟨before, between, later, rest, error.message, tokens, ?_, ?_⟩
      · have ordered := Token.pairwise_significant text
        rw [tokens] at ordered
        have follows := (List.pairwise_cons.1 (List.pairwise_append.1 ordered).2.1).1
        exact follows later (List.mem_append_right between List.mem_cons_self)
      · rw [shown, latest, ← refusal.lexeme_eq]
        rfl

end Parting

/-- Reading with the legacy spellings is reading the text in modern words. Both ways of reading a
text have the same outcome, unless the failure without the legacy spellings blames one of them, and
what is read with them then goes past it. Whatever is read with them is read without them from the
text in modern words, apart from the places. -/
theorem Review.legacy_is_modernization (text : String) :
    (∀ failure token kind, ((Review.ofText text).read false).1 = .error failure →
      failure.BlamesLegacy text token kind →
      Review.ReadsPast text token kind ((Review.ofText text).read true).1) ∧
    ((∀ failure token kind, ((Review.ofText text).read false).1 = .error failure →
      ¬ failure.BlamesLegacy text token kind) →
      (Review.ofText text).read true = (Review.ofText text).read false) ∧
    ∀ document, ((Review.ofText text).read true).1 = .ok document →
      ∃ modern other, document.modernText? text = some modern ∧
        ((Review.ofText modern).read false).1 = .ok other ∧
        other.outline true = document.outline true := by
  have alike_or_parts := Document.ofLexemes_legacy ⟨0, text.utf8ByteSize⟩ (Lexeme.ofText text)
    (Lexeme.endOf text)
  refine ⟨?_, ?_, ?_⟩
  · intro failure token kind failed blames
    rcases alike_or_parts with same | ⟨lexeme, other, after, next, parts⟩
    · rw [← Review.read_congr same] at failed
      exact absurd failed blames.not_legacy
    · obtain ⟨found, blamed, refused, place, otherBlames⟩ := parts.exists_blamed
      rw [failed] at refused
      obtain rfl := Except.error.inj refused
      obtain ⟨rfl, rfl⟩ := blames.unique otherBlames
      exact parts.readsPast place blames.present
  · intro noBlame
    rcases alike_or_parts with same | ⟨lexeme, kind, after, next, parts⟩
    · exact Review.read_congr same
    · obtain ⟨failure, token, failed, -, blames⟩ := parts.exists_blamed
      exact absurd blames (noBlame failure token kind failed)
  · intro document read
    obtain ⟨modern, other, written, otherRead, same⟩ :=
      Document.exists_modernText (Review.read_eq_ok_iff.1 read)
    exact ⟨modern, other, written, Review.read_eq_ok_iff.2 otherRead, same⟩

/-- Here a spelling of a scalar stands for a type, and it is no longer in use. -/
theorem Review.legacy_is_modernization_of_int :
    ∃ failure document modern other,
      ((Review.ofText "type A \x7bb: Int\x7d").read false).1 = .error failure ∧
      failure.BlamesLegacy "type A \x7bb: Int\x7d" ⟨.identifier, "Int", 11⟩ .number ∧
      ((Review.ofText "type A \x7bb: Int\x7d").read true).1 = .ok document ∧
      Node.type (.scalar ⟨11, 14⟩ .number) ∈ document.nodes ∧
      document.modernText? "type A \x7bb: Int\x7d" = some modern ∧
      ((Review.ofText modern).read false).1 = .ok other ∧
      other.outline true = document.outline true := by
  have refused : ((Review.ofText "type A \x7bb: Int\x7d").read false).1.mapError
      Failure.diagnostics = .error [⟨⟨11, 14⟩, String.join ["legacy built-in type `", "Int",
        "` is not supported, use `", "number", "` instead"]⟩] := by
    decide +kernel
  have accepted :
      ((Review.ofText "type A \x7bb: Int\x7d").read true).1.toOption.isSome = true := by
    decide +kernel
  obtain ⟨past, -, modernized⟩ := Review.legacy_is_modernization "type A \x7bb: Int\x7d"
  cases failed : ((Review.ofText "type A \x7bb: Int\x7d").read false).1 with
  | ok document =>
      rw [failed] at refused
      cases refused
  | error failure =>
      rw [failed] at refused
      have blames : failure.BlamesLegacy "type A \x7bb: Int\x7d" ⟨.identifier, "Int", 11⟩ .number :=
        ⟨by decide +kernel, rfl, by decide, by decide, Except.error.inj refused⟩
      have reads := past failure _ _ failed blames
      cases read : ((Review.ofText "type A \x7bb: Int\x7d").read true).1 with
      | error _ =>
          rw [read] at accepted
          cases accepted
      | ok document =>
          rw [read] at reads
          obtain ⟨modern, other, written, otherRead, same⟩ := modernized document read
          exact ⟨failure, document, modern, other, rfl, blames, rfl, reads, written, otherRead,
            same⟩

end StorageSchema
