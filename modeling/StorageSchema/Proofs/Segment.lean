/-
This file cuts a text from one lexeme to another. The part has those lexemes by itself too, further
to the front, and only the comments around the first of them are others.
-/
import StorageSchema.Proofs.Document.Cover
import StorageSchema.Proofs.Draft.Failure
import StorageSchema.Proofs.Joining
import StorageSchema.Proofs.Token.Segment

namespace StorageSchema

variable {Mark : Type}

/-- The first of some lexemes takes its comments from a margin. -/
def Lexeme.inMargin (margin : Margin) : List (Lexeme Mark) → List (Lexeme Mark)
  | [] => []
  | first :: rest => { first with above := margin.above, beside := margin.beside } :: rest

/-- Tokens are bounded by lexemes if neither end is a comment or a line break. -/
structure Token.AreBounded (tokens : List Token) : Prop where
  first : tokens.head?.any Token.isSignificant = true
  last : tokens.getLast?.any Token.isSignificant = true

theorem Token.AreBounded.exists_first {tokens : List Token} (bounded : Token.AreBounded tokens) :
    ∃ first rest, tokens = first :: rest ∧ first.isSignificant = true := by
  obtain ⟨first, isFirst, significant⟩ := (Option.any_eq_true _ _).1 bounded.first
  obtain ⟨rest, rfl⟩ := List.head?_eq_some_iff.1 isFirst
  exact ⟨first, rest, rfl, significant⟩

theorem Token.AreBounded.exists_last {tokens : List Token} (bounded : Token.AreBounded tokens) :
    ∃ front last, tokens = front ++ [last] ∧ last.isSignificant = true := by
  obtain ⟨last, isLast, significant⟩ := (Option.any_eq_true _ _).1 bounded.last
  obtain ⟨front, rfl⟩ := List.getLast?_eq_some_iff.1 isLast
  exact ⟨front, last, rfl, significant⟩

/-- It does not matter where the tokens stand. -/
theorem Token.areBounded_shift {distance : Nat} {tokens : List Token} :
    Token.AreBounded (tokens.map (Token.shift distance)) ↔ Token.AreBounded tokens := by
  have first : (tokens.map (Token.shift distance)).head?.any Token.isSignificant =
      tokens.head?.any Token.isSignificant := by
    rw [List.head?_map, Option.any_map]
    rfl
  have last : (tokens.map (Token.shift distance)).getLast?.any Token.isSignificant =
      tokens.getLast?.any Token.isSignificant := by
    rw [List.getLast?_map, Option.any_map]
    rfl
  constructor
  · rintro ⟨begins, ends⟩
    exact ⟨first ▸ begins, last ▸ ends⟩
  · rintro ⟨begins, ends⟩
    exact ⟨first ▸ begins, last ▸ ends⟩

/-- Only the first lexeme looks at the margin. -/
theorem Token.AreBounded.inMargin {tokens : List Token} (bounded : Token.AreBounded tokens)
    (margin other : Margin) :
    Lexeme.ofTokens margin tokens = Lexeme.inMargin margin (Lexeme.ofTokens other tokens) := by
  obtain ⟨first, rest, rfl, significant⟩ := bounded.exists_first
  rw [Lexeme.ofTokens_significant _ _ significant, Lexeme.ofTokens_significant _ _ significant]
  rfl

theorem Token.AreBounded.pass {tokens : List Token} (bounded : Token.AreBounded tokens)
    (margin : Margin) : tokens.foldl Margin.pass margin = Margin.afterLexeme := by
  obtain ⟨front, last, rfl, significant⟩ := bounded.exists_last
  rw [List.foldl_append, List.foldl_cons, List.foldl_nil, Margin.pass_lexeme _ significant]

/-- Each lexeme is a token with others before it and after it. -/
theorem Lexeme.exists_token_at {margin : Margin} {tokens : List Token}
    {front rest : List (Lexeme Span)} {first : Lexeme Span}
    (divided : Lexeme.ofTokens margin tokens = front ++ first :: rest) :
    ∃ before token after, tokens = before ++ token :: after ∧ token.isSignificant = true ∧
      Lexeme.ofTokens margin before = front ∧
      Lexeme.ofTokens (before.foldl Margin.pass margin) [token] = [first] ∧
      Lexeme.ofTokens Margin.afterLexeme after = rest := by
  induction tokens generalizing margin front with
  | nil => simp [Lexeme.ofTokens] at divided
  | cons token others inductionHypothesis =>
      cases significant : token.isSignificant with
      | false =>
          rw [Lexeme.ofTokens_insignificant _ _ significant] at divided
          obtain ⟨before, next, after, rfl, isLexeme, own, found, later⟩ :=
            inductionHypothesis divided
          refine ⟨token :: before, next, after, rfl, isLexeme, ?_, found, later⟩
          rw [Lexeme.ofTokens_insignificant _ _ significant, own]
      | true =>
          rw [Lexeme.ofTokens_significant _ _ significant] at divided
          cases front with
          | nil =>
              obtain ⟨rfl, later⟩ := List.cons.inj divided
              refine ⟨[], token, others, rfl, significant, rfl, ?_, later⟩
              exact Lexeme.ofTokens_significant _ _ significant
          | cons lexeme front =>
              obtain ⟨rfl, restDivided⟩ := List.cons.inj divided
              obtain ⟨before, next, after, rfl, isLexeme, own, found, later⟩ :=
                inductionHypothesis restDivided
              refine ⟨token :: before, next, after, rfl, isLexeme, ?_, ?_, later⟩
              · rw [Lexeme.ofTokens_significant _ _ significant, own]
              · rw [List.foldl_cons, Margin.pass_lexeme _ significant, found]

/-- Some lexemes in a row come from the tokens between the first and the last of them. -/
theorem Lexeme.exists_bounded {margin : Margin} {tokens : List Token}
    {front word rest : List (Lexeme Span)} (nonempty : word ≠ [])
    (divided : Lexeme.ofTokens margin tokens = front ++ word ++ rest) :
    ∃ before middle after other, tokens = before ++ middle ++ after ∧
      Token.AreBounded middle ∧ word = Lexeme.ofTokens other middle := by
  obtain ⟨first, more, rfl⟩ := List.exists_cons_of_ne_nil nonempty
  rw [List.append_assoc, List.cons_append] at divided
  obtain ⟨before, token, after, rfl, significant, -, found, later⟩ :=
    Lexeme.exists_token_at divided
  have begun (tokens : List Token) :
      Lexeme.ofTokens (before.foldl Margin.pass margin) (token :: tokens) =
        first :: Lexeme.ofTokens Margin.afterLexeme tokens := by
    rw [Lexeme.ofTokens_significant _ _ significant] at found ⊢
    rw [(List.cons.inj found).1]
  rcases List.eq_nil_or_concat more with rfl | ⟨inner, last, rfl⟩
  · exact ⟨before, [token], after, before.foldl Margin.pass margin, by simp,
      ⟨significant, significant⟩, (begun []).symm⟩
  · rw [List.concat_eq_append] at later ⊢
    rw [List.append_assoc, List.singleton_append] at later
    obtain ⟨gap, ending, others, rfl, isLexeme, inGap, ends, -⟩ := Lexeme.exists_token_at later
    have bounded : Token.AreBounded (token :: gap ++ [ending]) := by
      refine ⟨significant, ?_⟩
      rw [List.getLast?_concat]
      exact isLexeme
    refine ⟨before, token :: gap ++ [ending], others, before.foldl Margin.pass margin, by simp,
      bounded, ?_⟩
    rw [List.cons_append, begun, Lexeme.ofTokens_append, inGap, ends]

/-- A part of a text has some lexemes by itself if it stands in the text from the first of them to
the last. They are found again, further to the front, and only the comments around the first of them
come from what stands before the part. Any text that delimits the part leaves them as they are. -/
structure Lexeme.Segment (text : List Char) (word : List (Lexeme Span)) (part : List Char)
    (start : Nat) : Prop where
  slices : Text.Slices text ⟨start, start + Text.size part⟩ part
  spans : ∃ tokens, word.map Lexeme.origin = tokens.map Token.origin ∧ Token.Apart tokens ∧
    Token.Spans tokens ⟨start, start + Text.size part⟩
  found : ∀ margin, Lexeme.inMargin margin word =
    (Lexeme.ofTokens margin (Token.scan 0 part)).map (Lexeme.view (Span.shift start) true)
  joined : ∀ margin base tail, Token.Delimits tail →
    Lexeme.ofTokens margin (Token.scan base (part ++ tail)) =
      (Lexeme.ofTokens margin (Token.scan 0 part)).map (Lexeme.view (Span.shift base) true) ++
        Lexeme.ofTokens Margin.afterLexeme (Token.scan (base + Text.size part) tail)

theorem Token.scan_zero (start : Nat) (text : List Char) :
    Token.scan start text = (Token.scan 0 text).map (Token.shift start) := by
  rw [← Token.scan_shift, Nat.zero_add]

/-- The significant tokens among those that are bounded span all of them. -/
theorem Token.AreBounded.spans {front : List Token} {first last : Token} {rest tokens : List Token}
    (begins : tokens = first :: rest) (firstSignificant : first.isSignificant = true)
    (ends : tokens = front ++ [last]) (lastSignificant : last.isSignificant = true) :
    Token.Spans (tokens.filter Token.isSignificant) ⟨first.start, last.span.stop⟩ := by
  refine ⟨first, last, ?_, ?_, rfl⟩
  · rw [begins, List.filter_cons_of_pos firstSignificant]
    rfl
  · rw [ends, List.filter_append, List.filter_cons_of_pos lastSignificant, List.filter_nil,
      List.getLast?_concat]

/-- Lexemes of a text that stand in a row are those of a part of it. -/
theorem Lexeme.exists_segment {text : String} {front word rest : List (Lexeme Span)}
    (divided : Lexeme.ofText text = front ++ word ++ rest) (nonempty : word ≠ [])
    (solid : ∀ lexeme ∈ word, lexeme.kind.IsSolid) :
    ∃ part start, Lexeme.Segment text.toList word part start := by
  obtain ⟨before, tokens, after, other, whole, bounded, rfl⟩ :=
    Lexeme.exists_bounded nonempty divided
  obtain ⟨first, more, begins, firstSignificant⟩ := bounded.exists_first
  obtain ⟨inner, last, ends, lastSignificant⟩ := bounded.exists_last
  have origins := Lexeme.origins_ofTokens other tokens
  have lastSolid : last.kind.IsSolid := by
    have present : last.origin ∈ (tokens.filter Token.isSignificant).map Token.origin :=
      List.mem_map_of_mem (List.mem_filter.2 ⟨by simp [ends], lastSignificant⟩)
    rw [← origins] at present
    obtain ⟨lexeme, isLexeme, same⟩ := List.mem_map.1 present
    have kind : lexeme.kind = last.kind := congrArg (fun origin => origin.1.kind) same
    exact kind ▸ solid lexeme isLexeme
  -- The text is cut right before the first token, and what is left right after the last one.
  have tokensOfText : Token.scan 0 text.toList = before ++ first :: (more ++ after) := by
    rw [← List.cons_append, ← begins, ← List.append_assoc]
    exact whole
  obtain ⟨textBefore, textAfter, textDivided, starts, tokensAfter⟩ :=
    Token.exists_rest before tokensOfText
  rw [Nat.zero_add] at starts
  rw [← List.cons_append, ← begins] at tokensAfter
  have endsThere : Token.scan first.start textAfter = inner ++ last :: after := by
    rw [tokensAfter, ends, List.append_assoc, List.singleton_append]
  obtain ⟨part, textRest, rfl, inPart, stops, separates⟩ :=
    Token.exists_part inner endsThere lastSolid
  rw [← ends, Token.scan_zero] at inPart
  have boundedPart : Token.AreBounded (Token.scan 0 part) :=
    Token.areBounded_shift.1 (inPart ▸ bounded)
  refine ⟨part, first.start, ?_, ?_, ?_, ?_⟩
  · refine ⟨textBefore, textRest, ?_, ?_⟩
    · rw [textDivided, List.append_assoc]
    · rw [starts]
  · refine ⟨_, origins, ?_, ?_⟩
    · have apart := (Token.ordered_scan first.start (part ++ textRest)).apart
      rw [tokensAfter] at apart
      exact apart.left.sublist List.filter_sublist
    · rw [← stops]
      exact Token.AreBounded.spans begins firstSignificant ends lastSignificant
  · intro margin
    rw [← Lexeme.ofTokens_shift, inPart]
    exact (bounded.inMargin margin other).symm
  · intro margin base tail delimits
    have boundedThere : Token.AreBounded (Token.scan base part) := by
      rw [Token.scan_zero]
      exact Token.areBounded_shift.2 boundedPart
    rw [separates base tail delimits, Lexeme.ofTokens_append, boundedThere.pass,
      ← Lexeme.ofTokens_shift, ← Token.scan_zero]

end StorageSchema
