/-
This file shows what carriage returns before the line feeds of a text do to its tokens. They move the
tokens on, and only comments and open strings take them in.
-/
import StorageSchema.Proofs.Comments.TextLines
import StorageSchema.Proofs.Draft.View
import StorageSchema.Proofs.Text.Returns

namespace StorageSchema

open Token (countWhile numberLength stringLength measure scan Kind)

/-! ### One token -/

/-- A closed string does not see what follows it, and an open one goes on with a carriage return. -/
theorem Token.stringLength_return {quote : Char} (other : quote ≠ '\r') {line : List Char}
    (single : '\n' ∉ line) :
    stringLength quote (line ++ ['\r']) = stringLength quote line ∨
      stringLength quote line = (.unterminatedString, line.length) ∧
        stringLength quote (line ++ ['\r']) = (.unterminatedString, line.length + 1) := by
  induction line using stringLength.induct quote with
  | case1 =>
      refine .inr ⟨rfl, ?_⟩
      rw [List.nil_append, Token.stringLength_letter quote (by decide) (by decide),
        if_neg other.symm]
      rfl
  | case2 rest => exact absurd List.mem_cons_self single
  | case3 => exact .inr ⟨rfl, rfl⟩
  | case4 rest => exact absurd (List.mem_cons_of_mem _ List.mem_cons_self) single
  | case5 letter rest ordinary inductionHypothesis =>
      rw [List.cons_append, List.cons_append, Token.stringLength_escape quote ordinary,
        Token.stringLength_escape quote ordinary]
      have inRest := inductionHypothesis fun inside =>
        single (List.mem_cons_of_mem _ (List.mem_cons_of_mem _ inside))
      rcases inRest with same | ⟨isOpen, longer⟩
      · exact .inl (by rw [same])
      · exact .inr ⟨by rw [isOpen]; rfl, by rw [longer]; rfl⟩
  | case6 rest noFeed alone _ escape =>
      have noEscape := Token.ne_backslash alone escape
      rw [List.cons_append, Token.stringLength_letter quote noFeed noEscape, if_pos rfl,
        Token.stringLength_letter quote noFeed noEscape, if_pos rfl]
      exact .inl rfl
  | case7 letter rest noFeed alone _ escape noQuote inductionHypothesis =>
      have noEscape := Token.ne_backslash alone escape
      rw [List.cons_append, Token.stringLength_letter quote noFeed noEscape, if_neg noQuote,
        Token.stringLength_letter quote noFeed noEscape, if_neg noQuote]
      rcases inductionHypothesis fun inside => single (List.mem_cons_of_mem _ inside) with
        same | ⟨isOpen, longer⟩
      · exact .inl (by rw [same])
      · exact .inr ⟨by rw [isOpen]; rfl, by rw [longer]; rfl⟩

/-- A comment is as long as the rest of its line. -/
theorem Token.countWhile_continuesLine {line : List Char} (single : '\n' ∉ line) :
    countWhile Token.continuesLine line = line.length := by
  rw [countWhile, List.takeWhile_eq_self_iff.2]
  intro letter present
  rw [Token.continuesLine, bne_iff_ne]
  rintro rfl
  exact single present

/-- These tokens go on with a carriage return at the end of their line. -/
def Token.Kind.TakesReturn (kind : Kind) : Prop := kind = .comment ∨ kind = .unterminatedString

theorem Token.measure_return (first : Char) {line : List Char} (single : '\n' ∉ line) :
    measure first (line ++ ['\r']) = measure first line ∨
      ∃ kind : Kind, kind.TakesReturn ∧ measure first line = (kind, line.length) ∧
        measure first (line ++ ['\r']) = (kind, line.length + 1) := by
  have slash : (line ++ ['\r']).head? = some '/' ↔ line.head? = some '/' := by
    cases line <;> simp
  have noDigit : Char.isDigit '\r' = false := by decide
  have digit : (line ++ ['\r']).head?.any Char.isDigit = line.head?.any Char.isDigit := by
    cases line with
    | nil => exact noDigit
    | cons letter rest => rfl
  unfold measure
  simp only [slash, digit]
  split
  · have longer : '\n' ∉ line ++ ['\r'] := by simpa using single
    refine .inr ⟨.comment, .inl rfl, ?_, ?_⟩
    · rw [Token.countWhile_continuesLine single]
    · rw [Token.countWhile_continuesLine longer, List.length_append]
      rfl
  split
  · exact .inl (by rw [Token.countWhile_line (by decide)])
  split
  · exact .inl (by rw [Token.numberLength_line noDigit (by decide)])
  split
  · next isQuote =>
      have other : first ≠ '\r' := by
        rintro rfl
        exact absurd isQuote (by decide)
      rcases Token.stringLength_return other single with same | ⟨isOpen, longer⟩
      · exact .inl same
      · exact .inr ⟨.unterminatedString, .inr rfl, isOpen, longer⟩
  · exact .inl rfl

/-- A token is divided from the text after it, which may lose its first carriage return to it. -/
theorem Token.exists_division_withReturns (first : Char) (rest : List Char) :
    ∃ kind taken tail, rest = taken ++ tail ∧ '\n' ∉ taken ∧
      measure first rest = (kind, taken.length) ∧
      (measure first (Text.withReturns rest) = (kind, taken.length) ∨
        ∃ more, tail = '\n' :: more ∧ kind.TakesReturn ∧
          measure first (Text.withReturns rest) = (kind, taken.length + 1)) := by
  by_cases feed : '\n' ∈ rest
  · obtain ⟨line, more, rfl, single⟩ := List.eq_append_cons_of_mem feed
    have returned : Text.withReturns (line ++ '\n' :: more) =
        line ++ ['\r'] ++ '\n' :: Text.withReturns more := by
      rw [Text.withReturns_append, Text.withReturns_line single, Text.withReturns_feed,
        List.append_assoc]
      rfl
    rw [returned, Token.measure_line, Token.measure_line]
    rcases Token.measure_return first single with same | ⟨kind, takes, measured, longer⟩
    · obtain ⟨taken, tail, rfl, measured⟩ := Token.exists_division first line
      have inLine : '\n' ∉ taken := fun inside => single (List.mem_append_left tail inside)
      exact ⟨_, taken, tail ++ '\n' :: more, List.append_assoc _ _ _, inLine, measured,
        .inl (same.trans measured)⟩
    · exact ⟨kind, line, '\n' :: more, rfl, single, measured, .inr ⟨more, rfl, takes, longer⟩⟩
  · obtain ⟨taken, tail, rfl, measured⟩ := Token.exists_division first rest
    have inLine : '\n' ∉ taken := fun inside => feed (List.mem_append_left tail inside)
    rw [Text.withReturns_line feed]
    exact ⟨_, taken, tail, rfl, inLine, measured, .inl measured⟩

/-! ### All tokens -/

/-- A token of a text becomes one of the text with carriage returns. It is moved, unless it is a line
break or takes in a carriage return. -/
inductive Token.Returned (change : Nat → Nat) : Token → Token → Prop where
  | moved {token other : Token} : other.kind = token.kind → other.text = token.text →
      other.span = token.span.move change → Returned change token other
  | newline {token other : Token} : token.kind = .newline → other.kind = .newline →
      Returned change token other
  | longer {token other : Token} : token.kind.TakesReturn → other.kind = token.kind →
      other.text.toList = token.text.toList ++ ['\r'] → other.start = change token.start →
      Returned change token other

/-- What stands after a part of a line stands as far after it as before. -/
theorem Text.passReturns_line (before : List Char) {part : List Char} (inLine : '\n' ∉ part)
    (after : List Char) :
    Text.passReturns (before ++ (part ++ after)) (Text.size before + Text.size part) =
      Text.size (Text.withReturns before) + Text.size part := by
  rw [← List.append_assoc, ← Text.size_append, Text.passReturns_size, Text.withReturns_append,
    Text.withReturns_line inLine, Text.size_append]

theorem Token.returned_scan {start : Nat} {text : List Char} (before : List Char)
    (begins : Text.size before = start) :
    List.Forall₂ (Token.Returned (Text.passReturns (before ++ text))) (scan start text)
      (scan (Text.size (Text.withReturns before)) (Text.withReturns text)) := by
  induction start, text using scan.induct generalizing before with
  | case1 start =>
      rw [Text.withReturns_nil, Token.scan_nil, Token.scan_nil]
      exact .nil
  | case2 start first rest space inductionHypothesis =>
      have noFeed : first ≠ '\n' := by
        rintro rfl
        exact absurd space (by decide)
      have others := inductionHypothesis (before ++ [first]) (by simp [begins])
      rw [Text.withReturns_append, Text.withReturns_letter noFeed, Text.size_append,
        List.append_assoc] at others
      rw [Text.withReturns_letter noFeed, Token.scan_space _ _ space, Token.scan_space _ _ space]
      exact others
  | case3 start first rest solid measured text inductionHypothesis =>
      subst begins
      by_cases feed : first = '\n'
      · subst feed
        have single (more : List Char) : measure '\n' more = (.newline, 0) := rfl
        have others := inductionHypothesis (before ++ ['\n']) (by simp [text, measured, single])
        simp only [text, measured, single, List.take_zero, List.drop_zero, List.append_assoc,
          Text.withReturns_append, Text.size_append] at others
        rw [Text.withReturns_feed, Token.scan_token _ _ solid, single,
          Token.scan_space _ _ (by decide), Token.scan_token _ _ solid, single, Nat.add_assoc]
        exact .cons (.newline rfl rfl) others
      · obtain ⟨kind, taken, tail, rfl, inLine, found, longer⟩ :=
          Token.exists_division_withReturns first rest
        have inside : '\n' ∉ first :: taken := by simp [inLine, Ne.symm feed]
        have starts := Text.passReturns_size before (first :: taken ++ tail)
        have stops := Text.passReturns_line before inside tail
        have others := inductionHypothesis (before ++ first :: taken)
          (by simp [text, measured, found])
        simp only [text, measured, found, List.take_left, List.drop_left, List.append_assoc,
          Text.withReturns_append, Text.withReturns_line inside, Text.size_append] at others
        rw [Text.withReturns_letter feed, Token.scan_token _ _ solid, Token.scan_token _ _ solid,
          found, List.take_left, List.drop_left]
        rcases longer with same | ⟨more, rfl, takes, longer⟩
        · rw [same, Text.withReturns_append, Text.withReturns_line inLine, List.take_left,
            List.drop_left]
          refine .cons (.moved rfl rfl ?_) others
          rw [List.cons_append] at starts stops
          simp only [Token.span, Span.move, ← Text.size_eq_utf8ByteSize, starts, stops]
        · -- The carriage return belongs to the token, and so the line feed comes next.
          have cut : taken ++ Text.withReturns ('\n' :: more) =
              taken ++ ['\r'] ++ '\n' :: Text.withReturns more := by
            rw [Text.withReturns_feed, List.append_assoc]
            rfl
          have length : taken.length + 1 = (taken ++ ['\r']).length := by
            rw [List.length_append, List.length_singleton]
          have size : Text.size (first :: (taken ++ ['\r'])) =
              Text.size (first :: taken) + Char.utf8Size '\r' := by
            rw [← List.cons_append, Text.size_append]
            rfl
          rw [Text.withReturns_feed, Token.scan_space _ _ (by decide : Token.isSpace '\r' = true)]
            at others
          rw [longer, Text.withReturns_append, Text.withReturns_line inLine, cut, length,
            List.take_left, List.drop_left, size, ← Nat.add_assoc]
          refine .cons (.longer takes rfl ?_ starts.symm) others
          rw [String.toList_ofList, String.toList_ofList]
          rfl

end StorageSchema
