/-
This file shows that no token reaches over the end of a line, so that the lines of the tokens of a
text are the lines of the text.
-/
import StorageSchema.Proofs.Comments.Lines
import StorageSchema.Proofs.Token.Scan

namespace StorageSchema

open Token (countWhile numberLength stringLength measure scan)

/-! ### What a token is measured by ends with its line -/

theorem Token.countWhile_line {test : Char → Bool} {letter : Char} (stops : test letter = false)
    (line tail : List Char) : countWhile test (line ++ letter :: tail) = countWhile test line := by
  rw [countWhile, countWhile, List.takeWhile_append]
  split <;> simp_all

theorem Token.countWhile_le (test : Char → Bool) (text : List Char) :
    countWhile test text ≤ text.length := (List.takeWhile_sublist test).length_le

theorem Token.numberLength_line {letter : Char} (noDigit : letter.isDigit = false)
    (noPoint : letter ≠ '.') (line tail : List Char) :
    numberLength (line ++ letter :: tail) = numberLength line := by
  have within := Token.countWhile_le Char.isDigit line
  simp only [numberLength, Token.countWhile_line noDigit, List.drop_append_of_le_length within]
  rcases line.drop (countWhile Char.isDigit line) with _ | ⟨point, _ | ⟨digit, places⟩⟩
  · cases tail <;> simp [noPoint]
  · by_cases isPoint : point = '.' <;> simp [isPoint, noDigit]
  · by_cases isPoint : point = '.' <;> simp [isPoint, Token.countWhile_line noDigit]

theorem Token.stringLength_line (quote : Char) (line tail : List Char) :
    stringLength quote (line ++ '\n' :: tail) = stringLength quote line := by
  induction line using stringLength.induct quote with
  | case1 | case2 | case3 | case4 => rfl
  | case5 letter rest ordinary inductionHypothesis =>
      rw [List.cons_append, List.cons_append, Token.stringLength_escape quote ordinary,
        inductionHypothesis, Token.stringLength_escape quote ordinary]
  | case6 rest noFeed single _ escape =>
      have noEscape := Token.ne_backslash single escape
      rw [List.cons_append, Token.stringLength_letter quote noFeed noEscape, if_pos rfl,
        Token.stringLength_letter quote noFeed noEscape, if_pos rfl]
  | case7 letter rest noFeed single _ escape noQuote inductionHypothesis =>
      have noEscape := Token.ne_backslash single escape
      rw [List.cons_append, Token.stringLength_letter quote noFeed noEscape, if_neg noQuote,
        inductionHypothesis, Token.stringLength_letter quote noFeed noEscape, if_neg noQuote]

theorem Token.measure_line (first : Char) (line tail : List Char) :
    measure first (line ++ '\n' :: tail) = measure first line := by
  have name : Token.continuesName '\n' = false := by decide
  have inLine : Token.continuesLine '\n' = false := by decide
  have noDigit : Char.isDigit '\n' = false := by decide
  have slash : (line ++ '\n' :: tail).head? = some '/' ↔ line.head? = some '/' := by
    cases line <;> simp
  have digit : (line ++ '\n' :: tail).head?.any Char.isDigit = line.head?.any Char.isDigit := by
    cases line with
    | nil => exact noDigit
    | cons letter rest => rfl
  unfold measure
  rw [Token.countWhile_line inLine, Token.countWhile_line name,
    Token.numberLength_line noDigit (by decide), Token.stringLength_line, digit]
  simp only [slash]

theorem Token.numberLength_le (text : List Char) : numberLength text ≤ text.length := by
  have within := Token.countWhile_le Char.isDigit text
  have whole := List.length_drop (i := countWhile Char.isDigit text) (l := text)
  simp only [numberLength]
  split
  · next digit places same =>
      have others := Token.countWhile_le Char.isDigit places
      rw [same] at whole
      simp only [List.length_cons] at whole
      split <;> omega
  · exact within

theorem Token.stringLength_le (quote : Char) (text : List Char) :
    (stringLength quote text).2 ≤ text.length := by
  induction text using stringLength.induct quote with
  | case1 | case2 | case3 | case4 => simp [stringLength]
  | case5 letter rest ordinary inductionHypothesis =>
      rw [Token.stringLength_escape quote ordinary]
      simpa using inductionHypothesis
  | case6 rest noFeed single _ escape =>
      rw [Token.stringLength_letter quote noFeed (Token.ne_backslash single escape), if_pos rfl]
      simp
  | case7 letter rest noFeed single _ escape noQuote inductionHypothesis =>
      rw [Token.stringLength_letter quote noFeed (Token.ne_backslash single escape),
        if_neg noQuote]
      simpa using inductionHypothesis

theorem Token.measure_le (first : Char) (rest : List Char) :
    (measure first rest).2 ≤ rest.length := by
  unfold measure
  split
  · exact Token.countWhile_le _ rest
  split
  · exact Token.countWhile_le _ rest
  split
  · exact Token.numberLength_le rest
  split
  · exact Token.stringLength_le first rest
  · exact Nat.zero_le _

/-- Each token is divided from the text after it, and its measure is its own length. -/
theorem Token.exists_division (first : Char) (rest : List Char) :
    ∃ taken tail, rest = taken ++ tail ∧
      measure first rest = ((measure first rest).1, taken.length) := by
  refine ⟨rest.take (measure first rest).2, rest.drop (measure first rest).2,
    (List.take_append_drop _ _).symm, ?_⟩
  rw [List.length_take_of_le (Token.measure_le first rest)]

/-! ### Lines of a text -/

/-- What stands before a line break is divided as it is by itself, and the line break is a token of
its own. -/
theorem Token.scan_line (start : Nat) (text tail : List Char) :
    scan start (text ++ '\n' :: tail) = scan start text ++
      ⟨.newline, "\n", start + Text.size text⟩ :: scan (start + Text.size text + 1) tail := by
  induction start, text using scan.induct with
  | case1 start =>
      rw [List.nil_append, Token.scan_token _ _ (by decide), Token.scan_nil]
      rfl
  | case2 start first rest space inductionHypothesis =>
      rw [List.cons_append, Token.scan_space _ _ space, Token.scan_space _ _ space,
        inductionHypothesis, Text.size_cons, Nat.add_assoc start]
  | case3 start first rest solid measured text inductionHypothesis =>
      -- The measure does not see the line break, so the token is cut off before it.
      have within := Token.measure_le first rest
      have size : Text.size (first :: rest) =
          Text.size text + Text.size (rest.drop (measure first rest).2) := by
        rw [← Text.size_append, List.cons_append, List.take_append_drop]
      rw [List.cons_append, Token.scan_token _ _ solid, Token.scan_token _ _ solid,
        Token.measure_line, List.take_append_of_le_length within,
        List.drop_append_of_le_length within, inductionHypothesis, size, Nat.add_assoc start]
      rfl

theorem Token.kind_ne_newline_of_mem_scan {start : Nat} {line : List Char}
    (single : '\n' ∉ line) : ∀ token ∈ scan start line, token.kind ≠ .newline := by
  induction start, line using scan.induct with
  | case1 start =>
      rw [Token.scan_nil]
      exact List.forall_mem_nil _
  | case2 start first rest space inductionHypothesis =>
      rw [Token.scan_space _ _ space]
      exact inductionHypothesis fun inside => single (List.mem_cons_of_mem first inside)
  | case3 start first rest solid measured text inductionHypothesis =>
      rw [Token.scan_token _ _ solid]
      refine List.forall_mem_cons.2 ⟨?_, inductionHypothesis fun inside =>
        single (List.mem_cons_of_mem first (List.mem_of_mem_drop inside))⟩
      intro isNewline
      change (measure first rest).1 = .newline at isNewline
      rcases Token.measure_kind first rest with plain | comment | sign
      · rw [isNewline] at plain
        simp at plain
      · rw [comment] at isNewline
        cases isNewline
      · rw [isNewline] at sign
        have feed : Token.punctuation? '\n' = some .newline := rfl
        exact single (Token.punctuation?_injective feed sign ▸ List.mem_cons_self)

/-- The letter at which a text is split stands in none of the parts. -/
theorem Text.notMem_of_mem_splitOn {letter : Char} {text part : List Char}
    (present : part ∈ text.splitOn letter) : letter ∉ part := by
  rw [List.splitOn_eq_splitOnP] at present
  induction text generalizing part with
  | nil =>
      rw [List.splitOnP_nil, List.mem_singleton] at present
      simp [present]
  | cons first rest inductionHypothesis =>
      rw [List.splitOnP_cons_eq_if_modifyHead] at present
      split at present
      · rcases List.mem_cons.1 present with rfl | later
        · exact List.not_mem_nil
        · exact inductionHypothesis later
      · next other =>
          obtain ⟨head, tail, divided⟩ :=
            List.exists_cons_of_ne_nil (List.splitOnP_ne_nil (· == letter) rest)
          rw [divided, List.modifyHead_cons] at present
          rw [divided] at inductionHypothesis
          rcases List.mem_cons.1 present with rfl | later
          · have inHead := inductionHypothesis List.mem_cons_self
            rw [List.mem_cons]
            rintro (rfl | inside)
            · simp at other
            · exact inHead inside
          · exact inductionHypothesis (List.mem_cons_of_mem head later)

theorem Token.lines_scan_line (start : Nat) {line : List Char} (single : '\n' ∉ line) :
    Token.lines (scan start line) = [scan start line] := by
  have none : Token.lines [] = [] ++ [[]] := rfl
  exact Token.lines_append none (Token.kind_ne_newline_of_mem_scan single)

theorem Token.lines_scan_intercalate (start : Nat) :
    (lines : List (List Char)) → lines ≠ [] → (∀ line ∈ lines, '\n' ∉ line) →
      (Token.lines (scan start (['\n'].intercalate lines))).map (List.map Token.symbol) =
        lines.map Symbol.scan
  | [], nonempty, _ => absurd rfl nonempty
  | [line], _, single => by
      rw [List.intercalate_singleton,
        Token.lines_scan_line start (single line (List.mem_singleton_self line)),
        List.map_singleton, Token.symbols_scan]
      rfl
  | line :: second :: rest, _, single => by
      obtain ⟨first, others⟩ := List.forall_mem_cons.1 single
      have more := Token.lines_scan_intercalate (start + Text.size line + 1) (second :: rest)
        (List.cons_ne_nil _ _) others
      rw [List.intercalate_cons_cons, List.append_assoc, List.singleton_append,
        Token.scan_line, Token.lines_append_newline _ rfl,
        Token.lines_scan_line start first, List.map_append, more, List.map_singleton,
        Token.symbols_scan]
      rfl

/-- The lines of the tokens of a text are those of the text, each divided by itself. -/
theorem Token.lines_scan (start : Nat) (text : List Char) :
    (Token.lines (scan start text)).map (List.map Token.symbol) =
      (text.splitOn '\n').map Symbol.scan := by
  have nonempty : text.splitOn '\n' ≠ [] := by
    rw [List.splitOn_eq_splitOnP]
    exact List.splitOnP_ne_nil _ text
  have lines := Token.lines_scan_intercalate start _ nonempty
    fun line => Text.notMem_of_mem_splitOn
  rwa [List.intercalate_splitOn] at lines

end StorageSchema
