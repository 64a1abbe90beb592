/-
This file shows that strings are divided from a text by the same rule by which their values are
read. A value that is written as a string is found and read again, and reading a string never comes
to a backslash that nothing follows.
-/
import StorageSchema.Proofs.Token.LexicalGrammar

namespace StorageSchema

open Token (IsQuote IsStringBody Escapes)

namespace Text.Quoted

/-- A text is resolved to a value piece by piece. There is no rule for a backslash at the end. -/
inductive Resolves : List Char → List Char → Prop where
  | nil : Resolves [] []
  | pair {rest value : List Char} (letter : Char) : Resolves rest value →
      Resolves ('\\' :: letter :: rest) (escaped letter :: value)
  | letter {letter : Char} {rest value : List Char} : letter ≠ '\\' → Resolves rest value →
      Resolves (letter :: rest) (letter :: value)

theorem unescape_letter {letter : Char} (noEscape : letter ≠ '\\') (rest : List Char) :
    unescape (letter :: rest) = letter :: unescape rest := by
  rw [unescape]
  · exact fun same _ => noEscape same
  · exact fun _ _ same _ => noEscape same

/-- What is unescaped is resolved, unless a backslash is left over at the end. -/
theorem resolves_iff {text value : List Char} :
    Resolves text value ↔ ¬ Escapes text ∧ value = unescape text := by
  constructor
  · intro resolves
    induction resolves with
    | nil => exact ⟨Token.not_escapes_nil, rfl⟩
    | pair letter _ inductionHypothesis =>
        rw [Token.escapes_escape_iff, unescape, ← inductionHypothesis.2]
        exact ⟨inductionHypothesis.1, rfl⟩
    | letter noEscape _ inductionHypothesis =>
        rw [Token.escapes_letter_iff noEscape, unescape_letter noEscape, ← inductionHypothesis.2]
        exact ⟨inductionHypothesis.1, rfl⟩
  · rintro ⟨unescaped, rfl⟩
    induction text using unescape.induct with
    | case1 => exact .nil
    | case2 => exact absurd (by simp [Escapes, List.rtakeWhile]) unescaped
    | case3 letter rest inductionHypothesis =>
        rw [Token.escapes_escape_iff] at unescaped
        exact .pair letter (inductionHypothesis unescaped)
    | case4 letter rest single pair inductionHypothesis =>
        have noEscape : letter ≠ '\\' := Token.ne_backslash single pair
        rw [Token.escapes_letter_iff noEscape] at unescaped
        rw [unescape_letter noEscape]
        exact .letter noEscape (inductionHypothesis unescaped)

/-- The escapes of a written string let it go on to its last quote. -/
theorem isStringBody_escape {quote : Char} (isQuote : IsQuote quote) (letters : List Char) :
    IsStringBody quote (escape quote letters ++ [quote]) := by
  induction letters with
  | nil => exact .close
  | cons letter rest inductionHypothesis =>
      rw [escape]
      split
      · next special =>
          refine .escape ?_ inductionHypothesis
          rintro rfl
          exact special.elim (by decide) fun same => isQuote.ordinary.1 same.symm
      · next ordinary =>
          split
          · exact .escape (by decide) inductionHypothesis
          · next noFeed =>
              exact .letter noFeed (fun same => ordinary (.inl same))
                (fun same => ordinary (.inr same)) inductionHypothesis

/-- A text is a string with a value if it is a single token from which the value is read. -/
def IsStringOf (value : List Char) (text : String) : Prop :=
  Token.ofText text = [⟨.string, text, 0⟩] ∧ decode text.toList = value

/-- A value that is written between quotes of either sort is found and read again. -/
theorem isStringOf_encode {quote : Char} (isQuote : IsQuote quote) (value : List Char) :
    IsStringOf value (String.ofList (encode quote value)) := by
  have plain : escaped quote = quote := by
    rcases isQuote with rfl | rfl <;> rfl
  have measured := Token.measure_string isQuote (isStringBody_escape isQuote value) []
  rw [List.append_nil] at measured
  constructor
  · rw [Token.ofText, String.toList_ofList, encode,
      Token.scan_token 0 _ (by simp [isQuote.isSpace]), measured, List.take_length,
      List.drop_length, Token.scan_nil]
  · rw [String.toList_ofList, decode_encode value plain]

end Text.Quoted

open Text.Quoted (Resolves IsStringOf encode decode)

/-- The writing and the reading of strings agree. Each value is written as a single token, from
which it is read again. In each string of a text the quotes are cut off between characters, what is
between them is resolved to the end, and the value that is read can be written and read again. -/
theorem Token.strings_agree :
    (∀ quote value, IsQuote quote → IsStringOf value (String.ofList (encode quote value))) ∧
    ∀ text, ∀ token ∈ Token.ofText text, token.kind = .string →
      ∃ quote inside, IsQuote quote ∧ token.text.toList = quote :: inside ++ [quote] ∧
        Text.slice? token.text.toList ⟨1, Text.size token.text.toList - 1⟩ = some inside ∧
        Resolves inside (decode token.text.toList) ∧
        IsStringOf (decode token.text.toList)
          (String.ofList (encode quote (decode token.text.toList))) := by
  refine ⟨fun quote value isQuote => Text.Quoted.isStringOf_encode isQuote value, ?_⟩
  intro text token present isString
  obtain ⟨after, lexed⟩ := (Token.divides_scan 0 text.toList).exists_isLexed token present
  rw [isString] at lexed
  generalize token.text.toList = letters at lexed ⊢
  cases lexed with
  | @string quote inside _ isQuote _ unescaped =>
      refine ⟨quote, inside, isQuote, rfl, ?_, ?_, Text.Quoted.isStringOf_encode isQuote _⟩
      · exact Text.slice?_inside isQuote.narrow isQuote.narrow inside
      · rw [Text.Quoted.decode_quoted]
        exact Text.Quoted.resolves_iff.2 ⟨unescaped, rfl⟩
  | sign _ sign => exact absurd (Token.kind_of_punctuation? sign) (by simp)

/-- Here a quote, a backslash and a line feed are written, and a string is read that ends with two
backslashes and has an escaped letter of two bytes. -/
theorem Token.strings_agree_of_escapes :
    IsStringOf ['\x27', '\\', '\n', 'é'] "\x27\\\x27\\\\\\né\x27" ∧
    ∃ token ∈ Token.ofText "a: \x22\\é\\\\\x22", token.text = "\x22\\é\\\\\x22" ∧
      Resolves ['\\', 'é', '\\', '\\'] ['é', '\\'] ∧
      IsStringOf ['é', '\\'] "\x22é\\\\\x22" := by
  have written := Token.strings_agree.1 '\x27' ['\x27', '\\', '\n', 'é'] (.inr rfl)
  have present : (⟨.string, "\x22\\é\\\\\x22", 3⟩ : Token) ∈
      Token.ofText "a: \x22\\é\\\\\x22" := by
    decide +kernel
  obtain ⟨quote, inside, -, spelled, -, resolves, again⟩ :=
    Token.strings_agree.2 _ _ present rfl
  have letters : ("\x22\\é\\\\\x22" : String).toList =
      '\x22' :: ['\\', 'é', '\\', '\\'] ++ ['\x22'] := by
    decide
  rw [letters] at spelled resolves again
  obtain ⟨rfl, same⟩ := List.cons.inj spelled
  obtain rfl := List.append_cancel_right same
  exact ⟨written, _, present, rfl, resolves, again⟩

end StorageSchema
