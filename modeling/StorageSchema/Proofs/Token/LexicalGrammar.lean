/-
This file holds the lexical grammar of schema texts, and shows that a text is divided into tokens by
it and in no other way. Each token is the longest of its form, and between the tokens there is
nothing but space.
-/
import Mathlib.Algebra.Ring.Parity
import Mathlib.Data.List.DropRight
import StorageSchema.Proofs.Comments.TextLines
import StorageSchema.Proofs.Token.Renaming
import StorageSchema.Proofs.Token.Slice

namespace StorageSchema.Token

/-! ### The grammar -/

/-- A text has the longest of a form if none of its continuations in the text after it has the
form. -/
def IsLongest (form : List Char → Prop) (text after : List Char) : Prop :=
  form text ∧ ∀ more, more <+: after → more ≠ [] → ¬ form (text ++ more)

/-- A character is escaped by an odd number of backslashes right before it. -/
def Escapes (before : List Char) : Prop := Odd (before.rtakeWhile (· = '\\')).length

/-- The inside of a string stays on its line, and each of the quotes in it is escaped. -/
def IsInside (quote : Char) (inside : List Char) : Prop :=
  '\n' ∉ inside ∧ ∀ before after, inside = before ++ quote :: after → Escapes before

/-- A comment begins with one of two markers. -/
def BeginsComment (text : List Char) : Prop := ['#'] <+: text ∨ ['/', '/'] <+: text

/-- A line ends before a line feed and at the end of the text. -/
def EndsLine (after : List Char) : Prop := ∀ letter ∈ after.head?, letter = '\n'

/-- These are the forms of the tokens, each with the text that comes after the token. A character is
a token without a form of its own only where no token of another form begins. -/
inductive IsLexed : Kind → List Char → List Char → Prop where
  | identifier {text after : List Char} : IsLongest IsIdentifier text after →
      IsLexed .identifier text after
  | number {text after : List Char} : IsLongest IsNumeral text after →
      IsLexed .number text after
  | string {quote : Char} {inside : List Char} (after : List Char) : IsQuote quote →
      IsInside quote inside → ¬ Escapes inside →
      IsLexed .string (quote :: (inside ++ [quote])) after
  | unterminatedString {quote : Char} {inside after : List Char} : IsQuote quote →
      IsInside quote inside → EndsLine after → IsLexed .unterminatedString (quote :: inside) after
  | comment {text after : List Char} : BeginsComment text → '\n' ∉ text → EndsLine after →
      IsLexed .comment text after
  | sign {kind : Kind} {letter : Char} (after : List Char) : punctuation? letter = some kind →
      IsLexed kind [letter] after
  | invalid {letter : Char} {after : List Char} : isSpace letter = false →
      punctuation? letter = none → ¬ IsQuote letter →
      (∀ part, part <+: letter :: after →
        ¬ IsIdentifier part ∧ ¬ IsNumeral part ∧ ¬ BeginsComment part) →
      IsLexed .invalid [letter] after

/-- A text that begins at an offset is divided into tokens if they stand in it one after the other,
each with nothing but space before it, and with nothing but space after the last one. -/
inductive Divides : Nat → List Char → List Token → Prop where
  | space (start : Nat) {gap : List Char} : (∀ letter ∈ gap, isSpace letter = true) →
      Divides start gap []
  | token {start : Nat} {gap text after : List Char} {kind : Kind} {tokens : List Token} :
      (∀ letter ∈ gap, isSpace letter = true) → IsLexed kind text after →
      Divides (start + Text.size gap + Text.size text) after tokens →
      Divides start (gap ++ text ++ after)
        (⟨kind, String.ofList text, start + Text.size gap⟩ :: tokens)

/-! ### Numbers -/

/-- Digits at the beginning are counted one by one. -/
theorem numberLength_append {digits : List Char} (all : ∀ letter ∈ digits, letter.isDigit = true)
    (rest : List Char) : numberLength (digits ++ rest) = digits.length + numberLength rest := by
  induction digits with
  | nil => simp
  | cons digit others inductionHypothesis =>
      obtain ⟨isDigit, areDigits⟩ := List.forall_mem_cons.1 all
      rw [List.cons_append, numberLength_cons isDigit, inductionHypothesis areDigits,
        List.length_cons, Nat.add_right_comm]

/-- A number that begins with a magnitude goes on to the end of it, if not further. -/
theorem IsMagnitude.length_le {text : List Char} (magnitude : IsMagnitude text)
    (tail : List Char) : text.length ≤ Token.numberLength (text ++ tail) := by
  cases magnitude with
  | whole whole =>
      rw [numberLength_append whole.2]
      exact Nat.le_add_right _ _
  | @fraction whole places isWhole isPlaces =>
      obtain ⟨nonempty, all⟩ := isPlaces
      cases places with
      | nil => exact absurd rfl nonempty
      | cons place others =>
          obtain ⟨isDigit, areDigits⟩ := List.forall_mem_cons.1 all
          have counted : others.length ≤ countWhile Char.isDigit (others ++ tail) := by
            rw [countWhile, List.takeWhile_append_of_pos areDigits, List.length_append]
            exact Nat.le_add_right _ _
          rw [List.append_assoc, numberLength_append isWhole.2, List.cons_append,
            numberLength_point, List.cons_append, List.head?_cons, Option.any_some, isDigit,
            if_pos rfl, List.tail_cons]
          simp only [List.length_append, List.length_cons]
          omega

theorem IsNumeral.ne_nil {text : List Char} (numeral : IsNumeral text) : text ≠ [] := by
  cases numeral with
  | positive magnitude =>
      obtain ⟨digit, others, rfl, -⟩ := magnitude.exists_digit
      exact List.cons_ne_nil _ _
  | negative magnitude => exact List.cons_ne_nil _ _

/-- A number begins with a digit, or with a minus sign before a digit. -/
def BeginsNumber (first : Char) (rest : List Char) : Prop :=
  (first.isDigit || (first = '-' && rest.head?.any Char.isDigit)) = true

theorem BeginsNumber.measure {first : Char} {rest : List Char} (begins : BeginsNumber first rest) :
    measure first rest = (.number, numberLength rest) := by
  by_cases isDigit : first.isDigit = true
  · have noComment : first ≠ '#' ∧ first ≠ '/' := by
      constructor <;> rintro rfl <;> exact absurd isDigit (by decide)
    simp [Token.measure, noComment, startsName_of_isDigit isDigit, isDigit]
  · obtain ⟨rfl, next⟩ : first = '-' ∧ rest.head?.any Char.isDigit = true := by
      simpa [BeginsNumber, isDigit] using begins
    have noName : startsName '-' = false := by decide
    simp [Token.measure, noName, next]

theorem BeginsNumber.isSpace {first : Char} {rest : List Char} (begins : BeginsNumber first rest) :
    isSpace first = false := by
  rcases Bool.or_eq_true_iff.1 begins with isDigit | minus
  · exact isSpace_of_isDigit isDigit
  · obtain rfl := of_decide_eq_true (Bool.and_eq_true_iff.1 minus).1
    decide

theorem IsNumeral.beginsNumber {first : Char} {rest : List Char}
    (numeral : IsNumeral (first :: rest)) (tail : List Char) :
    BeginsNumber first (rest ++ tail) ∧ rest.length ≤ numberLength (rest ++ tail) := by
  cases numeral with
  | positive magnitude =>
      obtain ⟨digit, others, same, isDigit⟩ := magnitude.exists_digit
      obtain ⟨rfl, rfl⟩ := List.cons.inj same
      refine ⟨by simp [BeginsNumber, isDigit], ?_⟩
      have length := magnitude.length_le tail
      rw [List.cons_append, numberLength_cons isDigit, List.length_cons] at length
      exact Nat.le_of_succ_le_succ length
  | negative magnitude =>
      obtain ⟨digit, others, rfl, isDigit⟩ := magnitude.exists_digit
      exact ⟨by simp [BeginsNumber, isDigit], magnitude.length_le tail⟩

/-- The number that is measured is the longest numeral. -/
theorem BeginsNumber.isLongest_iff {first : Char} {rest after : List Char}
    (begins : BeginsNumber first (rest ++ after)) :
    IsLongest IsNumeral (first :: rest) after ↔ numberLength (rest ++ after) = rest.length := by
  have numeral := isNumeral_take begins
  constructor
  · rintro ⟨shorter, noLonger⟩
    have below := (shorter.beginsNumber after).2
    by_contra different
    rw [List.take_append, List.take_of_length_le below] at numeral
    refine noLonger _ (List.take_prefix _ _) ?_ numeral
    intro none
    rw [List.take_eq_nil_iff] at none
    rcases none with none | rfl
    · omega
    · have within := numberLength_le (rest ++ [])
      rw [List.append_nil] at below different within
      omega
  · intro measured
    rw [measured, List.take_left] at numeral
    refine ⟨numeral, ?_⟩
    rintro more ⟨later, rfl⟩ nonempty longer
    have length : (rest ++ more).length ≤ numberLength (rest ++ more ++ later) :=
      (IsNumeral.beginsNumber longer later).2
    rw [List.append_assoc, measured, List.length_append] at length
    exact nonempty (List.length_eq_zero_iff.1 (by omega))

/-! ### Identifiers -/

theorem isLongest_identifier_iff {text after : List Char} :
    IsLongest IsIdentifier text after ↔
      IsIdentifier text ∧ after.head?.any continuesName = false := by
  cases text with
  | nil => exact ⟨fun longest => longest.1.elim, fun identifier => identifier.1.elim⟩
  | cons first rest =>
      apply and_congr_right
      rintro ⟨starts, all⟩
      rw [any_head?_eq_false_iff]
      constructor
      · intro noLonger letter isNext
        obtain ⟨others, rfl⟩ := List.head?_eq_some_iff.1 isNext
        rw [Bool.eq_false_iff]
        intro goesOn
        refine noLonger [letter] ⟨others, rfl⟩ (List.cons_ne_nil _ _) ⟨starts, ?_⟩
        simpa [or_imp, forall_and, goesOn] using all
      · rintro stops more ⟨later, rfl⟩ nonempty ⟨-, longer⟩
        cases more with
        | nil => exact nonempty rfl
        | cons letter others =>
            have goesOn := longer letter (by simp)
            rw [stops letter rfl] at goesOn
            cases goesOn

/-! ### Strings -/

theorem escapes_append {before : List Char} (unescaped : ¬ Escapes before) (rest : List Char) :
    Escapes (before ++ rest) ↔ Escapes rest := by
  rw [Escapes, Nat.not_odd_iff_even] at unescaped
  simp only [Escapes, List.rtakeWhile, List.length_reverse, List.reverse_append,
    List.takeWhile_append] at unescaped ⊢
  split
  · next whole =>
      -- The rest is nothing but backslashes, and an even number of them comes before it.
      rw [List.length_append, List.length_reverse, whole, Nat.odd_add, iff_true_right unescaped]
  · rfl

theorem not_escapes_nil : ¬ Escapes [] := by simp [Escapes]

theorem not_escapes_letter {letter : Char} (noEscape : letter ≠ '\\') : ¬ Escapes [letter] := by
  simp [Escapes, List.rtakeWhile, noEscape]

theorem not_escapes_pair (letter : Char) : ¬ Escapes ['\\', letter] := by
  by_cases isEscape : letter = '\\' <;> simp [Escapes, List.rtakeWhile, isEscape]

/-- Both parts of a text are the inside of a string if the whole is, given that the first part does
not escape what follows. -/
theorem isInside_append_iff {quote : Char} {before rest : List Char}
    (unescaped : ¬ Escapes before) :
    IsInside quote (before ++ rest) ↔ IsInside quote before ∧ IsInside quote rest := by
  simp only [IsInside, List.mem_append, not_or]
  constructor
  · rintro ⟨⟨noFeed, noFeedLater⟩, escaped⟩
    refine ⟨⟨noFeed, ?_⟩, noFeedLater, ?_⟩
    · rintro first second rfl
      exact escaped first (second ++ rest) (by simp)
    · rintro first second rfl
      exact (escapes_append unescaped first).1 (escaped (before ++ first) second (by simp))
  · rintro ⟨⟨noFeed, escaped⟩, noFeedLater, escapedLater⟩
    refine ⟨⟨noFeed, noFeedLater⟩, ?_⟩
    intro first second divided
    rcases List.append_eq_append_iff.1 divided with ⟨part, rfl, later⟩ | ⟨part, rfl, later⟩
    · exact (escapes_append unescaped part).2 (escapedLater part second later)
    · cases part with
      | nil =>
          rw [List.append_nil] at unescaped
          exact absurd (escapedLater [] second later.symm) not_escapes_nil
      | cons letter part =>
          obtain ⟨rfl, -⟩ := List.cons.inj later
          exact escaped first part rfl

theorem isInside_nil (quote : Char) : IsInside quote [] := by simp [IsInside]

theorem isInside_letter_iff {quote letter : Char} {rest : List Char} (noEscape : letter ≠ '\\') :
    IsInside quote (letter :: rest) ↔ letter ≠ '\n' ∧ letter ≠ quote ∧ IsInside quote rest := by
  have single : IsInside quote [letter] ↔ letter ≠ '\n' ∧ letter ≠ quote := by
    simp only [IsInside, List.mem_singleton, List.singleton_eq_append_iff]
    refine and_congr ne_comm ⟨?_, ?_⟩
    · rintro escaped rfl
      exact not_escapes_nil (escaped [] [] (.inl ⟨rfl, rfl⟩))
    · rintro noQuote before after (⟨-, same⟩ | ⟨-, same⟩)
      · exact absurd (List.cons.inj same).1.symm noQuote
      · cases same
  rw [← List.singleton_append, isInside_append_iff (not_escapes_letter noEscape), single, and_assoc]

theorem isInside_escape_iff {quote letter : Char} {rest : List Char} (isQuote : IsQuote quote) :
    IsInside quote ('\\' :: letter :: rest) ↔ letter ≠ '\n' ∧ IsInside quote rest := by
  have pair : IsInside quote ['\\', letter] ↔ letter ≠ '\n' := by
    simp only [IsInside, List.mem_cons, List.not_mem_nil, or_false, not_or]
    constructor
    · rintro ⟨⟨-, noFeed⟩, -⟩
      exact Ne.symm noFeed
    · intro noFeed
      refine ⟨⟨by decide, Ne.symm noFeed⟩, ?_⟩
      rintro (_ | ⟨first, _ | ⟨second, before⟩⟩) after divided
      · exact absurd (List.cons.inj divided).1.symm isQuote.ordinary.2
      · obtain ⟨rfl, -⟩ := List.cons.inj divided
        simp [Escapes, List.rtakeWhile]
      · simp at divided
  change IsInside quote (['\\', letter] ++ rest) ↔ _
  rw [isInside_append_iff (not_escapes_pair letter), pair]

theorem escapes_letter_iff {letter : Char} {rest : List Char} (noEscape : letter ≠ '\\') :
    Escapes (letter :: rest) ↔ Escapes rest :=
  escapes_append (not_escapes_letter noEscape) rest

theorem escapes_escape_iff {letter : Char} {rest : List Char} :
    Escapes ('\\' :: letter :: rest) ↔ Escapes rest :=
  escapes_append (not_escapes_pair letter) rest

theorem isStringBody_letter_iff {quote letter : Char} {rest : List Char} (nonempty : rest ≠ [])
    (noEscape : letter ≠ '\\') :
    IsStringBody quote (letter :: rest) ↔
      letter ≠ '\n' ∧ letter ≠ quote ∧ IsStringBody quote rest := by
  constructor
  · intro body
    cases body with
    | close => exact absurd rfl nonempty
    | escape _ _ => exact absurd rfl noEscape
    | letter noFeed _ noQuote body => exact ⟨noFeed, noQuote, body⟩
  · rintro ⟨noFeed, noQuote, body⟩
    exact .letter noFeed noEscape noQuote body

theorem isStringBody_escape_iff {quote letter : Char} {rest : List Char} :
    IsStringBody quote ('\\' :: letter :: rest) ↔ letter ≠ '\n' ∧ IsStringBody quote rest := by
  constructor
  · intro body
    cases body with
    | escape noFeed body => exact ⟨noFeed, body⟩
    | letter _ noEscape _ _ => exact absurd rfl noEscape
  · rintro ⟨noFeed, body⟩
    exact .escape noFeed body

/-- A string goes on to its first quote that is not escaped. -/
theorem isStringBody_iff {quote : Char} (isQuote : IsQuote quote) {inside : List Char} :
    IsStringBody quote (inside ++ [quote]) ↔ IsInside quote inside ∧ ¬ Escapes inside := by
  induction inside using stringLength.induct quote with
  | case1 => exact iff_of_true .close ⟨isInside_nil quote, not_escapes_nil⟩
  | case2 rest =>
      refine iff_of_false ?_ fun inside => inside.1.1 List.mem_cons_self
      exact fun body => ((isStringBody_letter_iff (by simp) (by decide)).1 body).1 rfl
  | case3 =>
      refine iff_of_false ?_ fun inside => inside.2 (by simp [Escapes, List.rtakeWhile])
      intro body
      cases (isStringBody_escape_iff.1 body).2
  | case4 rest =>
      refine iff_of_false ?_ fun inside => inside.1.1 (by simp)
      exact fun body => (isStringBody_escape_iff.1 body).1 rfl
  | case5 letter rest ordinary inductionHypothesis =>
      rw [List.cons_append, List.cons_append, isStringBody_escape_iff,
        isInside_escape_iff isQuote, escapes_escape_iff, and_assoc, inductionHypothesis]
  | case6 rest noFeed single _ escape =>
      have noEscape := ne_backslash single escape
      refine iff_of_false ?_ fun inside => ((isInside_letter_iff noEscape).1 inside.1).2.1 rfl
      exact fun body => ((isStringBody_letter_iff (by simp) noEscape).1 body).2.1 rfl
  | case7 letter rest noFeed single _ escape noQuote inductionHypothesis =>
      have noEscape := ne_backslash single escape
      rw [List.cons_append, isStringBody_letter_iff (by simp) noEscape, inductionHypothesis,
        isInside_letter_iff noEscape, escapes_letter_iff noEscape, and_assoc, and_assoc]

/-- An open string goes on to the end of its line. -/
theorem stringLength_open_iff {quote : Char} (isQuote : IsQuote quote) {inside after : List Char} :
    stringLength quote (inside ++ after) = (.unterminatedString, inside.length) ↔
      IsInside quote inside ∧ EndsLine after := by
  induction inside using stringLength.induct quote with
  | case1 =>
      rw [and_iff_right (isInside_nil quote), List.nil_append]
      cases after with
      | nil => exact iff_of_true rfl (by simp [EndsLine])
      | cons letter rest =>
          by_cases feed : letter = '\n'
          · subst feed
            exact iff_of_true rfl (by simp [EndsLine])
          · refine iff_of_false ?_ (by simp [EndsLine, feed])
            intro measured
            have positive := stringLength_pos quote feed rest
            rw [measured] at positive
            exact Nat.lt_irrefl 0 positive
  | case2 rest => exact iff_of_false (by simp [stringLength]) fun inside => inside.1.1 (by simp)
  | case3 =>
      have escape : IsInside quote ['\\'] := by
        simp [IsInside, List.singleton_eq_append_iff, isQuote.ordinary.2]
      rw [and_iff_right escape, List.singleton_append]
      cases after with
      | nil => exact iff_of_true rfl (by simp [EndsLine])
      | cons letter rest =>
          by_cases feed : letter = '\n'
          · subst feed
            exact iff_of_true rfl (by simp [EndsLine])
          · refine iff_of_false ?_ (by simp [EndsLine, feed])
            intro measured
            rw [stringLength_escape quote feed] at measured
            have two : (stringLength quote rest).2 + 2 = 1 := congrArg Prod.snd measured
            omega
  | case4 rest =>
      exact iff_of_false (by simp [stringLength]) fun inside => inside.1.1 (by simp)
  | case5 letter rest ordinary inductionHypothesis =>
      rw [List.cons_append, List.cons_append, stringLength_escape quote ordinary,
        isInside_escape_iff isQuote, and_assoc, ← inductionHypothesis, and_iff_right ordinary]
      exact map_add_eq_iff
  | case6 rest noFeed single _ escape =>
      have noEscape := ne_backslash single escape
      rw [List.cons_append, stringLength_letter quote noFeed noEscape, if_pos rfl]
      refine iff_of_false (by simp) ?_
      exact fun inside => ((isInside_letter_iff noEscape).1 inside.1).2.1 rfl
  | case7 letter rest noFeed single _ escape noQuote inductionHypothesis =>
      have noEscape := ne_backslash single escape
      rw [List.cons_append, stringLength_letter quote noFeed noEscape, if_neg noQuote,
        isInside_letter_iff noEscape, and_assoc, and_assoc, ← inductionHypothesis,
        and_iff_right noFeed, and_iff_right noQuote]
      exact map_add_eq_iff

/-! ### Tokens -/

theorem IsQuote.isSpace {quote : Char} (isQuote : IsQuote quote) : isSpace quote = false := by
  rcases isQuote with rfl | rfl <;> decide

theorem IsQuote.measure {quote : Char} (isQuote : IsQuote quote) (text : List Char) :
    measure quote text = stringLength quote text := by
  rcases isQuote with rfl | rfl
  · have noName : startsName '\x22' = false := by decide
    simp [Token.measure, noName, show Char.isDigit '\x22' = false by decide]
  · have noName : startsName '\x27' = false := by decide
    simp [Token.measure, noName, show Char.isDigit '\x27' = false by decide]

theorem isSpace_of_punctuation? {kind : Kind} {letter : Char}
    (sign : punctuation? letter = some kind) : isSpace letter = false := by
  unfold punctuation? at sign
  split at sign <;> cases sign <;> decide

theorem endsLine_iff {after : List Char} :
    EndsLine after ↔ after.head?.any continuesLine = false := by
  simp [EndsLine, any_head?_eq_false_iff, continuesLine]

/-- A comment that is measured has a marker and goes on to the end of its line. -/
theorem isLexed_comment {first : Char} {rest after : List Char}
    (begins : (first = '#' || (first = '/' && (rest ++ after).head? = some '/')) = true)
    (measured : countWhile continuesLine (rest ++ after) = rest.length) :
    IsLexed .comment (first :: rest) after := by
  obtain ⟨all, stops⟩ := countWhile_eq_length_iff.1 measured
  have marked : first = '#' ∨ first = '/' ∧ (rest ++ after).head? = some '/' := by
    simpa using begins
  refine .comment ?_ ?_ (endsLine_iff.2 stops)
  · rcases marked with rfl | ⟨rfl, second⟩
    · exact .inl ⟨rest, rfl⟩
    · cases rest with
      | nil =>
          rw [List.nil_append] at second
          rw [second] at stops
          exact absurd stops (by decide)
      | cons letter others =>
          obtain rfl : letter = '/' := Option.some.inj second
          exact .inr ⟨others, rfl⟩
  · rw [List.mem_cons, not_or]
    constructor
    · rcases marked with rfl | ⟨rfl, -⟩ <;> decide
    · intro inside
      exact absurd (all _ inside) (by decide)

/-- A comment that begins with a character makes it begin a comment wherever it stands. -/
theorem BeginsComment.marks {first : Char} {rest : List Char}
    (begins : BeginsComment (first :: rest)) (after : List Char) :
    (first = '#' || (first = '/' && (rest ++ after).head? = some '/')) = true := by
  rcases begins with ⟨_, marker⟩ | ⟨_, marker⟩
  · obtain rfl := (List.cons.inj marker).1
    rfl
  · obtain ⟨rfl, rfl⟩ := List.cons.inj marker
    rfl

/-- What is measured has the form of a token. -/
theorem isLexed_of_measure {kind : Kind} {first : Char} {rest after : List Char}
    (solid : isSpace first = false) (measured : measure first (rest ++ after) = (kind, rest.length)) :
    IsLexed kind (first :: rest) after := by
  unfold measure at measured
  split at measured
  · next begins =>
      obtain ⟨rfl, counted⟩ := Prod.mk.inj measured
      exact isLexed_comment begins counted
  next noComment =>
  split at measured
  · next starts =>
      obtain ⟨rfl, counted⟩ := Prod.mk.inj measured
      obtain ⟨all, stops⟩ := countWhile_eq_length_iff.1 counted
      exact .identifier (isLongest_identifier_iff.2 ⟨⟨starts, all⟩, stops⟩)
  next noName =>
  split at measured
  · next begins =>
      obtain ⟨rfl, counted⟩ := Prod.mk.inj measured
      exact .number ((BeginsNumber.isLongest_iff begins).2 counted)
  next noNumber =>
  split at measured
  · next quoted =>
      have isQuote : IsQuote first := by simpa [IsQuote] using quoted
      rcases stringLength_kind first (rest ++ after) with closed | isOpen
      · rw [measured] at closed
        obtain rfl : kind = .string := closed
        have body := isStringBody_take measured
        rw [List.take_left] at body
        obtain ⟨inside, rfl⟩ := body.exists_concat
        obtain ⟨isInside, unescaped⟩ := (isStringBody_iff isQuote).1 body
        exact .string after isQuote isInside unescaped
      · rw [measured] at isOpen
        obtain rfl : kind = .unterminatedString := isOpen
        obtain ⟨inside, ends⟩ := (stringLength_open_iff isQuote).1 measured
        exact .unterminatedString isQuote inside ends
  · next noQuote =>
      obtain ⟨same, nothing⟩ := Prod.mk.inj measured
      obtain rfl : rest = [] := List.length_eq_zero_iff.1 nothing.symm
      cases sign : punctuation? first with
      | some found =>
          rw [sign] at same
          obtain rfl : found = kind := same
          exact .sign after sign
      | none =>
          rw [sign] at same
          obtain rfl : .invalid = kind := same
          refine .invalid solid sign (by simpa [IsQuote] using noQuote) ?_
          rintro part ⟨later, divided⟩
          cases part with
          | nil =>
              exact ⟨id, fun numeral => numeral.ne_nil rfl, by simp [BeginsComment]⟩
          | cons letter more =>
              obtain ⟨rfl, rfl⟩ := List.cons.inj divided
              exact ⟨fun identifier => noName identifier.1,
                fun numeral => noNumber (numeral.beginsNumber later).1,
                fun comment => noComment (comment.marks later)⟩

/-- A character at which no token of another form begins is a token by itself. -/
theorem measure_invalid {letter : Char} {after : List Char} (noSign : punctuation? letter = none)
    (noQuote : ¬ IsQuote letter)
    (nothing : ∀ part, part <+: letter :: after →
      ¬ IsIdentifier part ∧ ¬ IsNumeral part ∧ ¬ BeginsComment part) :
    measure letter after = (.invalid, 0) := by
  have noComment : ¬ (letter = '#' || (letter = '/' && after.head? = some '/')) = true := by
    intro begins
    rcases Bool.or_eq_true_iff.1 begins with mark | marks
    · obtain rfl := of_decide_eq_true mark
      exact (nothing ['#'] ⟨after, rfl⟩).2.2 (.inl List.prefix_rfl)
    · obtain ⟨rfl, second⟩ : letter = '/' ∧ after.head? = some '/' := by simpa using marks
      obtain ⟨rest, rfl⟩ := List.head?_eq_some_iff.1 second
      exact (nothing ['/', '/'] ⟨rest, rfl⟩).2.2 (.inr List.prefix_rfl)
  have noName : ¬ startsName letter = true := by
    intro starts
    exact (nothing [letter] ⟨after, rfl⟩).1 ⟨starts, List.forall_mem_nil _⟩
  have noNumber : ¬ (letter.isDigit || (letter = '-' && after.head?.any Char.isDigit)) = true := by
    intro begins
    refine (nothing (letter :: after.take (numberLength after)) ?_).2.1 (isNumeral_take begins)
    exact List.cons_prefix_cons.2 ⟨rfl, List.take_prefix _ _⟩
  have noString : ¬ (letter = '\x22' || letter = '\x27') = true := by simpa [IsQuote] using noQuote
  rw [measure, if_neg noComment, if_neg noName, if_neg noNumber, if_neg noString, noSign]
  rfl

/-- What has the form of a token is measured so. -/
theorem IsLexed.measure {kind : Kind} {text after : List Char} (lexed : IsLexed kind text after) :
    ∃ first rest, text = first :: rest ∧ isSpace first = false ∧
      Token.measure first (rest ++ after) = (kind, rest.length) := by
  cases lexed with
  | identifier longest =>
      obtain ⟨identifier, stops⟩ := isLongest_identifier_iff.1 longest
      cases text with
      | nil => exact identifier.elim
      | cons first rest =>
          exact ⟨first, rest, rfl, isSpace_of_startsName identifier.1,
            measure_name identifier stops⟩
  | number longest =>
      cases text with
      | nil => exact absurd rfl longest.1.ne_nil
      | cons first rest =>
          have begins := (longest.1.beginsNumber after).1
          refine ⟨first, rest, rfl, begins.isSpace, ?_⟩
          rw [begins.measure, begins.isLongest_iff.1 longest]
  | @string quote inside _ isQuote isInside unescaped =>
      have body := (isStringBody_iff isQuote).2 ⟨isInside, unescaped⟩
      exact ⟨quote, _, rfl, isQuote.isSpace, measure_string isQuote body after⟩
  | @unterminatedString quote inside _ isQuote isInside ends =>
      refine ⟨quote, inside, rfl, isQuote.isSpace, ?_⟩
      rw [isQuote.measure]
      exact (stringLength_open_iff isQuote).2 ⟨isInside, ends⟩
  | comment begins single ends =>
      cases text with
      | nil => simp [BeginsComment] at begins
      | cons first rest =>
          have all : ∀ letter ∈ rest, continuesLine letter = true := by
            intro letter present
            rw [continuesLine, bne_iff_ne]
            rintro rfl
            exact single (List.mem_cons_of_mem first present)
          have counted := countWhile_eq_length_iff.2 ⟨all, endsLine_iff.1 ends⟩
          have marks := begins.marks after
          refine ⟨first, rest, rfl, ?_, ?_⟩
          · rcases begins with ⟨_, marker⟩ | ⟨_, marker⟩ <;>
              exact (List.cons.inj marker).1 ▸ by decide
          · rw [Token.measure, if_pos marks, counted]
  | @sign kind letter _ sign =>
      exact ⟨letter, [], rfl, isSpace_of_punctuation? sign, measure_sign sign after⟩
  | @invalid letter after solid noSign noQuote nothing =>
      exact ⟨letter, [], rfl, solid, measure_invalid noSign noQuote nothing⟩

theorem scan_gap (start : Nat) {gap : List Char} (space : ∀ letter ∈ gap, isSpace letter = true)
    (text : List Char) : scan start (gap ++ text) = scan (start + Text.size gap) text := by
  induction gap generalizing start with
  | nil => rfl
  | cons letter rest inductionHypothesis =>
      obtain ⟨isGap, others⟩ := List.forall_mem_cons.1 space
      rw [List.cons_append, scan_space start _ isGap, inductionHypothesis _ others, Text.size_cons,
        Nat.add_assoc]

theorem IsLexed.scan {kind : Kind} {text after : List Char} (lexed : IsLexed kind text after)
    (start : Nat) :
    scan start (text ++ after) =
      ⟨kind, String.ofList text, start⟩ :: Token.scan (start + Text.size text) after := by
  obtain ⟨first, rest, rfl, solid, measured⟩ := lexed.measure
  exact scan_measured solid measured start

/-- Each token that is found has the form of its kind, whatever comes after it. -/
theorem exists_isLexed {first : Char} {rest : List Char} (solid : isSpace first = false) :
    IsLexed (measure first rest).1 (first :: rest.take (measure first rest).2)
      (rest.drop (measure first rest).2) := by
  apply isLexed_of_measure solid
  rw [List.take_append_drop, List.length_take_of_le (measure_le first rest)]

theorem Divides.space_cons {start : Nat} {letter : Char} {text : List Char} {tokens : List Token}
    (space : isSpace letter = true) (divides : Divides (start + letter.utf8Size) text tokens) :
    Divides start (letter :: text) tokens := by
  cases divides with
  | space _ gap => exact .space start (List.forall_mem_cons.2 ⟨space, gap⟩)
  | @token _ gap text after kind tokens isGap lexed others =>
      have size : start + letter.utf8Size + Text.size gap = start + Text.size (letter :: gap) := by
        rw [Text.size_cons, Nat.add_assoc]
      rw [size] at others ⊢
      exact .token (List.forall_mem_cons.2 ⟨space, isGap⟩) lexed others

theorem divides_scan (start : Nat) (text : List Char) : Divides start text (scan start text) := by
  induction start, text using scan.induct with
  | case1 start =>
      rw [scan_nil]
      exact .space start (List.forall_mem_nil _)
  | case2 start first rest space inductionHypothesis =>
      rw [scan_space start rest space]
      exact .space_cons space inductionHypothesis
  | case3 start first rest solid measured text inductionHypothesis =>
      rw [scan_token start rest solid]
      have divided : first :: rest = [] ++ text ++ rest.drop measured.2 :=
        congrArg (first :: ·) (List.take_append_drop _ _).symm
      rw [divided]
      exact .token (List.forall_mem_nil _) (exists_isLexed (Bool.not_eq_true _ ▸ solid))
        inductionHypothesis

/-- A text is divided by the grammar exactly as it is scanned. -/
theorem divides_iff {start : Nat} {text : List Char} {tokens : List Token} :
    Divides start text tokens ↔ tokens = scan start text := by
  constructor
  · intro divides
    induction divides with
    | space start space =>
        have nothing := scan_gap start space []
        rw [List.append_nil, scan_nil] at nothing
        exact nothing.symm
    | token space lexed _ inductionHypothesis =>
        rw [List.append_assoc, scan_gap _ space, lexed.scan, inductionHypothesis]
  · rintro rfl
    exact divides_scan start text

/-- A token has its form at the end of a text too. -/
theorem IsLexed.alone {kind : Kind} {text after : List Char} (lexed : IsLexed kind text after) :
    IsLexed kind text [] := by
  have longest {form : List Char → Prop} (isForm : form text) : IsLongest form text [] :=
    ⟨isForm, fun more within nonempty => absurd (List.prefix_nil.1 within) nonempty⟩
  have ends : EndsLine [] := by simp [EndsLine]
  cases lexed with
  | identifier found => exact .identifier (longest found.1)
  | number found => exact .number (longest found.1)
  | string _ isQuote isInside unescaped => exact .string [] isQuote isInside unescaped
  | unterminatedString isQuote isInside _ => exact .unterminatedString isQuote isInside ends
  | comment begins single _ => exact .comment begins single ends
  | sign _ sign => exact .sign [] sign
  | @invalid letter after solid noSign noQuote nothing =>
      refine .invalid solid noSign noQuote ?_
      intro part within
      exact nothing part (within.trans (List.cons_prefix_cons.2 ⟨rfl, List.nil_prefix⟩))

theorem Divides.exists_isLexed {start : Nat} {text : List Char} {tokens : List Token}
    (divides : Divides start text tokens) :
    ∀ token ∈ tokens, ∃ after, IsLexed token.kind token.text.toList after := by
  induction divides with
  | space => exact List.forall_mem_nil _
  | @token start gap text after kind tokens _ lexed _ inductionHypothesis =>
      refine List.forall_mem_cons.2 ⟨⟨after, ?_⟩, inductionHypothesis⟩
      rw [String.toList_ofList]
      exact lexed

/-- The text of a token has that token and no other. -/
theorem scan_text {start : Nat} {text : List Char} {token : Token}
    (present : token ∈ scan start text) :
    scan 0 token.text.toList = [{ token with start := 0 }] := by
  obtain ⟨after, lexed⟩ := (divides_scan start text).exists_isLexed token present
  have alone := lexed.alone.scan 0
  rw [List.append_nil, scan_nil, String.ofList_toList] at alone
  exact alone

/-! ### The ending -/

/-- The tokens of a text are followed by the empty one at its end. -/
def untilEnd (text : String) : List Token := ofText text ++ [endOf text]

/-- The tokens of a text are the only ones that it can be divided into by the grammar. They are
followed by a single ending, they stand apart in their order, and each of them is found in its own
slice alone. -/
theorem untilEnd_divides (text : String) :
    (∀ tokens, Divides 0 text.toList tokens ↔ tokens ++ [endOf text] = untilEnd text) ∧
    (untilEnd text).filter (fun token => token.kind = .ending) = [endOf text] ∧
    (endOf text).span = ⟨text.utf8ByteSize, text.utf8ByteSize⟩ ∧
    ((untilEnd text).Pairwise fun first second => first.span.stop ≤ second.span.start) ∧
    (∀ token ∈ untilEnd text, token.span.PlacedIn text.toList ∧
      Text.slice? text.toList token.span = some token.text.toList) ∧
    ∀ token ∈ untilEnd text, token.kind ≠ .ending → token.span.start < token.span.stop ∧
      untilEnd token.text = [{ token with start := 0 }, endOf token.text] := by
  have apart := (ordered_scan 0 text.toList).apart
  have inText {token : Token} (present : token ∈ untilEnd text) (other : token.kind ≠ .ending) :
      token ∈ ofText text := by
    rcases List.mem_append.1 present with inside | isLast
    · exact inside
    · obtain rfl := List.mem_singleton.1 isLast
      exact absurd rfl other
  refine ⟨?_, ?_, ?_, ?_, ?_, ?_⟩
  · intro tokens
    rw [divides_iff, untilEnd, List.append_left_inj]
    rfl
  · have none : (ofText text).filter (fun token => token.kind = .ending) = [] := by
      rw [List.filter_eq_nil_iff]
      intro token present
      simpa using kind_ne_ending_of_mem_scan present
    rw [untilEnd, List.filter_append, none]
    rfl
  · rfl
  · refine List.pairwise_append.2 ⟨apart.pairwise, List.pairwise_singleton _ _, ?_⟩
    intro token present last isLast
    obtain rfl := List.mem_singleton.1 isLast
    exact (slices_of_mem_ofText present).placed.stop.le_utf8ByteSize
  · intro token present
    have slices := slices_of_mem present
    exact ⟨slices.placed, Text.slice?_eq_some_iff.2 slices⟩
  · intro token present other
    have inside := inText present other
    refine ⟨apart.solid token inside, ?_⟩
    rw [untilEnd, ofText, scan_text inside]
    rfl

/-- A second point ends a number, and an open string goes on over the quote that is escaped. -/
example : (untilEnd "-1.5.x\t\x22\\\x22é").map (fun token => (token.kind, token.text, token.start)) =
    [(.number, "-1.5", 0), (.invalid, ".", 4), (.identifier, "x", 5),
      (.unterminatedString, "\x22\\\x22é", 7), (.ending, "", 12)] := by
  decide +kernel

end StorageSchema.Token
