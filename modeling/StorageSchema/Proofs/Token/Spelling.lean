/-
This file says how the tokens of a text are spelled, and that a token spelled so is found again
wherever what follows does not go on with it.
-/
import Mathlib.Data.List.TakeWhile
import StorageSchema.Grammar

namespace StorageSchema.Token

/-- An identifier has the form `[A-Za-z_][A-Za-z0-9_]*`. -/
def IsIdentifier : List Char → Prop
  | [] => False
  | first :: rest => startsName first = true ∧ ∀ letter ∈ rest, continuesName letter = true

-- The letters of a text are tried one by one, and not all characters there are.
instance : (text : List Char) → Decidable (IsIdentifier text)
  | [] => isFalse id
  | _ :: rest => @instDecidableAnd _ _ _ (List.decidableBAll _ rest)

/-- The digits of a number are one or more. -/
def IsDigits (text : List Char) : Prop :=
  text ≠ [] ∧ ∀ letter ∈ text, letter.isDigit = true

instance (text : List Char) : Decidable (IsDigits text) :=
  @instDecidableAnd _ _ _ (List.decidableBAll _ text)

/-- A magnitude has the form `digits(.digits)?`. -/
inductive IsMagnitude : List Char → Prop where
  | whole {digits : List Char} : IsDigits digits → IsMagnitude digits
  | fraction {digits places : List Char} : IsDigits digits → IsDigits places →
      IsMagnitude (digits ++ '.' :: places)

/-- A numeral has the form `-?digits(.digits)?`. -/
inductive IsNumeral : List Char → Prop where
  | positive {text : List Char} : IsMagnitude text → IsNumeral text
  | negative {text : List Char} : IsMagnitude text → IsNumeral ('-' :: text)

/-- What follows the opening quote of a string goes on to the first quote without a backslash in
front of it. -/
inductive IsStringBody (quote : Char) : List Char → Prop where
  | close : IsStringBody quote [quote]
  | escape {letter : Char} {rest : List Char} : letter ≠ '\n' → IsStringBody quote rest →
      IsStringBody quote ('\\' :: letter :: rest)
  | letter {letter : Char} {rest : List Char} : letter ≠ '\n' → letter ≠ '\\' → letter ≠ quote →
      IsStringBody quote rest → IsStringBody quote (letter :: rest)

theorem IsStringBody.exists_concat {quote : Char} {body : List Char}
    (isBody : IsStringBody quote body) : ∃ inner, body = inner ++ [quote] := by
  induction isBody with
  | close => exact ⟨[], rfl⟩
  | @escape letter rest _ _ inductionHypothesis =>
      obtain ⟨inner, rfl⟩ := inductionHypothesis
      exact ⟨'\\' :: letter :: inner, rfl⟩
  | @letter letter rest _ _ _ _ inductionHypothesis =>
      obtain ⟨inner, rfl⟩ := inductionHypothesis
      exact ⟨letter :: inner, rfl⟩

/-- A quote is double or single. -/
def IsQuote (letter : Char) : Prop := letter = '\x22' ∨ letter = '\x27'

/-- These are the spellings of the tokens that documents consist of. -/
inductive IsSpelled : Kind → List Char → Prop where
  | identifier {text : List Char} : IsIdentifier text → IsSpelled .identifier text
  | number {text : List Char} : IsNumeral text → IsSpelled .number text
  | string {quote : Char} {body : List Char} : IsQuote quote → IsStringBody quote body →
      IsSpelled .string (quote :: body)
  | sign {kind : Kind} {letter : Char} : punctuation? letter = some kind → IsSpelled kind [letter]

/-- A text delimits the token before it if it does not begin with what goes on with a name or a
number. -/
def Delimits (text : List Char) : Prop :=
  ∀ letter ∈ text.head?, continuesName letter = false ∧ letter ≠ '.'

theorem continuesName_of_isDigit {letter : Char} (digit : letter.isDigit = true) :
    continuesName letter = true := by
  simp [continuesName, Char.isAlphanum, digit]

theorem startsName_of_isDigit {letter : Char} (digit : letter.isDigit = true) :
    startsName letter = false := by
  have below : letter.val ≤ '9'.val := of_decide_eq_true (Bool.and_eq_true_iff.1 digit).2
  have noLetter : letter.isAlpha = false := by
    rw [Bool.eq_false_iff]
    intro alpha
    rcases Bool.or_eq_true_iff.1 alpha with upper | lower
    · have above : 'A'.val ≤ letter.val := (of_decide_eq_true upper).1
      exact absurd (UInt32.le_trans above below) (by decide)
    · have above : 'a'.val ≤ letter.val := of_decide_eq_true (Bool.and_eq_true_iff.1 lower).1
      exact absurd (UInt32.le_trans above below) (by decide)
  have ordinary : letter ≠ '_' := by
    rintro rfl
    exact absurd digit (by decide)
  simp [startsName, noLetter, ordinary]

theorem isSpace_of_startsName {letter : Char} (starts : startsName letter = true) :
    isSpace letter = false := by
  rw [Bool.eq_false_iff]
  intro space
  simp only [isSpace, Bool.or_eq_true, decide_eq_true_eq] at space
  rcases space with (((rfl | rfl) | rfl) | rfl) | rfl <;> exact absurd starts (by decide)

theorem isSpace_of_isDigit {letter : Char} (digit : letter.isDigit = true) :
    isSpace letter = false := by
  rw [Bool.eq_false_iff]
  intro space
  simp only [isSpace, Bool.or_eq_true, decide_eq_true_eq] at space
  rcases space with (((rfl | rfl) | rfl) | rfl) | rfl <;> exact absurd digit (by decide)

theorem countWhile_append {test : Char → Bool} {text tail : List Char}
    (all : ∀ letter ∈ text, test letter = true)
    (stops : ∀ letter ∈ tail.head?, test letter = false) :
    countWhile test (text ++ tail) = text.length := by
  have none : tail.takeWhile test = [] := by
    cases tail with
    | nil => rfl
    | cons letter rest => simp [stops letter rfl]
  rw [countWhile, List.takeWhile_append_of_pos all, none, List.append_nil]

theorem measure_identifier {first : Char} {rest tail : List Char}
    (identifier : IsIdentifier (first :: rest)) (delimits : Delimits tail) :
    measure first (rest ++ tail) = (.identifier, rest.length) := by
  have noComment : first ≠ '#' ∧ first ≠ '/' := by
    constructor <;> rintro rfl <;> exact absurd identifier.1 (by decide)
  have counted := countWhile_append identifier.2 fun letter present => (delimits letter present).1
  simp [measure, noComment, identifier.1, counted]

/-- A number that begins with a digit goes on with the digits after it and then with its places. -/
theorem numberLength_digits {digits tail : List Char}
    (all : ∀ letter ∈ digits, letter.isDigit = true)
    (stops : ∀ letter ∈ tail.head?, letter.isDigit = false) :
    numberLength (digits ++ tail) = digits.length + numberLength tail := by
  have whole := countWhile_append all stops
  have none : countWhile Char.isDigit tail = 0 := by
    rw [← List.nil_append tail]
    exact countWhile_append (by simp) stops
  simp only [numberLength, whole, none, List.drop_left, List.drop_zero, Nat.zero_add]
  split
  · split
    · omega
    · rfl
  · rfl

theorem numberLength_places {places tail : List Char} (digits : IsDigits places)
    (stops : ∀ letter ∈ tail.head?, letter.isDigit = false) :
    numberLength ('.' :: (places ++ tail)) = places.length + 1 := by
  rcases digits with ⟨nonempty, all⟩
  cases places with
  | nil => exact absurd rfl nonempty
  | cons digit rest =>
      have counted := countWhile_append
        (fun letter present => all letter (List.mem_cons_of_mem digit present)) stops
      have point : countWhile Char.isDigit ('.' :: digit :: (rest ++ tail)) = 0 := by
        simp [countWhile, show Char.isDigit '.' = false by decide]
      simp only [List.cons_append, numberLength, point, List.drop_zero, all digit (by simp),
        counted, if_true, List.length_cons]
      omega

theorem Delimits.isDigit {tail : List Char} (delimits : Delimits tail) :
    ∀ letter ∈ tail.head?, letter.isDigit = false := by
  intro letter present
  rw [Bool.eq_false_iff]
  intro digit
  have stops := (delimits letter present).1
  rw [continuesName_of_isDigit digit] at stops
  cases stops

theorem numberLength_delimiter {tail : List Char} (delimits : Delimits tail) :
    numberLength tail = 0 := by
  cases tail with
  | nil => rfl
  | cons letter rest =>
      have none : countWhile Char.isDigit (letter :: rest) = 0 := by
        simp [countWhile, delimits.isDigit letter rfl]
      simp only [numberLength, none, List.drop_zero]
      split
      · next same => exact absurd (List.cons.inj same).1 (delimits letter rfl).2
      · rfl

/-- The number that begins with a magnitude ends with it. -/
theorem IsMagnitude.numberLength {text tail : List Char} (magnitude : IsMagnitude text)
    (delimits : Delimits tail) : numberLength (text ++ tail) = text.length := by
  cases magnitude with
  | whole digits =>
      rw [numberLength_digits digits.2 delimits.isDigit, numberLength_delimiter delimits]
      omega
  | @fraction digits places whole fraction =>
      have point : ∀ letter ∈ ('.' :: (places ++ tail)).head?, letter.isDigit = false := by
        simp
      rw [List.append_assoc, List.cons_append, numberLength_digits whole.2 point,
        numberLength_places fraction delimits.isDigit]
      simp

theorem IsMagnitude.exists_digit {text : List Char} (magnitude : IsMagnitude text) :
    ∃ digit rest, text = digit :: rest ∧ digit.isDigit = true := by
  cases magnitude with
  | whole digits =>
      cases text with
      | nil => exact absurd rfl digits.1
      | cons digit rest => exact ⟨digit, rest, rfl, digits.2 digit (by simp)⟩
  | @fraction digits places whole _ =>
      cases digits with
      | nil => exact absurd rfl whole.1
      | cons digit rest => exact ⟨digit, _, rfl, whole.2 digit (by simp)⟩

theorem numberLength_cons {digit : Char} (isDigit : digit.isDigit = true) (text : List Char) :
    numberLength (digit :: text) = numberLength text + 1 := by
  have counted : countWhile Char.isDigit (digit :: text) = countWhile Char.isDigit text + 1 := by
    simp [countWhile, isDigit]
  simp only [numberLength, counted, List.drop_succ_cons]
  split
  · split <;> omega
  · rfl

theorem measure_number {first : Char} {rest tail : List Char}
    (numeral : IsNumeral (first :: rest)) (delimits : Delimits tail) :
    measure first (rest ++ tail) = (.number, rest.length) := by
  cases numeral with
  | positive magnitude =>
      obtain ⟨digit, others, same, isDigit⟩ := magnitude.exists_digit
      obtain ⟨rfl, rfl⟩ := List.cons.inj same
      have noComment : first ≠ '#' ∧ first ≠ '/' := by
        constructor <;> rintro rfl <;> exact absurd isDigit (by decide)
      have length := magnitude.numberLength delimits
      rw [List.cons_append, numberLength_cons isDigit, List.length_cons] at length
      simp [measure, noComment, startsName_of_isDigit isDigit, isDigit, Nat.succ.inj length]
  | negative magnitude =>
      obtain ⟨digit, others, rfl, isDigit⟩ := magnitude.exists_digit
      have noName : startsName '-' = false := by decide
      simp [measure, noName, isDigit, ← magnitude.numberLength delimits]

theorem stringLength_escape (quote : Char) {letter : Char} (ordinary : letter ≠ '\n')
    (rest : List Char) :
    stringLength quote ('\\' :: letter :: rest) = (stringLength quote rest).map id (· + 2) := by
  rw [stringLength]
  exact ordinary

theorem stringLength_letter (quote : Char) {letter : Char} (noFeed : letter ≠ '\n')
    (noEscape : letter ≠ '\\') (rest : List Char) :
    stringLength quote (letter :: rest) =
      if letter = quote then (.string, 1) else (stringLength quote rest).map id (· + 1) := by
  rw [stringLength]
  · exact noFeed
  · intro same _
    exact noEscape same
  · intro _ same _
    exact noEscape same
  · intro _ _ same _
    exact noEscape same

theorem IsQuote.ordinary {quote : Char} (isQuote : IsQuote quote) :
    quote ≠ '\n' ∧ quote ≠ '\\' := by
  rcases isQuote with rfl | rfl <;> decide

theorem IsQuote.narrow {quote : Char} (isQuote : IsQuote quote) : quote.utf8Size = 1 := by
  rcases isQuote with rfl | rfl <;> rfl

theorem IsStringBody.stringLength {quote : Char} (isQuote : IsQuote quote) {body : List Char}
    (closed : IsStringBody quote body) (tail : List Char) :
    stringLength quote (body ++ tail) = (.string, body.length) := by
  induction closed with
  | close =>
      rw [List.singleton_append, stringLength_letter quote isQuote.ordinary.1 isQuote.ordinary.2,
        if_pos rfl]
      rfl
  | escape ordinary _ inductionHypothesis =>
      rw [List.cons_append, List.cons_append, stringLength_escape quote ordinary,
        inductionHypothesis]
      rfl
  | letter noFeed noEscape noQuote _ inductionHypothesis =>
      rw [List.cons_append, stringLength_letter quote noFeed noEscape, if_neg noQuote,
        inductionHypothesis]
      rfl

theorem measure_string {quote : Char} {body : List Char} (isQuote : IsQuote quote)
    (closed : IsStringBody quote body) (tail : List Char) :
    measure quote (body ++ tail) = (.string, body.length) := by
  rcases isQuote with rfl | rfl
  · have noName : startsName '\x22' = false := by decide
    have length := closed.stringLength (.inl rfl) tail
    simp [measure, noName, length, show Char.isDigit '\x22' = false by decide]
  · have noName : startsName '\x27' = false := by decide
    have length := closed.stringLength (.inr rfl) tail
    simp [measure, noName, length, show Char.isDigit '\x27' = false by decide]

theorem measure_sign {kind : Kind} {letter : Char} (sign : punctuation? letter = some kind)
    (tail : List Char) : measure letter tail = (kind, 0) := by
  unfold punctuation? at sign
  split at sign <;> cases sign <;> rfl

/-- A spelled token is found where it stands, but a name or a number only if what follows delimits
it. -/
theorem measure_spelled {kind : Kind} {first : Char} {rest tail : List Char}
    (spelled : IsSpelled kind (first :: rest))
    (delimits : kind = .identifier ∨ kind = .number → Delimits tail) :
    isSpace first = false ∧ measure first (rest ++ tail) = (kind, rest.length) := by
  cases spelled with
  | identifier identifier =>
      exact ⟨isSpace_of_startsName identifier.1,
        measure_identifier identifier (delimits (.inl rfl))⟩
  | number numeral =>
      refine ⟨?_, measure_number numeral (delimits (.inr rfl))⟩
      cases numeral with
      | positive magnitude =>
          obtain ⟨digit, others, same, isDigit⟩ := magnitude.exists_digit
          obtain ⟨rfl, rfl⟩ := List.cons.inj same
          exact isSpace_of_isDigit isDigit
      | negative magnitude => decide
  | string isQuote closed =>
      refine ⟨?_, measure_string isQuote closed tail⟩
      rcases isQuote with rfl | rfl <;> decide
  | sign sign =>
      refine ⟨?_, measure_sign sign tail⟩
      unfold punctuation? at sign
      split at sign <;> cases sign <;> decide

/-! ### What the measured tokens look like -/

theorem take_countWhile (test : Char → Bool) (text : List Char) :
    text.take (countWhile test text) = text.takeWhile test :=
  (List.prefix_iff_eq_take.1 (List.takeWhile_prefix test)).symm

theorem isIdentifier_take {first : Char} (starts : startsName first = true) (rest : List Char) :
    IsIdentifier (first :: rest.take (countWhile continuesName rest)) := by
  refine ⟨starts, ?_⟩
  rw [take_countWhile]
  intro letter present
  exact List.mem_takeWhile_imp present

theorem isDigits_takeWhile {digit : Char} (isDigit : digit.isDigit = true) (rest : List Char) :
    IsDigits (digit :: rest.takeWhile Char.isDigit) := by
  refine ⟨List.cons_ne_nil _ _, ?_⟩
  intro letter present
  rcases List.mem_cons.1 present with rfl | present
  · exact isDigit
  · exact List.mem_takeWhile_imp present

/-- What a number goes on with after its leading digits is nothing or a point with places. -/
theorem take_numberLength {text : List Char}
    (stops : ∀ letter ∈ text.head?, letter.isDigit = false) :
    text.take (numberLength text) = [] ∨
      ∃ places, IsDigits places ∧ text.take (numberLength text) = '.' :: places := by
  have none : countWhile Char.isDigit text = 0 := by
    rw [← List.nil_append text]
    exact countWhile_append (by simp) stops
  simp only [numberLength, none, List.drop_zero]
  split
  · next digit places =>
      split
      · next isDigit =>
          refine .inr ⟨_, isDigits_takeWhile isDigit places, ?_⟩
          rw [← take_countWhile, show 0 + 2 + countWhile Char.isDigit places =
            countWhile Char.isDigit places + 1 + 1 by omega]
          rfl
      · exact .inl rfl
  · exact .inl rfl

theorem isMagnitude_take {digit : Char} (isDigit : digit.isDigit = true) (rest : List Char) :
    IsMagnitude ((digit :: rest).take (numberLength (digit :: rest))) := by
  have digits := isDigits_takeWhile isDigit rest
  have stops : ∀ letter ∈ (rest.dropWhile Char.isDigit).head?, letter.isDigit = false := by
    intro letter present
    have failed := List.head?_dropWhile_not Char.isDigit rest
    rw [Option.mem_def.1 present] at failed
    simpa using failed
  have divided : digit :: rest =
      (digit :: rest.takeWhile Char.isDigit) ++ rest.dropWhile Char.isDigit := by
    rw [List.cons_append, List.takeWhile_append_dropWhile]
  rw [divided, numberLength_digits digits.2 stops, List.take_length_add_append]
  rcases take_numberLength stops with nothing | ⟨places, isPlaces, point⟩
  · rw [nothing, List.append_nil]
    exact .whole digits
  · rw [point]
    exact .fraction digits isPlaces

theorem isNumeral_take {first : Char} {rest : List Char}
    (begins : (first.isDigit || (first = '-' && rest.head?.any Char.isDigit)) = true) :
    IsNumeral (first :: rest.take (numberLength rest)) := by
  by_cases isDigit : first.isDigit = true
  · have magnitude := isMagnitude_take isDigit rest
    rw [numberLength_cons isDigit] at magnitude
    exact .positive magnitude
  · cases rest with
    | nil => simp [isDigit] at begins
    | cons digit others =>
        obtain ⟨rfl, next⟩ : first = '-' ∧ digit.isDigit = true := by
          simpa [isDigit] using begins
        exact .negative (isMagnitude_take next others)

/-- A letter that neither ends a text as a backslash nor escapes another is no backslash. -/
theorem ne_backslash {letter : Char} {rest : List Char} (single : letter = '\\' → rest = [] → False)
    (escape : ∀ head tail, letter = '\\' → rest = head :: tail → False) : letter ≠ '\\' := by
  intro same
  cases rest with
  | nil => exact single same rfl
  | cons head tail => exact escape head tail same rfl

theorem isStringBody_take {quote : Char} {text : List Char} {count : Nat}
    (closed : stringLength quote text = (.string, count)) :
    IsStringBody quote (text.take count) := by
  induction text using stringLength.induct quote generalizing count with
  | case1 => cases closed
  | case2 => cases closed
  | case3 => cases closed
  | case4 => cases closed
  | case5 letter rest ordinary inductionHypothesis =>
      rw [stringLength_escape quote ordinary] at closed
      rcases measured : stringLength quote rest with ⟨kind, others⟩
      rw [measured] at closed
      obtain ⟨rfl, rfl⟩ := Prod.mk.inj closed
      exact .escape ordinary (inductionHypothesis measured)
  | case6 rest noFeed single _ escape =>
      have noEscape := ne_backslash single escape
      rw [stringLength_letter quote noFeed noEscape, if_pos rfl] at closed
      obtain ⟨-, rfl⟩ := Prod.mk.inj closed
      exact .close
  | case7 letter rest noFeed single _ escape noQuote inductionHypothesis =>
      have noEscape := ne_backslash single escape
      rw [stringLength_letter quote noFeed noEscape, if_neg noQuote] at closed
      rcases measured : stringLength quote rest with ⟨kind, others⟩
      rw [measured] at closed
      obtain ⟨rfl, rfl⟩ := Prod.mk.inj closed
      exact .letter noFeed noEscape noQuote (inductionHypothesis measured)

theorem stringLength_kind (quote : Char) (text : List Char) :
    (stringLength quote text).1 = .string ∨ (stringLength quote text).1 = .unterminatedString := by
  induction text using stringLength.induct quote with
  | case1 | case2 | case3 | case4 => exact .inr rfl
  | case5 letter rest ordinary inductionHypothesis =>
      rw [stringLength_escape quote ordinary]
      exact inductionHypothesis
  | case6 rest noFeed single _ escape =>
      rw [stringLength_letter quote noFeed (ne_backslash single escape), if_pos rfl]
      exact .inl rfl
  | case7 letter rest noFeed single _ escape noQuote inductionHypothesis =>
      rw [stringLength_letter quote noFeed (ne_backslash single escape), if_neg noQuote]
      exact inductionHypothesis

/-- A kind is solid if tokens of it can be part of a document. -/
def Kind.IsSolid (kind : Kind) : Prop :=
  kind ≠ .comment ∧ kind ≠ .newline ∧ kind ≠ .unterminatedString ∧ kind ≠ .invalid ∧ kind ≠ .ending

/-- The tokens of a solid kind are spelled as that kind is. -/
theorem isSpelled_of_measure {kind : Kind} {first : Char} {rest : List Char} {count : Nat}
    (measured : measure first rest = (kind, count)) (solid : kind.IsSolid) :
    IsSpelled kind (first :: rest.take count) := by
  unfold measure at measured
  split at measured
  · obtain ⟨rfl, -⟩ := Prod.mk.inj measured
    exact absurd rfl solid.1
  split at measured
  · next starts =>
      obtain ⟨rfl, rfl⟩ := Prod.mk.inj measured
      exact .identifier (isIdentifier_take starts rest)
  split at measured
  · next begins =>
      obtain ⟨rfl, rfl⟩ := Prod.mk.inj measured
      exact .number (isNumeral_take begins)
  split at measured
  · next isQuote =>
      have quoted : IsQuote first := by simpa [IsQuote] using isQuote
      rcases stringLength_kind first rest with closed | isOpen
      · rw [measured] at closed
        obtain rfl : kind = .string := closed
        exact .string quoted (isStringBody_take measured)
      · rw [measured] at isOpen
        exact absurd isOpen solid.2.2.1
  · obtain ⟨same, rfl⟩ := Prod.mk.inj measured
    cases sign : punctuation? first with
    | none =>
        rw [sign] at same
        exact absurd same.symm solid.2.2.2.1
    | some found =>
        rw [sign] at same
        obtain rfl : found = kind := same
        exact .sign sign

end StorageSchema.Token
