/-
This file says how much a token depends on the text after it. Before texts that look alike there
stands the same token.
-/
import StorageSchema.Proofs.Token.Scan

namespace StorageSchema.Token

/-- Texts begin alike if their first characters are the same, or if both can begin a name. -/
inductive BeginAlike : List Char → List Char → Prop where
  | nil : BeginAlike [] []
  | same {letter : Char} {rest others : List Char} :
      BeginAlike (letter :: rest) (letter :: others)
  | names {letter other : Char} {rest others : List Char} : startsName letter = true →
      startsName other = true → BeginAlike (letter :: rest) (other :: others)

/-- Texts look alike to what stands before them if they begin alike, and after a point too. -/
structure LookAlike (first second : List Char) : Prop where
  begins : BeginAlike first second
  points : ∀ rest, first = '.' :: rest → ∃ others, second = '.' :: others ∧ BeginAlike rest others

/-- Texts that begin with the same character begin alike. -/
theorem BeginAlike.append_left {first second : List Char} (alike : BeginAlike first second)
    (before : List Char) : BeginAlike (before ++ first) (before ++ second) := by
  cases before with
  | nil => exact alike
  | cons letter rest => exact .same

/-- A test that gives one answer for the beginnings of names does not tell such texts apart. -/
theorem BeginAlike.any_eq {first second : List Char} (alike : BeginAlike first second)
    {test : Char → Bool} {answer : Bool}
    (names : ∀ letter, startsName letter = true → test letter = answer) :
    first.head?.any test = second.head?.any test := by
  cases alike with
  | nil => rfl
  | same => rfl
  | names starts otherStarts =>
      change test _ = test _
      rw [names _ starts, names _ otherStarts]

theorem ne_of_startsName {letter other : Char} (starts : startsName letter = true)
    (noName : startsName other = false) : letter ≠ other := by
  rintro rfl
  rw [noName] at starts
  cases starts

theorem BeginAlike.head?_eq_iff {first second : List Char} (alike : BeginAlike first second)
    {letter : Char} (noName : startsName letter = false) :
    first.head? = some letter ↔ second.head? = some letter := by
  cases alike with
  | nil | same => rfl
  | names starts otherStarts =>
      simp [ne_of_startsName starts noName, ne_of_startsName otherStarts noName]

theorem isDigit_of_startsName {letter : Char} (starts : startsName letter = true) :
    letter.isDigit = false := by
  rw [Bool.eq_false_iff]
  intro digit
  rw [startsName_of_isDigit digit] at starts
  cases starts

theorem continuesName_of_startsName {letter : Char} (starts : startsName letter = true) :
    continuesName letter = true := by
  simp only [startsName, continuesName, Char.isAlphanum, Bool.or_eq_true] at starts ⊢
  exact starts.imp_left Or.inl

theorem continuesLine_of_startsName {letter : Char} (starts : startsName letter = true) :
    continuesLine letter = true := by
  simpa [continuesLine] using ne_of_startsName starts (by decide)

theorem any_head?_eq_false_iff {text : List Char} {test : Char → Bool} :
    text.head?.any test = false ↔ ∀ letter ∈ text.head?, test letter = false := by
  cases text <;> simp

/-- All that is counted is the text in front if it passes and what comes after it does not. -/
theorem countWhile_eq_length_iff {test : Char → Bool} {text tail : List Char} :
    countWhile test (text ++ tail) = text.length ↔
      (∀ letter ∈ text, test letter = true) ∧ tail.head?.any test = false := by
  constructor
  · intro counted
    have taken := take_countWhile test (text ++ tail)
    rw [counted, List.take_left] at taken
    have all : ∀ letter ∈ text, test letter = true := by
      intro letter present
      rw [taken] at present
      exact List.mem_takeWhile_imp present
    refine ⟨all, ?_⟩
    rw [countWhile, List.takeWhile_append_of_pos all, List.length_append] at counted
    have none : tail.takeWhile test = [] := List.length_eq_zero_iff.1 (by omega)
    cases tail with
    | nil => rfl
    | cons letter rest =>
        by_contra passes
        simp only [List.head?_cons, Option.any_some, Bool.not_eq_false] at passes
        simp [passes] at none
  · rintro ⟨all, stops⟩
    exact countWhile_append all (any_head?_eq_false_iff.1 stops)

theorem countWhile_alike {test : Char → Bool} {answer : Bool} {text tail other : List Char}
    (names : ∀ letter, startsName letter = true → test letter = answer)
    (counted : countWhile test (text ++ tail) = text.length) (alike : BeginAlike tail other) :
    countWhile test (text ++ other) = text.length := by
  rw [countWhile_eq_length_iff] at counted ⊢
  rwa [← alike.any_eq names]

/-- A number goes on after a point only if a digit follows the point. -/
theorem numberLength_point (text : List Char) :
    numberLength ('.' :: text) =
      if text.head?.any Char.isDigit then 2 + countWhile Char.isDigit text.tail else 0 := by
  have none : countWhile Char.isDigit ('.' :: text) = 0 := by
    simp [countWhile, show Char.isDigit '.' = false by decide]
  simp only [numberLength, none, List.drop_zero, Nat.zero_add]
  cases text with
  | nil => rfl
  | cons digit places => rfl

theorem numberLength_other {letter : Char} (noDigit : letter.isDigit = false)
    (noPoint : letter ≠ '.') (text : List Char) : numberLength (letter :: text) = 0 := by
  have none : countWhile Char.isDigit (letter :: text) = 0 := by
    simp [countWhile, noDigit]
  simp only [numberLength, none, List.drop_zero]
  split
  · next same => exact absurd (List.cons.inj same).1 noPoint
  · rfl

theorem numberLength_alike_nil {tail other : List Char} (nothing : numberLength tail = 0)
    (alike : LookAlike tail other) : numberLength other = 0 := by
  obtain ⟨begins, points⟩ := alike
  cases begins with
  | nil => rfl
  | names _ starts =>
      exact numberLength_other (isDigit_of_startsName starts)
        (ne_of_startsName starts (by decide)) _
  | @same letter rest others =>
      by_cases isPoint : letter = '.'
      · subst isPoint
        obtain ⟨_, same, begins⟩ := points rest rfl
        obtain rfl := (List.cons.inj same).2
        have digit := begins.any_eq fun _ => isDigit_of_startsName
        rw [numberLength_point] at nothing ⊢
        split at nothing
        · cases Nat.add_eq_zero_iff.1 nothing |>.1
        · next noDigit => rw [← digit, if_neg noDigit]
      · by_cases isDigit : letter.isDigit = true
        · rw [numberLength_cons isDigit] at nothing
          cases nothing
        · exact numberLength_other (Bool.not_eq_true _ ▸ isDigit) isPoint others

/-- The digits after a point are counted one by one. -/
theorem numberLength_alike_point {text tail other : List Char}
    (counted : numberLength ('.' :: (text ++ tail)) = text.length + 1)
    (alike : LookAlike tail other) :
    numberLength ('.' :: (text ++ other)) = text.length + 1 := by
  rw [numberLength_point] at counted ⊢
  split at counted
  · next digit =>
      cases text with
      | nil =>
          rw [List.length_nil] at counted
          omega
      | cons place places =>
          rw [List.cons_append] at digit
          simp only [List.cons_append, List.tail_cons, List.length_cons] at counted
          have inPlaces : countWhile Char.isDigit (places ++ tail) = places.length := by omega
          have same := countWhile_alike (fun _ => isDigit_of_startsName) inPlaces alike.begins
          rw [List.head?_cons] at digit
          rw [List.cons_append, List.head?_cons, if_pos digit, List.tail_cons, same]
          simp only [List.length_cons]
          omega
  · cases counted

theorem numberLength_alike {text tail other : List Char}
    (counted : numberLength (text ++ tail) = text.length) (alike : LookAlike tail other) :
    numberLength (text ++ other) = text.length := by
  induction text with
  | nil => exact numberLength_alike_nil counted alike
  | cons letter rest inductionHypothesis =>
      rw [List.cons_append] at counted ⊢
      by_cases isDigit : letter.isDigit = true
      · rw [numberLength_cons isDigit] at counted ⊢
        rw [inductionHypothesis (Nat.succ.inj counted), List.length_cons]
      · by_cases isPoint : letter = '.'
        · subst isPoint
          exact numberLength_alike_point counted alike
        · rw [numberLength_other (Bool.not_eq_true _ ▸ isDigit) isPoint] at counted
          cases counted

theorem stringLength_pos (quote : Char) {letter : Char} (noFeed : letter ≠ '\n')
    (text : List Char) : 0 < (stringLength quote (letter :: text)).2 := by
  by_cases isEscape : letter = '\\'
  · subst isEscape
    cases text with
    | nil => exact Nat.one_pos
    | cons next rest =>
        by_cases isFeed : next = '\n'
        · subst isFeed
          exact Nat.one_pos
        · rw [stringLength_escape quote isFeed]
          exact Nat.succ_pos _
  · rw [stringLength_letter quote noFeed isEscape]
    split
    · exact Nat.one_pos
    · exact Nat.succ_pos _

theorem map_add_eq_iff {pair : Kind × Nat} {kind : Kind} {count more : Nat} :
    pair.map id (· + more) = (kind, count + more) ↔ pair = (kind, count) := by
  rcases pair with ⟨_, _⟩
  simp

/-- Where nothing is taken a line ends, and it ends in a text that begins alike too. -/
theorem stringLength_alike_nil {quote : Char} {kind : Kind} {tail other : List Char}
    (measured : stringLength quote tail = (kind, 0)) (alike : BeginAlike tail other) :
    stringLength quote other = (kind, 0) := by
  have feed {letter : Char} {rest : List Char}
      (nothing : stringLength quote (letter :: rest) = (kind, 0)) : letter = '\n' := by
    by_contra noFeed
    have positive := stringLength_pos quote noFeed rest
    rw [nothing] at positive
    exact Nat.lt_irrefl 0 positive
  cases alike with
  | nil => exact measured
  | same =>
      obtain rfl := feed measured
      exact measured
  | names starts _ => exact absurd (feed measured) (ne_of_startsName starts (by decide))

/-- After a last backslash only the end of a line ends an open string. -/
theorem stringLength_alike_escape {quote : Char} {kind : Kind} {tail other : List Char}
    (measured : stringLength quote ('\\' :: tail) = (kind, 1)) (alike : BeginAlike tail other) :
    stringLength quote ('\\' :: other) = (kind, 1) := by
  have feed {letter : Char} {rest : List Char}
      (single : stringLength quote ('\\' :: letter :: rest) = (kind, 1)) : letter = '\n' := by
    by_contra noFeed
    rw [stringLength_escape quote noFeed] at single
    have two : (stringLength quote rest).2 + 2 = 1 := congrArg Prod.snd single
    omega
  cases alike with
  | nil => exact measured
  | same =>
      obtain rfl := feed measured
      exact measured
  | names starts _ => exact absurd (feed measured) (ne_of_startsName starts (by decide))

theorem stringLength_alike {quote : Char} {kind : Kind} {text tail other : List Char}
    (measured : stringLength quote (text ++ tail) = (kind, text.length))
    (alike : BeginAlike tail other) :
    stringLength quote (text ++ other) = (kind, text.length) := by
  induction text using stringLength.induct quote with
  | case1 => exact stringLength_alike_nil measured alike
  | case2 rest => cases measured
  | case3 => exact stringLength_alike_escape measured alike
  | case4 rest => cases measured
  | case5 letter rest ordinary inductionHypothesis =>
      rw [List.cons_append, List.cons_append, stringLength_escape quote ordinary] at measured ⊢
      exact map_add_eq_iff.2 (inductionHypothesis (map_add_eq_iff.1 measured))
  | case6 rest noFeed single _ escape =>
      have noEscape := ne_backslash single escape
      rw [List.cons_append, stringLength_letter quote noFeed noEscape, if_pos rfl] at measured ⊢
      exact measured
  | case7 letter rest noFeed single _ escape noQuote inductionHypothesis =>
      have noEscape := ne_backslash single escape
      rw [List.cons_append, stringLength_letter quote noFeed noEscape, if_neg noQuote]
        at measured ⊢
      exact map_add_eq_iff.2 (inductionHypothesis (map_add_eq_iff.1 measured))

/-- A token stays the same if what follows it is exchanged for a text that looks alike. -/
theorem measure_alike {kind : Kind} {first : Char} {text tail other : List Char}
    (measured : measure first (text ++ tail) = (kind, text.length))
    (alike : LookAlike tail other) :
    measure first (text ++ other) = (kind, text.length) := by
  have begins := alike.begins.append_left text
  have digit := begins.any_eq fun _ => isDigit_of_startsName
  have slash := begins.head?_eq_iff (by decide : startsName '/' = false)
  unfold measure at measured ⊢
  simp only [← slash, ← digit]
  split at measured
  · next isComment =>
      obtain ⟨rfl, counted⟩ := Prod.mk.inj measured
      rw [if_pos isComment,
        countWhile_alike (fun _ => continuesLine_of_startsName) counted alike.begins]
  next noComment =>
  rw [if_neg noComment]
  split at measured
  · next isName =>
      obtain ⟨rfl, counted⟩ := Prod.mk.inj measured
      rw [if_pos isName,
        countWhile_alike (fun _ => continuesName_of_startsName) counted alike.begins]
  next noName =>
  rw [if_neg noName]
  split at measured
  · next isNumber =>
      obtain ⟨rfl, counted⟩ := Prod.mk.inj measured
      rw [if_pos isNumber, numberLength_alike counted alike]
  next noNumber =>
  rw [if_neg noNumber]
  split at measured
  · next isString =>
      rw [if_pos isString, stringLength_alike measured alike.begins]
  · next noString =>
      rw [if_neg noString]
      exact measured

end StorageSchema.Token
