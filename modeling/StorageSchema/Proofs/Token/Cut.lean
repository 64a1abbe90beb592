/-
This file shows that the tokens which are cut out of a text byte by byte are those that its
characters are divided into.
-/
import StorageSchema.Proofs.Text.Access
import StorageSchema.Proofs.Token.Lookahead
import StorageSchema.Token.Cut

namespace StorageSchema

/-! ### Runs of bytes -/

namespace Text

theorem skipWhile_of_some {test : Char → Bool} {text : String} {offset : Nat} {byte : Char}
    (found : byteAt? text offset = some byte) :
    skipWhile test text offset =
      if test byte then skipWhile test text (offset + 1) else offset := by
  rw [skipWhile]
  split
  · next other present =>
      obtain rfl := Option.some.inj (present.symm.trans found)
      rfl
  · next none => simp [found] at none

theorem skipWhile_of_none {test : Char → Bool} {text : String} {offset : Nat}
    (ended : byteAt? text offset = none) : skipWhile test text offset = offset := by
  rw [skipWhile]
  split
  · next present => simp [ended] at present
  · rfl

/-- As many bytes are skipped as pass the test in a row. -/
theorem skipWhile_bytes (test : Char → Bool) {text : String} {bytes : List Char} {offset : Nat}
    (stand : ∀ place, byteAt? text (offset + place) = bytes[place]?) :
    skipWhile test text offset = offset + (bytes.takeWhile test).length := by
  induction bytes generalizing offset with
  | nil => exact skipWhile_of_none (stand 0)
  | cons byte rest inductionHypothesis =>
      have found : byteAt? text offset = some byte := stand 0
      rw [skipWhile_of_some found]
      split
      · next passes =>
          have next (place : Nat) : byteAt? text (offset + 1 + place) = rest[place]? := by
            rw [Nat.add_assoc, Nat.add_comm 1]
            exact stand (place + 1)
          rw [inductionHypothesis next, List.takeWhile_cons_of_pos passes, List.length_cons]
          omega
      · next fails => rw [List.takeWhile_cons_of_neg fails, List.length_nil, Nat.add_zero]

/-- From a boundary on, the characters that pass a uniform test are skipped. -/
theorem skipWhile_boundary {test : Char → Bool} (uniform : IsUniform test) {text : String}
    {before after : List Char} (divided : text.toList = before ++ after) :
    skipWhile test text (size before) = size before + size (after.takeWhile test) := by
  rw [skipWhile_bytes test (byteAt?_append divided), takeWhile_spread uniform, length_spread]

/-- A uniform test says of the byte at a boundary what it says of the character there. -/
theorem byteAt?_any {test : Char → Bool} (uniform : IsUniform test) {text : String}
    {before after : List Char} (divided : text.toList = before ++ after) :
    (byteAt? text (size before)).any test = after.head?.any test := by
  rw [byteAt?_boundary divided, head?_spread_any uniform]

/-- A character of ASCII is its own byte. -/
theorem byteAt?_ascii {letter : Char} (ascii : letter.toNat < 128) {text : String}
    {before rest : List Char} (divided : text.toList = before ++ letter :: rest) :
    byteAt? text (size before) = some letter := by
  rw [byteAt?_boundary divided, spread_cons, spreadOf_of_ascii ascii]
  rfl

/-! ### Characters beyond ASCII -/

theorem ne_of_wide {letter other : Char} (wide : 128 ≤ letter.toNat) (ascii : other.toNat < 128) :
    letter ≠ other := by
  rintro rfl
  omega

/-- What is beyond ASCII stands above every range of its letters and digits. -/
theorem not_le_of_wide {letter other : Char} (wide : 128 ≤ letter.toNat)
    (ascii : other.toNat < 128) : ¬ letter.val ≤ other.val := by
  intro below
  have atMost : letter.toNat ≤ other.toNat := UInt32.le_iff_toNat_le.1 below
  omega

theorem isDigit_of_wide {letter : Char} (wide : 128 ≤ letter.toNat) : letter.isDigit = false := by
  rw [Bool.eq_false_iff]
  intro digit
  have below : letter.val ≤ '9'.val := of_decide_eq_true (Bool.and_eq_true_iff.1 digit).2
  exact not_le_of_wide wide (by decide) below

theorem isAlpha_of_wide {letter : Char} (wide : 128 ≤ letter.toNat) : letter.isAlpha = false := by
  rw [Bool.eq_false_iff]
  intro alpha
  rcases Bool.or_eq_true_iff.1 alpha with upper | lower
  · have below : letter.val ≤ 'Z'.val := (of_decide_eq_true upper).2
    exact not_le_of_wide wide (by decide) below
  · have below : letter.val ≤ 'z'.val := of_decide_eq_true (Bool.and_eq_true_iff.1 lower).2
    exact not_le_of_wide wide (by decide) below

theorem startsName_of_wide {letter : Char} (wide : 128 ≤ letter.toNat) :
    Token.startsName letter = false := by
  have noLine : letter ≠ '_' := ne_of_wide wide (by decide)
  simp [Token.startsName, isAlpha_of_wide wide, noLine]

theorem isUniform_eq {letter : Char} (ascii : letter.toNat < 128) :
    IsUniform fun other => decide (other = letter) :=
  ⟨false, fun _ wide => decide_eq_false (ne_of_wide wide ascii)⟩

theorem isUniform_isDigit : IsUniform Char.isDigit := ⟨false, fun _ wide => isDigit_of_wide wide⟩

theorem isUniform_continuesName : IsUniform Token.continuesName := by
  refine ⟨false, fun letter wide => ?_⟩
  have noLine : letter ≠ '_' := ne_of_wide wide (by decide)
  simp [Token.continuesName, Char.isAlphanum, isAlpha_of_wide wide, isDigit_of_wide wide, noLine]

theorem isUniform_continuesLine : IsUniform Token.continuesLine :=
  ⟨true, fun _ wide => bne_iff_ne.2 (ne_of_wide wide (by decide))⟩

theorem isUniform_isSpace : IsUniform Token.isSpace := by
  refine ⟨false, fun letter wide => ?_⟩
  have apart {other : Char} (ascii : other.toNat < 128) : letter ≠ other := ne_of_wide wide ascii
  simp [Token.isSpace, apart]

end Text

namespace Token

open Text (byteAt? skipWhile size)

/-! ### Where tokens stop -/

/-- A point goes on with a number if a digit follows it. -/
theorem numberLength_of_drop {text tail : List Char}
    (rest : text.drop (countWhile Char.isDigit text) = '.' :: tail) :
    numberLength text = countWhile Char.isDigit text +
      if tail.head?.any Char.isDigit then countWhile Char.isDigit tail + 1 else 0 := by
  rw [numberLength, rest]
  cases tail with
  | nil => simp
  | cons digit places =>
      by_cases isDigit : digit.isDigit = true
      · simp [isDigit, countWhile]
        omega
      · simp [isDigit]

theorem numberLength_of_no_point {text : List Char}
    (rest : (text.drop (countWhile Char.isDigit text)).head?.any (· = '.') = false) :
    numberLength text = countWhile Char.isDigit text := by
  rw [numberLength]
  split
  · next shape => simp [shape] at rest
  · rfl

/-- A number stops after its length. -/
theorem numberStop_boundary {text : String} {before after : List Char}
    (divided : text.toList = before ++ after) :
    numberStop text (size before) = size before + size (after.take (numberLength after)) := by
  have whole := Text.skipWhile_boundary Text.isUniform_isDigit divided
  rw [← take_countWhile, ← Text.size_append] at whole
  have inner : text.toList = (before ++ after.take (countWhile Char.isDigit after)) ++
      after.drop (countWhile Char.isDigit after) := by
    rw [List.append_assoc, List.take_append_drop, divided]
  have point := Text.byteAt?_any (Text.isUniform_eq (show '.'.toNat < 128 by decide)) inner
  simp only [numberStop, whole, point]
  cases dotted : (after.drop (countWhile Char.isDigit after)).head?.any (· = '.') with
  | false => simp [numberLength_of_no_point dotted]
  | true =>
      obtain ⟨tail, rest⟩ : ∃ tail, after.drop (countWhile Char.isDigit after) = '.' :: tail := by
        cases rest : after.drop (countWhile Char.isDigit after) with
        | nil => simp [rest] at dotted
        | cons letter tail => exact ⟨tail, by simpa [rest] using dotted⟩
      -- The text is divided once more behind the point.
      have places : text.toList =
          (before ++ after.take (countWhile Char.isDigit after) ++ ['.']) ++ tail := by
        rw [inner, rest, List.append_cons]
      have digit := Text.byteAt?_any Text.isUniform_isDigit places
      have stop := Text.skipWhile_boundary Text.isUniform_isDigit places
      have behind : size (before ++ after.take (countWhile Char.isDigit after) ++ ['.']) =
          size (before ++ after.take (countWhile Char.isDigit after)) + 1 := Text.size_append _ _
      rw [behind] at digit stop
      rw [numberLength_of_drop rest, digit, stop, Bool.true_and]
      split
      · rw [List.take_add, rest, List.take_succ_cons, take_countWhile Char.isDigit tail]
        simp only [Text.size_append, Text.size_cons]
        have narrow : '.'.utf8Size = 1 := rfl
        omega
      · rw [Nat.add_zero, Text.size_append]

theorem stringStop?_of_some {quote byte : Char} {text : String} {offset : Nat}
    (found : byteAt? text offset = some byte) :
    stringStop? quote text offset =
      if byte = '\n' then some (.unterminatedString, offset)
      else if byte = '\\' then
        (escapedWidth? text (offset + 1)).bind fun width =>
          stringStop? quote text (offset + 1 + width)
      else if byte = quote then some (.string, offset + 1)
      else stringStop? quote text (offset + 1) := by
  rw [stringStop?]
  split
  · next none => simp [found] at none
  · next other present =>
      obtain rfl := Option.some.inj (present.symm.trans found)
      rfl

theorem stringStop?_of_none {quote : Char} {text : String} {offset : Nat}
    (ended : byteAt? text offset = none) :
    stringStop? quote text offset = some (.unterminatedString, offset) := by
  rw [stringStop?]
  split
  · rfl
  · next present => simp [ended] at present

theorem IsQuote.ascii {quote : Char} (isQuote : IsQuote quote) : quote.toNat < 128 := by
  rcases isQuote with rfl | rfl <;> decide

/-- The bytes of a character that ends no string and escapes nothing are passed one by one. -/
theorem stringStop?_plain {quote letter : Char} {text : String} {before rest : List Char}
    (isQuote : IsQuote quote) (divided : text.toList = before ++ letter :: rest)
    (noFeed : letter ≠ '\n') (noSlash : letter ≠ '\\') (noQuote : letter ≠ quote) :
    stringStop? quote text (size before) =
      stringStop? quote text (size before + letter.utf8Size) := by
  have passes (count : Nat) (within : count ≤ letter.utf8Size) :
      stringStop? quote text (size before) = stringStop? quote text (size before + count) := by
    induction count with
    | zero => rfl
    | succ count inductionHypothesis =>
        have inside : count < (Text.spreadOf letter).length := by
          rw [Text.length_spreadOf]
          exact within
        have found : byteAt? text (size before + count) = some (Text.spreadOf letter)[count] := by
          rw [Text.byteAt?_append divided, Text.spread_cons, List.getElem?_append_left inside,
            List.getElem?_eq_getElem inside]
        have apart {other : Char} (ascii : other.toNat < 128) (differs : letter ≠ other) :
            (Text.spreadOf letter)[count] ≠ other := by
          have same := Text.test_of_mem_spreadOf (Text.isUniform_eq ascii)
            (List.getElem_mem inside)
          simpa [differs] using same
        rw [inductionHypothesis (Nat.le_of_succ_le within), stringStop?_of_some found,
          if_neg (apart (by decide) noFeed), if_neg (apart (by decide) noSlash),
          if_neg (apart isQuote.ascii noQuote), Nat.add_assoc]
  exact passes _ (Nat.le_refl _)

/-- After a backslash the next character is skipped, but a line feed is not. -/
theorem escapedWidth?_boundary {text : String} {before after : List Char}
    (divided : text.toList = before ++ after) :
    escapedWidth? text (size before) =
      some (size (after.take (if after.head?.any (· != '\n') then 1 else 0))) := by
  have uniform : Text.IsUniform (· != '\n') := Text.isUniform_continuesLine
  rw [escapedWidth?, Text.byteAt?_any uniform divided]
  split
  · cases after with
    | nil => contradiction
    | cons letter rest =>
        rw [Text.widthAt?_boundary divided]
        rfl
  · rfl

/-- A backslash is stepped over together with what it escapes. -/
theorem stringStop?_escape {quote : Char} {text : String} {before rest : List Char}
    (divided : text.toList = before ++ '\\' :: rest) :
    stringStop? quote text (size before) = stringStop? quote text (size (before ++ '\\' ::
      rest.take (if rest.head?.any (· != '\n') then 1 else 0))) := by
  have behind : text.toList = (before ++ ['\\']) ++ rest := by rw [divided, List.append_cons]
  have width := escapedWidth?_boundary behind
  have next : size (before ++ ['\\']) = size before + 1 := Text.size_append _ _
  rw [next] at width
  rw [stringStop?_of_some (Text.byteAt?_ascii (by decide) divided), if_neg (by decide),
    if_pos rfl, width, Option.bind_some, List.append_cons, Text.size_append, next]

/-- No character is a backslash if whatever follows it is excluded. -/
theorem ne_backslash_of {letter : Char} {rest : List Char}
    (noEnd : letter = '\\' → rest = [] → False)
    (noEscape : ∀ head tail, letter = '\\' → rest = head :: tail → False) : letter ≠ '\\' := by
  intro isSlash
  cases rest with
  | nil => exact noEnd isSlash rfl
  | cons head tail => exact noEscape head tail isSlash rfl

/-- A string stops after its length. -/
theorem stringStop?_boundary {quote : Char} (isQuote : IsQuote quote) {text : String}
    {before after : List Char} (divided : text.toList = before ++ after) :
    stringStop? quote text (size before) =
      some ((stringLength quote after).1,
        size before + size (after.take (stringLength quote after).2)) := by
  induction after using stringLength.induct quote generalizing before with
  | case1 =>
      have ended : byteAt? text (size before) = none := by
        rw [Text.byteAt?_boundary divided]
        rfl
      rw [stringStop?_of_none ended]
      rfl
  | case2 rest =>
      rw [stringStop?_of_some (Text.byteAt?_ascii (by decide) divided), if_pos rfl]
      rfl
  | case3 =>
      have ended : byteAt? text (size (before ++ ['\\'])) = none := by
        rw [← List.append_nil (before ++ ['\\'])] at divided
        rw [Text.byteAt?_boundary divided]
        rfl
      rw [stringStop?_escape divided]
      change stringStop? quote text (size (before ++ ['\\'])) = _
      rw [stringStop?_of_none ended, Text.size_append]
      rfl
  | case4 rest =>
      have behind : text.toList = (before ++ ['\\']) ++ '\n' :: rest := by
        rw [divided, List.append_cons]
      rw [stringStop?_escape divided]
      change stringStop? quote text (size (before ++ ['\\'])) = _
      rw [stringStop?_of_some (Text.byteAt?_ascii (by decide) behind), if_pos rfl,
        Text.size_append]
      rfl
  | case5 letter rest noFeed inductionHypothesis =>
      have behind : text.toList = (before ++ ['\\', letter]) ++ rest := by
        rw [divided, List.append_assoc]
        rfl
      have plain : ((letter :: rest).head?.any (· != '\n')) = true := by
        simpa using noFeed
      rw [stringStop?_escape divided, if_pos plain]
      change stringStop? quote text (size (before ++ ['\\', letter])) = _
      rw [inductionHypothesis behind, stringLength_escape quote noFeed, Text.size_append]
      simp only [Prod.map_fst, Prod.map_snd, id, List.take_succ_cons, Text.size_cons,
        Text.size_nil, Nat.add_assoc, Nat.zero_add]
  | case6 rest noFeed noEnd _ noEscape =>
      rw [stringStop?_of_some (Text.byteAt?_ascii isQuote.ascii divided),
        if_neg isQuote.ordinary.1, if_neg isQuote.ordinary.2, if_pos rfl,
        stringLength_letter quote isQuote.ordinary.1 isQuote.ordinary.2, if_pos rfl]
      change _ = some (Kind.string, size before + (quote.utf8Size + 0))
      rw [isQuote.narrow]
  | case7 letter rest noFeed noEnd _ noEscape noQuote inductionHypothesis =>
      have noSlash := ne_backslash_of noEnd noEscape
      have behind : text.toList = (before ++ [letter]) ++ rest := by
        rw [divided, List.append_cons]
      have single : size (before ++ [letter]) = size before + letter.utf8Size := by simp
      rw [stringStop?_plain isQuote divided noFeed noSlash noQuote, ← single,
        inductionHypothesis behind, stringLength_letter quote noFeed noSlash, if_neg noQuote,
        single]
      simp only [Prod.map_fst, Prod.map_snd, id, List.take_succ_cons, Text.size_cons,
        Nat.add_assoc]

/-- A token of several bytes stops where the run does that its first byte begins. -/
theorem skipWhile_first {test : Char → Bool} (uniform : Text.IsUniform test) {text : String}
    {first : Char} {before rest : List Char} (divided : text.toList = before ++ first :: rest)
    (passes : test first = true) :
    skipWhile test text (size before) =
      size before + size (first :: rest.take (countWhile test rest)) := by
  rw [Text.skipWhile_boundary uniform divided, List.takeWhile_cons_of_pos passes,
    take_countWhile]

theorem measure_of_marker {first : Char} {rest : List Char}
    (begins : (first = '#' || (first = '/' && rest.head?.any (· = '/'))) = true) :
    measure first rest = (.comment, countWhile continuesLine rest) := by
  have same : (rest.head? = some '/') = (rest.head?.any (· = '/') = true) := by
    cases rest <;> simp
  rw [measure]
  simp only [same, Bool.decide_eq_true]
  rw [if_pos begins]

theorem measure_of_no_marker {first : Char} {rest : List Char}
    (noComment : ¬ (first = '#' || (first = '/' && rest.head?.any (· = '/'))) = true) :
    measure first rest =
      if startsName first then (.identifier, countWhile continuesName rest)
      else if first.isDigit || (first = '-' && rest.head?.any Char.isDigit) then
        (.number, numberLength rest)
      else if first = '\x22' || first = '\x27' then stringLength first rest
      else ((punctuation? first).getD .invalid, 0) := by
  have same : (rest.head? = some '/') = (rest.head?.any (· = '/') = true) := by
    cases rest <;> simp
  rw [measure]
  simp only [same, Bool.decide_eq_true]
  rw [if_neg noComment]

/-- The byte at which a token begins tells where it stops. -/
theorem stop?_ascii {text : String} {first : Char} {before rest : List Char}
    (divided : text.toList = before ++ first :: rest) (ascii : first.toNat < 128) :
    stop? text (size before) = some ((measure first rest).1,
      size before + size (first :: rest.take (measure first rest).2)) := by
  have behind : text.toList = (before ++ [first]) ++ rest := by
    rw [divided, List.append_cons]
  have narrow : first.utf8Size = 1 := by
    rw [← Text.length_spreadOf, Text.spreadOf_of_ascii ascii, List.length_singleton]
  have next : size (before ++ [first]) = size before + 1 := by simp [narrow]
  have slash := Text.byteAt?_any (Text.isUniform_eq (show '/'.toNat < 128 by decide)) behind
  have digit := Text.byteAt?_any Text.isUniform_isDigit behind
  rw [next] at slash digit
  simp only [stop?, Text.byteAt?_ascii ascii divided, slash, digit]
  by_cases isFeed : first = '\n'
  · rw [if_pos isFeed, isFeed, measure_sign rfl rest]
    rfl
  rw [if_neg isFeed]
  by_cases isComment : (first = '#' || (first = '/' && rest.head?.any (· = '/'))) = true
  · have passes : continuesLine first = true := bne_iff_ne.2 isFeed
    rw [if_pos isComment, measure_of_marker isComment,
      skipWhile_first Text.isUniform_continuesLine divided passes]
  rw [if_neg isComment, measure_of_no_marker isComment]
  by_cases isName : startsName first = true
  · rw [if_pos isName, if_pos isName,
      skipWhile_first Text.isUniform_continuesName divided (continuesName_of_startsName isName)]
  rw [if_neg isName, if_neg isName]
  by_cases isDigit : first.isDigit = true
  · have isNumber : (first.isDigit || (first = '-' && rest.head?.any Char.isDigit)) = true := by
      simp [isDigit]
    rw [if_pos isDigit, if_pos isNumber, numberStop_boundary divided, numberLength_cons isDigit]
    rfl
  rw [if_neg isDigit]
  by_cases isNegative : (first = '-' && rest.head?.any Char.isDigit) = true
  · have isNumber : (first.isDigit || (first = '-' && rest.head?.any Char.isDigit)) = true := by
      rw [isNegative, Bool.or_true]
    rw [if_pos isNegative, if_pos isNumber, ← next, numberStop_boundary behind, next,
      Text.size_cons, narrow, Nat.add_assoc]
  have noNumber : ¬ (first.isDigit || (first = '-' && rest.head?.any Char.isDigit)) = true := by
    simpa only [Bool.or_eq_true, not_or] using And.intro isDigit isNegative
  rw [if_neg isNegative, if_neg noNumber]
  by_cases isQuote : (first = '\x22' || first = '\x27') = true
  · have quotes : IsQuote first := by
      simpa [IsQuote] using isQuote
    rw [if_pos isQuote, if_pos isQuote, ← next, stringStop?_boundary quotes behind, next,
      Text.size_cons, narrow, Nat.add_assoc]
  rw [if_neg isQuote, if_neg isQuote, Text.widthAt?_boundary divided]
  rfl

/-- A character beyond ASCII is no sign, and it begins no other token. -/
theorem punctuation?_wide {letter : Char} (wide : 128 ≤ letter.toNat) :
    punctuation? letter = none := by
  unfold punctuation?
  split <;> first | rfl | exact absurd wide (by decide)

theorem measure_wide {first : Char} (wide : 128 ≤ first.toNat) (rest : List Char) :
    measure first rest = (.invalid, 0) := by
  have apart {other : Char} (ascii : other.toNat < 128) : first ≠ other :=
    Text.ne_of_wide wide ascii
  have noMarker : ¬ (first = '#' || (first = '/' && rest.head?.any (· = '/'))) = true := by
    simp [apart]
  rw [measure_of_no_marker noMarker]
  simp [apart, Text.startsName_of_wide wide, Text.isDigit_of_wide wide, punctuation?_wide wide]

theorem stop?_wide {text : String} {first : Char} {before rest : List Char}
    (divided : text.toList = before ++ first :: rest) (wide : 128 ≤ first.toNat) :
    stop? text (size before) = some (.invalid, size before + first.utf8Size) := by
  obtain ⟨byte, found, large⟩ : ∃ byte, byteAt? text (size before) = some byte ∧
      128 ≤ byte.toNat := by
    obtain ⟨byte, bytes, shape⟩ := List.exists_cons_of_ne_nil (Text.spreadOf_ne_nil first)
    refine ⟨byte, ?_, Text.le_toNat_of_mem_spreadOf wide (shape ▸ List.mem_cons_self)⟩
    rw [Text.byteAt?_boundary divided, Text.spread_cons, shape]
    rfl
  have apart {other : Char} (ascii : other.toNat < 128) : byte ≠ other :=
    Text.ne_of_wide large ascii
  simp [stop?, found, apart, Text.startsName_of_wide large, Text.isDigit_of_wide large,
    punctuation?_wide large, Text.widthAt?_boundary divided]

/-- The byte at which a token begins tells where it stops. -/
theorem stop?_boundary {text : String} {first : Char} {before rest : List Char}
    (divided : text.toList = before ++ first :: rest) :
    stop? text (size before) = some ((measure first rest).1,
      size before + size (first :: rest.take (measure first rest).2)) := by
  rcases Nat.lt_or_ge first.toNat 128 with ascii | wide
  · exact stop?_ascii divided ascii
  · rw [stop?_wide divided wide, measure_wide wide]
    rfl

/-! ### One token after another -/

/-- This is the cut of a token that is known by its text. -/
def cut (token : Token) : Cut := ⟨token.kind, token.span⟩

/-- These tokens are ahead of a boundary of a text. -/
def Ahead (text : String) (offset : Nat) (tokens : List Token) : Prop :=
  ∃ before after, text.toList = before ++ after ∧ offset = size before ∧
    tokens = scan offset after

theorem ahead_ofText (text : String) : Ahead text 0 (ofText text) :=
  ⟨[], text.toList, rfl, rfl, rfl⟩

/-- The space before a token can be taken off. -/
theorem scan_dropWhile (start : Nat) (text : List Char) :
    scan start text = scan (start + size (text.takeWhile isSpace)) (text.dropWhile isSpace) := by
  induction text generalizing start with
  | nil => rfl
  | cons first rest inductionHypothesis =>
      by_cases space : isSpace first = true
      · rw [scan_space start rest space, inductionHypothesis, List.takeWhile_cons_of_pos space,
          List.dropWhile_cons_of_pos space, Text.size_cons, Nat.add_assoc]
      · rw [List.takeWhile_cons_of_neg space, List.dropWhile_cons_of_neg space, Text.size_nil,
          Nat.add_zero]

/-- The space ahead of a boundary can be passed over. -/
theorem Ahead.exists_start {text : String} {offset : Nat} {tokens : List Token}
    (ahead : Ahead text offset tokens) :
    ∃ before after, text.toList = before ++ after ∧
      Text.skipWhile isSpace text offset = size before ∧
      (∀ first ∈ after.head?, ¬ isSpace first = true) ∧ tokens = scan (size before) after := by
  obtain ⟨before, after, divided, rfl, rfl⟩ := ahead
  refine ⟨before ++ after.takeWhile isSpace, after.dropWhile isSpace, ?_, ?_, ?_, ?_⟩
  · rw [divided, List.append_assoc, List.takeWhile_append_dropWhile]
  · rw [Text.skipWhile_boundary Text.isUniform_isSpace divided, Text.size_append]
  · intro first isFirst
    have fails := List.head?_dropWhile_not isSpace after
    rw [Option.mem_def.1 isFirst] at fails
    simpa using fails
  · rw [scan_dropWhile, Text.size_append]

/-- The first of the tokens ahead is the next one, and after it the others are ahead. -/
theorem Ahead.next?_cons {text : String} {offset : Nat} {token : Token} {others : List Token}
    (ahead : Ahead text offset (token :: others)) :
    ∃ stop, next? text offset = some (token.cut, stop) ∧ Ahead text stop others := by
  obtain ⟨before, after, divided, start, solid, tokens⟩ := ahead.exists_start
  cases after with
  | nil =>
      rw [scan_nil] at tokens
      cases tokens
  | cons first tail =>
      rw [scan_token _ _ (solid first rfl)] at tokens
      obtain ⟨rfl, rfl⟩ := List.cons.inj tokens
      refine ⟨size before + size (first :: tail.take (measure first tail).2), ?_,
        before ++ first :: tail.take (measure first tail).2,
        tail.drop (measure first tail).2, ?_, ?_, rfl⟩
      · simp only [Token.next?, start, stop?_boundary divided, cut, span,
          ← Text.size_eq_utf8ByteSize]
        rfl
      · rw [divided, List.append_assoc, List.cons_append, List.take_append_drop]
      · rw [Text.size_append]

/-- The ending is next if no tokens are ahead. -/
theorem Ahead.next?_nil {text : String} {offset : Nat} (ahead : Ahead text offset []) :
    ∃ stop, next? text offset = some ((endOf text).cut, stop) := by
  obtain ⟨before, after, divided, start, solid, tokens⟩ := ahead.exists_start
  cases after with
  | nil =>
      have ended : stop? text (size before) = some (.ending, size before) := by
        rw [stop?, Text.byteAt?_boundary divided]
        rfl
      have whole : size before = text.utf8ByteSize := by
        rw [← Text.size_toList, divided, List.append_nil]
      rw [whole] at start ended
      refine ⟨text.utf8ByteSize, ?_⟩
      simp only [Token.next?, start, ended]
      rfl
  | cons first tail =>
      rw [scan_token _ _ (solid first rfl)] at tokens
      cases tokens

end Token

end StorageSchema
