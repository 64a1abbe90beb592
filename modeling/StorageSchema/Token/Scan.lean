/-
This file divides a text into tokens. Each token is the longest that can begin where the one before
it and the space after that end.
-/
import StorageSchema.Text.Size
import StorageSchema.Token

namespace StorageSchema.Token

/-- Space separates tokens and is no token itself, and a line feed is not space. -/
def isSpace (letter : Char) : Bool :=
  letter = ' ' || letter = '\t' || letter = '\x0b' || letter = '\x0c' || letter = '\r'

/-- A name begins with an ASCII letter or an underscore. -/
def startsName (letter : Char) : Bool := letter.isAlpha || letter = '_'

/-- A name goes on with ASCII letters, ASCII digits and underscores. -/
def continuesName (letter : Char) : Bool := letter.isAlphanum || letter = '_'

/-- A comment goes on to the end of its line. -/
def continuesLine (letter : Char) : Bool := letter != '\n'

/-- This function counts the leading characters that satisfy the test. -/
def countWhile (test : Char → Bool) (text : List Char) : Nat := (text.takeWhile test).length

/-- A number that has begun goes on with digits, and then with a point if a digit follows it. -/
def numberLength (rest : List Char) : Nat :=
  let whole := countWhile Char.isDigit rest
  match rest.drop whole with
  | '.' :: digit :: places =>
      if digit.isDigit then whole + 2 + countWhile Char.isDigit places else whole
  | _ => whole

/-- A string goes on to the first quote that no backslash precedes, or else it stops before the line
feed or at the end. -/
def stringLength (quote : Char) : List Char → Kind × Nat
  | [] => (.unterminatedString, 0)
  | '\n' :: _ => (.unterminatedString, 0)
  | ['\\'] => (.unterminatedString, 1)
  | '\\' :: '\n' :: _ => (.unterminatedString, 1)
  | '\\' :: _ :: rest => (stringLength quote rest).map id (· + 2)
  | letter :: rest =>
      if letter = quote then (.string, 1) else (stringLength quote rest).map id (· + 1)

/-- These characters are tokens by themselves. -/
def punctuation? : Char → Option Kind
  | '\n' => some .newline
  | '\x7b' => some .leftBrace
  | '\x7d' => some .rightBrace
  | '<' => some .lessThan
  | '>' => some .greaterThan
  | '[' => some .leftBracket
  | ']' => some .rightBracket
  | ',' => some .comma
  | ':' => some .colon
  | '?' => some .question
  | '|' => some .bar
  | _ => none

/-- The measure of a token is its kind and the number of characters after its first one. -/
def measure (first : Char) (rest : List Char) : Kind × Nat :=
  if first = '#' || (first = '/' && rest.head? = some '/') then
    (.comment, countWhile continuesLine rest)
  else if startsName first then (.identifier, countWhile continuesName rest)
  else if first.isDigit || (first = '-' && rest.head?.any Char.isDigit) then
    (.number, numberLength rest)
  else if first = '\x22' || first = '\x27' then stringLength first rest
  else ((punctuation? first).getD .invalid, 0)

/-- This function divides the text that begins at the offset. -/
def scan (start : Nat) : List Char → List Token
  | [] => []
  | first :: rest =>
      if isSpace first then scan (start + first.utf8Size) rest
      else
        let token := measure first rest
        let text := first :: rest.take token.2
        ⟨token.1, String.ofList text, start⟩ ::
          scan (start + Text.size text) (rest.drop token.2)
termination_by text => text.length
decreasing_by
  · simp
  · simp only [List.length_cons, List.length_drop]; omega

/-- The tokens of a text are all but the empty one at its end. -/
def ofText (text : String) : List Token := scan 0 text.toList

theorem scan_nil (start : Nat) : scan start [] = [] := by
  rw [scan]

theorem scan_space {first : Char} (start : Nat) (rest : List Char) (space : isSpace first) :
    scan start (first :: rest) = scan (start + first.utf8Size) rest := by
  rw [scan, if_pos space]

theorem scan_token {first : Char} (start : Nat) (rest : List Char) (solid : ¬ isSpace first) :
    scan start (first :: rest) =
      ⟨(measure first rest).1, String.ofList (first :: rest.take (measure first rest).2), start⟩ ::
        scan (start + Text.size (first :: rest.take (measure first rest).2))
          (rest.drop (measure first rest).2) := by
  rw [scan, if_neg solid]

end StorageSchema.Token
