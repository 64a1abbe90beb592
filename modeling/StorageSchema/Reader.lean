/-
This file reads a text token by token. The next token is looked at before it is taken, and the
comments and line breaks before it are kept until then.
-/
import StorageSchema.Diagnostic
import StorageSchema.SyntaxError
import StorageSchema.Token.Cut

namespace StorageSchema

/-- A reader stands at an offset of its text. It may have looked at the next token, and its trivia
are the comments and line breaks since the last token that has been taken. -/
structure Reader where
  text : String
  offset : Nat
  next : Option Cut
  trivia : Array Cut
  hasTaken : Bool
  deriving DecidableEq, Repr

/-- A reading moves a reader on, and it has a value or fails with a diagnostic. It has no answer
where something is missing that must be there. -/
abbrev Reading := StateT Reader (ExceptT Diagnostic Option)

/-- In the beginning nothing has been looked at. -/
def Reader.ofText (text : String) : Reader := ⟨text, 0, none, #[], false⟩

/-- Tokens are passed up to the next one that matters, for a number of rounds that must be
enough. -/
def Reader.look? : Nat → Reader → Option (Cut × Reader)
  | rounds, reader =>
      match reader.next, rounds with
      | some cut, _ => some (cut, reader)
      | none, 0 => none
      | none, rounds + 1 => do
          let (cut, offset) ← Token.next? reader.text reader.offset
          if cut.isTrivia then
            look? rounds { reader with offset := offset, trivia := reader.trivia.push cut }
          else some (cut, { reader with offset := offset, next := some cut })

/-- The token that has been looked at is taken, and there must be one. -/
def Reader.take? (reader : Reader) : Option (Cut × Reader) := do
  let cut ← reader.next
  some (cut, { reader with next := none, trivia := #[], hasTaken := true })

/-- Nothing stands on its line before a place of the trivia if a line ends there, or if the text
begins there. -/
def Reader.beginsLine? (reader : Reader) : Nat → Option Bool
  | 0 => some !reader.hasTaken
  | place + 1 => do
      let cut ← reader.trivia[place]?
      some (cut.kind = .newline)

/-- The lines just above the place that hold a comment and nothing else are found upwards, and so
the latest one is first. -/
def Reader.linesAbove? (reader : Reader) : Nat → Option (List String)
  | place + 2 => do
      let feed ← reader.trivia[place + 1]?
      let comment ← reader.trivia[place]?
      if feed.kind = .newline ∧ comment.kind = .comment then
        if ← reader.beginsLine? place then
          let text ← Text.part? reader.text comment.span
          let others ← reader.linesAbove? place
          some (commentBody text :: others)
        else some []
      else some []
  | _ => some []

/-- The comment above the next token has those lines in the order of the text. -/
def Reader.commentAbove? (reader : Reader) : Option (Option String) := do
  match ← reader.linesAbove? reader.trivia.size with
  | [] => some none
  | lines => some (some ("\n".intercalate lines.reverse))

/-- The comment beside the last token is the first of the trivia. -/
def Reader.commentBeside? (reader : Reader) : Option (Option String) :=
  match reader.trivia[0]? with
  | none => some none
  | some cut =>
      if cut.kind = .comment then
        (Text.part? reader.text cut.span).map fun text => some (commentBody text)
      else some none

namespace Reading

variable {Value Step Result : Type}

/-- A step of the reader must have an answer. -/
def ofStep (step : Reader → Option (Value × Reader)) : Reading Value := fun reader =>
  ExceptT.mk ((step reader).map Except.ok)

/-- What is asked of the reader must have an answer, and the reader stays as it is. -/
def ask (answer : Reader → Option Value) : Reading Value :=
  ofStep fun reader => (answer reader).map fun value => (value, reader)

/-- The reading fails with the message at the span. -/
def failAt (span : Span) (message : String) : Reading Value := fun _ =>
  ExceptT.mk (some (.error ⟨span, message⟩))

/-- Every token takes a byte, except the ending. -/
def limit : Reading Nat := ask fun reader => some (reader.text.utf8ByteSize + 1)

def look : Reading Cut := do
  let rounds ← limit
  ofStep (Reader.look? rounds)

def take : Reading Cut := ofStep Reader.take?

/-- The text of a token is the part at its span. -/
def select (span : Span) : Reading String := ask fun reader => Text.part? reader.text span

def commentAbove : Reading (Option String) := ask Reader.commentAbove?

/-- The trivia are complete once the next token has been looked at. -/
def commentBeside : Reading (Option String) := do
  let _ ← look
  ask Reader.commentBeside?

/-- The kind of a token that is not expected tells what is said about it. -/
def unexpected (cut : Cut) (expectation : Expectation) : Reading Value :=
  match cut.kind with
  | .ending => failAt cut.span (String.join ["unexpected end of input, ", expectation.message])
  | .invalid => do
      let text ← select cut.span
      failAt cut.span (String.join ["unexpected character `", text, "`"])
  | .unterminatedString => failAt cut.span "unterminated string literal"
  | _ => do
      let text ← select cut.span
      failAt cut.span (String.join ["unexpected `", text, "`, ", expectation.message])

/-- The next token is taken if it has the kind. -/
def expect (kind : Token.Kind) (expectation : Expectation) : Reading Cut := do
  let cut ← look
  if cut.kind = kind then take else unexpected cut expectation

/-- A loop takes one round after another until a round has a result, and the rounds must be
enough. -/
def loop (round : Step → Reading (Step ⊕ Result)) : Nat → Step → Reading Result
  | 0, _ => ask fun _ => none
  | rounds + 1, step => do
      match ← round step with
      | .inl next => loop round rounds next
      | .inr result => return result

end Reading

end StorageSchema
