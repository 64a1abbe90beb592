/-
This file writes and reads quoted strings. A backslash makes the character after it an ordinary one,
and a few such pairs stand for control characters.
-/

namespace StorageSchema.Text.Quoted

/-- An escaped letter stands for itself, except for three that stand for control characters. -/
def escaped : Char → Char
  | 'n' => '\n'
  | 't' => '\t'
  | 'r' => '\r'
  | letter => letter

/-- This function resolves the escapes, and a backslash at the end stands for nothing. -/
def unescape : List Char → List Char
  | [] => []
  | ['\\'] => []
  | '\\' :: letter :: rest => escaped letter :: unescape rest
  | letter :: rest => letter :: unescape rest

/-- This function writes the backslash, the quote and the line feed as escapes. -/
def escape (quote : Char) : List Char → List Char
  | [] => []
  | letter :: rest =>
      if letter = '\\' ∨ letter = quote then '\\' :: letter :: escape quote rest
      else if letter = '\n' then '\\' :: 'n' :: escape quote rest
      else letter :: escape quote rest

/-- The written form of a value stands between two quotes. -/
def encode (quote : Char) (value : List Char) : List Char :=
  quote :: (escape quote value ++ [quote])

/-- The value of a written form lies between its first and its last character. -/
def decode (text : List Char) : List Char := unescape (text.drop 1).dropLast

theorem decode_quoted (first last : Char) (inside : List Char) :
    decode (first :: (inside ++ [last])) = unescape inside := by
  simp [decode]

theorem unescape_escape {quote : Char} (letters : List Char)
    (plain : escaped quote = quote) : unescape (escape quote letters) = letters := by
  induction letters with
  | nil => rfl
  | cons letter rest inductionHypothesis =>
      simp only [escape]
      split
      · next special =>
          have same : escaped letter = letter := by
            rcases special with rfl | rfl
            · rfl
            · exact plain
          simp [unescape, same, inductionHypothesis]
      · next ordinary =>
          split
          · next feed => simp [unescape, escaped, inductionHypothesis, feed]
          · rw [unescape, inductionHypothesis]
            · intro single _; exact ordinary (.inl single)
            · intro _ _ single _; exact ordinary (.inl single)

theorem decode_encode {quote : Char} (value : List Char) (plain : escaped quote = quote) :
    decode (encode quote value) = value := by
  simp [decode, encode, unescape_escape value plain]

end StorageSchema.Text.Quoted
