/-
This file counts a text in bytes of its UTF-8 form and cuts it at such a count.
-/

namespace StorageSchema.Text

/-- The size of a text is the number of bytes of its UTF-8 form. -/
def size : List Char → Nat
  | [] => 0
  | letter :: rest => letter.utf8Size + size rest

/-- This function cuts a text after so many bytes, and refuses to cut inside a character or beyond
the end. -/
def splitAt? : List Char → Nat → Option (List Char × List Char)
  | text, 0 => some ([], text)
  | [], _ + 1 => none
  | letter :: rest, count + 1 =>
      if letter.utf8Size ≤ count + 1 then
        (splitAt? rest (count + 1 - letter.utf8Size)).map fun parts =>
          (letter :: parts.1, parts.2)
      else none

@[simp] theorem size_nil : size [] = 0 := rfl

@[simp] theorem size_cons (letter : Char) (rest : List Char) :
    size (letter :: rest) = letter.utf8Size + size rest := rfl

@[simp] theorem size_append (first second : List Char) :
    size (first ++ second) = size first + size second := by
  induction first with
  | nil => simp
  | cons letter rest inductionHypothesis => simp [inductionHypothesis, Nat.add_assoc]

theorem size_eq_utf8ByteSize (text : List Char) : size text = (String.ofList text).utf8ByteSize := by
  induction text with
  | nil => rfl
  | cons letter rest inductionHypothesis =>
      rw [String.ofList_cons, String.utf8ByteSize_append, String.utf8ByteSize_singleton,
        ← inductionHypothesis, size_cons]

@[simp] theorem size_toList (text : String) : size text.toList = text.utf8ByteSize := by
  rw [size_eq_utf8ByteSize, String.ofList_toList]

/-- A cut loses nothing and stands at the given count of bytes. -/
theorem splitAt?_eq_some {text first second : List Char} {count : Nat}
    (cut : splitAt? text count = some (first, second)) :
    text = first ++ second ∧ size first = count := by
  induction text generalizing count first with
  | nil =>
      cases count with
      | zero => simp_all [splitAt?]
      | succ count => simp [splitAt?] at cut
  | cons letter rest inductionHypothesis =>
      cases count with
      | zero => simp_all [splitAt?]
      | succ count =>
          simp only [splitAt?] at cut
          split at cut
          · obtain ⟨parts, found, equal⟩ := Option.map_eq_some_iff.1 cut
            obtain ⟨rfl, rfl⟩ := Prod.mk.inj equal
            obtain ⟨whole, counted⟩ := inductionHypothesis found
            constructor
            · rw [whole]; rfl
            · simp only [size_cons]; omega
          · simp at cut

/-- Every place between two characters can be cut at. -/
theorem splitAt?_append (first second : List Char) :
    splitAt? (first ++ second) (size first) = some (first, second) := by
  induction first with
  | nil => cases second <;> rfl
  | cons letter rest inductionHypothesis =>
      have positive : 0 < letter.utf8Size := letter.utf8Size_pos
      obtain ⟨count, counted⟩ : ∃ count, letter.utf8Size + size rest = count + 1 :=
        ⟨letter.utf8Size + size rest - 1, by omega⟩
      simp only [List.cons_append, size_cons, counted, splitAt?]
      rw [if_pos (by omega), show count + 1 - letter.utf8Size = size rest by omega,
        inductionHypothesis]
      rfl

end StorageSchema.Text
