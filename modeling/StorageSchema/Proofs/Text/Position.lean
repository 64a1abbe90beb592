/-
This file finds the position of an offset by counting characters. The walk through a text stops at
the position that is counted.
-/
import Mathlib.Data.List.DropRight
import StorageSchema.Text.Position

namespace StorageSchema.Text

/-- Every character of a text comes with the offset at which it ends. -/
def withEnds (start : Nat) : List Char → List (Char × Nat)
  | [] => []
  | letter :: rest =>
      (letter, start + letter.utf8Size) :: withEnds (start + letter.utf8Size) rest

/-- These are the characters that end at or before an offset. -/
def endedBy (text : List Char) (offset : Nat) : List Char :=
  ((withEnds 0 text).filter fun ended => ended.2 ≤ offset).map Prod.fst

/-- The row counts the line feeds that have ended, and the column counts the characters after the
last of them. Beyond the end of the text each byte counts as a column. -/
def countedPosition (text : List Char) (offset : Nat) : Position :=
  ⟨(endedBy text offset).count '\n',
    ((endedBy text offset).rtakeWhile (· ≠ '\n')).length + (offset - size text)⟩

theorem withEnds_add (start : Nat) (text : List Char) :
    withEnds start text =
      (withEnds 0 text).map fun ended => (ended.1, start + ended.2) := by
  have shift (first second : Nat) : withEnds (first + second) text =
      (withEnds second text).map fun ended => (ended.1, first + ended.2) := by
    induction text generalizing second with
    | nil => rfl
    | cons letter rest inductionHypothesis =>
        simp only [withEnds, List.map_cons, Nat.add_assoc, inductionHypothesis]
  exact shift start 0

theorem withEnds_append (start : Nat) (first second : List Char) :
    withEnds start (first ++ second) =
      withEnds start first ++ withEnds (start + size first) second := by
  induction first generalizing start with
  | nil => rfl
  | cons letter rest inductionHypothesis =>
      simp only [List.cons_append, withEnds, size_cons, inductionHypothesis, Nat.add_assoc]

@[simp] theorem length_withEnds (start : Nat) (text : List Char) :
    (withEnds start text).length = text.length := by
  induction text generalizing start with
  | nil => rfl
  | cons letter rest inductionHypothesis => simp [withEnds, inductionHypothesis]

/-- The characters of a text begin and end inside it. -/
theorem bounds_of_mem_withEnds {start : Nat} {text : List Char} {ended : Char × Nat}
    (present : ended ∈ withEnds start text) :
    start + ended.1.utf8Size ≤ ended.2 ∧ ended.2 ≤ start + size text := by
  induction text generalizing start with
  | nil => cases present
  | cons letter rest inductionHypothesis =>
      rw [size_cons]
      rcases List.mem_cons.1 present with rfl | later
      · exact ⟨Nat.le_refl _, by omega⟩
      · have bounds := inductionHypothesis later
        omega

/-- The first character has ended, or else none has. -/
theorem endedBy_cons (letter : Char) (rest : List Char) (offset : Nat) :
    endedBy (letter :: rest) offset =
      if letter.utf8Size ≤ offset then letter :: endedBy rest (offset - letter.utf8Size)
      else [] := by
  simp only [endedBy, withEnds, Nat.zero_add, withEnds_add letter.utf8Size rest,
    List.filter_cons, List.filter_map, Function.comp_def]
  by_cases ended : letter.utf8Size ≤ offset
  · have same (stop : Nat) : letter.utf8Size + stop ≤ offset ↔ stop ≤ offset - letter.utf8Size := by
      omega
    simp [ended, same, Function.comp_def]
  · have none (stop : Nat) : ¬ letter.utf8Size + stop ≤ offset := by omega
    simp [ended, none]

theorem endedBy_append (first second : List Char) :
    endedBy (first ++ second) (size first) = first := by
  induction first with
  | nil =>
      cases second with
      | nil => rfl
      | cons letter rest =>
          have positive := letter.utf8Size_pos
          rw [List.nil_append, endedBy_cons, size_nil, if_neg (by omega)]
  | cons letter rest inductionHypothesis =>
      rw [List.cons_append, endedBy_cons, size_cons, if_pos (Nat.le_add_right _ _),
        Nat.add_sub_cancel_left, inductionHypothesis]

/-- The walk passes the characters that have ended, and then the bytes beyond the end. -/
theorem Position.walk_eq_foldl (position : Position) (text : List Char) (offset : Nat) :
    position.walk text offset =
      ⟨((endedBy text offset).foldl Position.next position).row,
        ((endedBy text offset).foldl Position.next position).column + (offset - size text)⟩ := by
  induction text generalizing position offset with
  | nil => rfl
  | cons letter rest inductionHypothesis =>
      rw [Position.walk, endedBy_cons, size_cons]
      by_cases before : offset < letter.utf8Size
      · rw [if_pos before, if_neg (by omega), List.foldl_nil,
          show offset - (letter.utf8Size + size rest) = 0 by omega]
        rfl
      · rw [if_neg before, if_pos (by omega), List.foldl_cons, inductionHypothesis,
          Nat.sub_sub]

/-- Passing characters counts the line feeds among them and the characters after the last one. -/
theorem Position.foldl_next (letters : List Char) :
    letters.foldl Position.next ⟨0, 0⟩ =
      ⟨letters.count '\n', (letters.rtakeWhile (· ≠ '\n')).length⟩ := by
  induction letters using List.reverseRecOn with
  | nil => rfl
  | append_singleton before letter inductionHypothesis =>
      rw [List.foldl_append, inductionHypothesis, List.foldl_cons, List.foldl_nil, Position.next,
        List.rtakeWhile_concat, List.count_append]
      by_cases feed : letter = '\n'
      · simp [feed]
      · simp [feed]

theorem positionOf_eq_counted (text : List Char) (offset : Nat) :
    positionOf text offset = countedPosition text offset := by
  rw [positionOf, Position.walk_eq_foldl, Position.foldl_next, countedPosition]

end StorageSchema.Text
