/-
This file puts a carriage return before each line feed of a text. The offsets move on, and their
rows and columns stay as they are.
-/
import Mathlib.Order.MinMax
import StorageSchema.Proofs.Text.Position

namespace StorageSchema.Text

/-- Each line feed comes after a carriage return of its own. -/
def withReturns (text : List Char) : List Char :=
  text.flatMap fun letter => if letter = '\n' then ['\r', '\n'] else [letter]

/-- An offset moves on by one byte for each line feed that has ended. -/
def passReturns (text : List Char) (offset : Nat) : Nat := offset + (positionOf text offset).row

@[simp] theorem withReturns_nil : withReturns [] = [] := rfl

theorem withReturns_append (first second : List Char) :
    withReturns (first ++ second) = withReturns first ++ withReturns second :=
  List.flatMap_append

theorem withReturns_feed (rest : List Char) :
    withReturns ('\n' :: rest) = '\r' :: '\n' :: withReturns rest := rfl

theorem withReturns_letter {letter : Char} (noFeed : letter ≠ '\n') (rest : List Char) :
    withReturns (letter :: rest) = letter :: withReturns rest := by
  rw [withReturns, List.flatMap_cons, if_neg noFeed]
  rfl

/-- A line stays as it is. -/
theorem withReturns_line {line : List Char} (single : '\n' ∉ line) : withReturns line = line := by
  induction line with
  | nil => rfl
  | cons letter rest inductionHypothesis =>
      obtain ⟨noFeed, others⟩ := not_or.1 (List.mem_cons.not.1 single)
      rw [withReturns_letter (Ne.symm noFeed), inductionHypothesis others]

theorem Position.walk_zero (position : Position) (text : List Char) :
    position.walk text 0 = position := by
  cases text with
  | nil => rfl
  | cons letter rest => rw [Position.walk, if_pos letter.utf8Size_pos]

/-- The text grows by one byte for each row. -/
theorem size_withReturns (text : List Char) (position : Position) :
    size (withReturns text) + position.row =
      size text + (text.foldl Position.next position).row := by
  induction text generalizing position with
  | nil => rfl
  | cons letter rest inductionHypothesis =>
      have grown := inductionHypothesis (position.next letter)
      by_cases feed : letter = '\n'
      · subst feed
        have row : (position.next '\n').row = position.row + 1 := rfl
        rw [row] at grown
        simp only [withReturns_feed, size_cons, List.foldl_cons,
          show Char.utf8Size '\r' = 1 by decide]
        omega
      · have row : (position.next letter).row = position.row := by
          rw [Position.next, if_neg feed]
        rw [row] at grown
        simp only [withReturns_letter feed, size_cons, List.foldl_cons]
        omega

/-- What stands at an offset stands after what comes before it with its carriage returns. -/
theorem passReturns_size (before after : List Char) :
    passReturns (before ++ after) (size before) = size (withReturns before) := by
  have position := Position.walk_append ⟨0, 0⟩ before after 0
  rw [Nat.add_zero, Position.walk_zero] at position
  rw [passReturns, positionOf, position]
  exact (size_withReturns before ⟨0, 0⟩).symm

theorem passReturns_end (text : List Char) :
    passReturns text (size text) = size (withReturns text) := by
  have ended := passReturns_size text []
  rwa [List.append_nil] at ended

/-- Further on in a text no fewer characters have ended. -/
theorem endedBy_sublist (text : List Char) {offset later : Nat} (before : offset ≤ later) :
    (endedBy text offset).Sublist (endedBy text later) := by
  apply List.Sublist.map
  apply List.monotone_filter_right
  intro ended inTime
  rw [decide_eq_true_eq] at inTime ⊢
  exact inTime.trans before

theorem strictMono_passReturns (text : List Char) : StrictMono (passReturns text) := by
  intro offset later before
  have rows : (positionOf text offset).row ≤ (positionOf text later).row := by
    rw [positionOf_eq_counted, positionOf_eq_counted]
    exact (endedBy_sublist text before.le).count_le '\n'
  rw [passReturns, passReturns]
  omega

/-- What stands after the first character moves on with it. -/
theorem passReturns_cons {letter : Char} {offset : Nat} (rest : List Char)
    (ended : letter.utf8Size ≤ offset) :
    passReturns (letter :: rest) offset =
      size (withReturns [letter]) + passReturns rest (offset - letter.utf8Size) := by
  simp only [passReturns, positionOf_eq_counted, countedPosition, endedBy_cons, if_pos ended,
    List.count_cons]
  by_cases feed : letter = '\n'
  · subst feed
    have sizes : size (withReturns ['\n']) = Char.utf8Size '\n' + 1 := by decide
    rw [sizes, beq_self_eq_true, if_pos rfl]
    omega
  · have sizes : size (withReturns [letter]) = letter.utf8Size := by
      rw [withReturns_letter feed]
      rfl
    rw [sizes, if_neg (by simpa using feed)]
    omega

/-- Inside the first character nothing moves. -/
theorem passReturns_inside {letter : Char} {offset : Nat} (rest : List Char)
    (inside : offset < letter.utf8Size) : passReturns (letter :: rest) offset = offset := by
  rw [passReturns, positionOf, Position.walk, if_pos inside]
  rfl

/-- A carriage return before a line feed does not change the position after both. -/
theorem Position.foldl_withReturns (position : Position) (letter : Char) :
    (withReturns [letter]).foldl Position.next position = position.next letter := by
  by_cases feed : letter = '\n'
  · subst feed
    rfl
  · rw [withReturns_letter feed]
    rfl

theorem Position.walk_withReturns (position : Position) (text : List Char) (offset : Nat) :
    position.walk (withReturns text) (passReturns text offset) = position.walk text offset := by
  induction text generalizing position offset with
  | nil => rfl
  | cons letter rest inductionHypothesis =>
      rcases Nat.lt_or_ge offset letter.utf8Size with inside | ended
      · rw [passReturns_inside rest inside, Position.walk, if_pos inside]
        by_cases feed : letter = '\n'
        · subst feed
          have sizes : Char.utf8Size '\r' = Char.utf8Size '\n' := by decide
          rw [withReturns_feed, Position.walk, sizes, if_pos inside]
        · rw [withReturns_letter feed, Position.walk, if_pos inside]
      · rw [passReturns_cons rest ended, ← List.singleton_append, withReturns_append,
          Position.walk_append, Position.foldl_withReturns, inductionHypothesis,
          List.singleton_append, Position.walk, if_neg (Nat.not_lt.2 ended)]

theorem positionOf_withReturns (text : List Char) (offset : Nat) :
    positionOf (withReturns text) (passReturns text offset) = positionOf text offset :=
  Position.walk_withReturns ⟨0, 0⟩ text offset

end StorageSchema.Text
