/-
This file proves that an occurrence of a pattern is found by its place among all offsets at which
the pattern stands in the text.
-/
import Mathlib.Data.Finset.Card
import Mathlib.Data.Finset.Range
import StorageSchema.Text.Occurrence

namespace StorageSchema.Text

/-- The occurrences of a pattern are the offsets at which it begins, smallest first. -/
def occurrences (pattern : List UInt8) (start : Nat) : List UInt8 → List Nat
  | [] => if pattern.isEmpty then [start] else []
  | byte :: rest =>
      if pattern.isPrefixOf (byte :: rest) then start :: occurrences pattern (start + 1) rest
      else occurrences pattern (start + 1) rest

/-- A pattern stands at an offset if the text has as many bytes from there on and they are those of
the pattern. -/
def StandsAt (text pattern : List UInt8) (offset : Nat) : Prop :=
  offset + pattern.length ≤ text.length ∧ (text.drop offset).take pattern.length = pattern

instance (text pattern : List UInt8) (offset : Nat) : Decidable (StandsAt text pattern offset) :=
  inferInstanceAs (Decidable (_ ∧ _))

/-- The empty pattern stands at the end of a text, so there is one more offset than bytes. -/
def offsets (text pattern : List UInt8) : Finset Nat :=
  (Finset.range (text.length + 1)).filter (StandsAt text pattern)

theorem mem_offsets_iff (text pattern : List UInt8) (offset : Nat) :
    offset ∈ offsets text pattern ↔ StandsAt text pattern offset := by
  rw [offsets, Finset.mem_filter, Finset.mem_range, and_iff_right_iff_imp]
  intro stands
  exact Nat.lt_succ_of_le ((Nat.le_add_right offset pattern.length).trans stands.1)

theorem standsAt_zero_iff (text pattern : List UInt8) :
    StandsAt text pattern 0 ↔ pattern <+: text := by
  rw [StandsAt, Nat.zero_add, List.drop_zero, List.prefix_iff_eq_take]
  constructor
  · exact fun stands => stands.2.symm
  · intro same
    exact ⟨(congrArg List.length same).trans_le (List.length_take_le' _ _), same.symm⟩

theorem standsAt_cons_iff (byte : UInt8) (text pattern : List UInt8) (offset : Nat) :
    StandsAt (byte :: text) pattern (offset + 1) ↔ StandsAt text pattern offset := by
  rw [StandsAt, StandsAt, List.drop_succ_cons, List.length_cons, Nat.add_right_comm,
    Nat.add_le_add_iff_right]

/-- The walk along a text tries every offset in turn. -/
theorem occurrences_eq (pattern : List UInt8) (start : Nat) (text : List UInt8) :
    occurrences pattern start text =
      ((List.range (text.length + 1)).filter fun offset => StandsAt text pattern offset).map
        (start + ·) := by
  induction text generalizing start with
  | nil =>
      by_cases empty : pattern = []
      · simp [occurrences, StandsAt, empty]
      · simp [occurrences, StandsAt, empty]
  | cons byte rest inductionHypothesis =>
      rw [List.length_cons, List.range_succ_eq_map, List.filter_cons, List.filter_map,
        occurrences, inductionHypothesis]
      simp only [Function.comp_def, Nat.succ_eq_add_one, standsAt_cons_iff, standsAt_zero_iff,
        List.isPrefixOf_iff_prefix, decide_eq_true_eq, Nat.add_assoc, Nat.add_comm 1]
      split <;> simp

theorem sorted_occurrences (text pattern : List UInt8) :
    (occurrences pattern 0 text).Pairwise (· < ·) := by
  simp only [occurrences_eq, Nat.zero_add, List.map_id']
  exact List.pairwise_lt_range.filter _

/-- The walk finds the offsets of the pattern. -/
theorem toFinset_occurrences (text pattern : List UInt8) :
    (occurrences pattern 0 text).toFinset = offsets text pattern := by
  ext offset
  simp [occurrences_eq, offsets]

/-- As many numbers of an increasing list are smaller than one of them as stand before it. -/
theorem filter_lt_getElem {numbers : List Nat} (sorted : numbers.Pairwise (· < ·)) (place : Nat)
    (inside : place < numbers.length) :
    numbers.filter (· < numbers[place]) = numbers.take place := by
  induction numbers generalizing place with
  | nil => exact absurd inside (Nat.not_lt_zero place)
  | cons first rest inductionHypothesis =>
      obtain ⟨firstLess, restSorted⟩ := List.pairwise_cons.1 sorted
      cases place with
      | zero =>
          have noneLess : ∀ number ∈ rest, ¬ number < first := fun number present =>
            Nat.lt_asymm (firstLess number present)
          simpa using noneLess
      | succ place =>
          have restInside : place < rest.length := Nat.lt_of_succ_lt_succ inside
          have less : first < rest[place] := firstLess _ (List.getElem_mem restInside)
          simp [less, inductionHypothesis restSorted place restInside]

theorem occurrences_eq_nil {pattern : List UInt8} (start : Nat) {text : List UInt8}
    (short : text.length < pattern.length) : occurrences pattern start text = [] := by
  rw [occurrences_eq, List.map_eq_nil_iff, List.filter_eq_nil_iff]
  intro offset _ stands
  have fits := (of_decide_eq_true stands).1
  omega

/-- To count down along the offsets is to take one from the list of all occurrences. -/
theorem occurrenceFrom_eq (pattern : List UInt8) (start place : Nat) (text : List UInt8) :
    occurrenceFrom pattern start place text =
      match (occurrences pattern start text)[place]? with
      | some start => ⟨start, start + pattern.length⟩
      | none => Span.nowhere := by
  induction text generalizing start place with
  | nil =>
      cases pattern with
      | nil => cases place <;> rfl
      | cons => simp [occurrenceFrom, occurrences]
  | cons byte rest inductionHypothesis =>
      unfold occurrenceFrom
      by_cases fits : pattern.length ≤ rest.length + 1
      · have same : pattern.isPrefixOf (byte :: rest) = true ↔
            (byte :: rest).take pattern.length = pattern := by
          rw [List.isPrefixOf_iff_prefix, List.prefix_iff_eq_take, eq_comm]
        rw [if_pos fits, occurrences]
        by_cases stands : (byte :: rest).take pattern.length = pattern
        · rw [if_pos stands, if_pos (same.2 stands)]
          cases place with
          | zero => rfl
          | succ place => exact inductionHypothesis (start + 1) place
        · rw [if_neg stands, if_neg fun isPrefix => stands (same.1 isPrefix)]
          exact inductionHypothesis (start + 1) place
      · rw [if_neg fits, occurrences_eq_nil start (Nat.lt_of_not_le fits)]
        rfl

/-- An occurrence is looked for by its place, counted from zero. If the pattern stands at more
offsets than that, the span of the pattern is found at the one that has so many smaller ones, and
otherwise no place at all. -/
theorem occurrence_exact (text pattern : List UInt8) (place : Nat) :
    if place < (offsets text pattern).card then
      ∃ start, StandsAt text pattern start ∧
        ((offsets text pattern).filter (· < start)).card = place ∧
          occurrence text pattern place = ⟨start, start + pattern.length⟩
    else occurrence text pattern place = Span.nowhere := by
  have sorted := sorted_occurrences text pattern
  have distinct : (occurrences pattern 0 text).Nodup := sorted.imp Nat.ne_of_lt
  have counted : (offsets text pattern).card = (occurrences pattern 0 text).length := by
    rw [← toFinset_occurrences, List.toFinset_card_of_nodup distinct]
  rw [counted]
  split
  · next inside =>
      refine ⟨(occurrences pattern 0 text)[place], ?_, ?_, ?_⟩
      · rw [← mem_offsets_iff, ← toFinset_occurrences, List.mem_toFinset]
        exact List.getElem_mem inside
      · have smaller := List.toFinset_filter (occurrences pattern 0 text)
          (· < (occurrences pattern 0 text)[place])
        simp only [decide_eq_true_eq, toFinset_occurrences] at smaller
        rw [← smaller, List.toFinset_card_of_nodup (distinct.filter _),
          filter_lt_getElem sorted place inside, List.length_take_of_le (Nat.le_of_lt inside)]
      · rw [occurrence, occurrenceFrom_eq, List.getElem?_eq_getElem inside]
  · next outside =>
      rw [occurrence, occurrenceFrom_eq, List.getElem?_eq_none (Nat.le_of_not_lt outside)]

/-- Two occurrences overlap, and the empty pattern also stands at the end. -/
example : occurrence [1, 1, 1] [1, 1] 1 = ⟨1, 3⟩ ∧ occurrence [1, 1, 1] [1, 1] 2 = Span.nowhere ∧
    occurrence [1, 1, 1] [] 3 = ⟨3, 3⟩ := by
  decide

end StorageSchema.Text
