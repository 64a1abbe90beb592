/-
This file proves that the edit distance is the least number of edits that lead from one text to
another.
-/
import Mathlib.Order.Lattice.Nat
import StorageSchema.Text.EditDistance

namespace StorageSchema.Text

/-- An edit inserts, deletes or changes a single letter, at the beginning of a text or later. -/
inductive Edit : List Char → List Char → Prop where
  | insert (letter : Char) (rest : List Char) : Edit rest (letter :: rest)
  | delete (letter : Char) (rest : List Char) : Edit (letter :: rest) rest
  | change (letter other : Char) (rest : List Char) : Edit (letter :: rest) (other :: rest)
  | later (letter : Char) {before after : List Char} (edit : Edit before after) :
      Edit (letter :: before) (letter :: after)

/-- One text becomes another by so many edits, one after another. -/
inductive Edits : Nat → List Char → List Char → Prop where
  | none (text : List Char) : Edits 0 text text
  | more {count : Nat} {source between target : List Char} (edits : Edits count source between)
      (edit : Edit between target) : Edits (count + 1) source target

theorem Edits.later {count : Nat} {source target : List Char} (letter : Char)
    (edits : Edits count source target) : Edits count (letter :: source) (letter :: target) := by
  induction edits with
  | none text => exact .none (letter :: text)
  | more _ edit inductionHypothesis => exact .more inductionHypothesis (.later letter edit)

/-- An edit can be made before others as well as after them. -/
theorem Edits.first {count : Nat} {source between target : List Char}
    (edit : Edit source between) (edits : Edits count between target) :
    Edits (count + 1) source target := by
  induction edits with
  | none text => exact .more (.none source) edit
  | more _ last inductionHypothesis => exact .more (inductionHypothesis edit) last

theorem Edits.change {count : Nat} {source target : List Char} (letter other : Char)
    (edits : Edits count source target) :
    Edits (count + if letter = other then 0 else 1) (letter :: source) (other :: target) := by
  split
  · next same =>
      subst same
      exact edits.later letter
  · exact .first (.change letter other source) (edits.later other)

/-- The last row holds the distances from the whole text to every ending of the other. -/
def lastRow (source target : List Char) : List Nat :=
  source.foldr (fun letter below => distanceRow letter target below) (emptyRow target)

theorem editDistance_eq (source target : List Char) :
    editDistance source target = (lastRow source target).headD 0 := rfl

/-- The distances to the shorter endings do not depend on what stands before them. -/
theorem tail_lastRow (source : List Char) (letter : Char) (rest : List Char) :
    (lastRow source (letter :: rest)).tail = lastRow source rest := by
  induction source with
  | nil => rfl
  | cons first source inductionHypothesis =>
      change distanceRow first rest (lastRow source (letter :: rest)).tail =
        distanceRow first rest (lastRow source rest)
      rw [inductionHypothesis]

@[simp] theorem editDistance_nil (target : List Char) :
    editDistance [] target = target.length := by
  cases target <;> rfl

@[simp] theorem editDistance_cons_nil (letter : Char) (source : List Char) :
    editDistance (letter :: source) [] = editDistance source [] + 1 := rfl

/-- The first letters are put in each other's place, or else one of them is left out. -/
theorem editDistance_cons_cons (letter other : Char) (source target : List Char) :
    editDistance (letter :: source) (other :: target) =
      min (editDistance source target + if letter = other then 0 else 1)
        (min (editDistance source (other :: target))
          (editDistance (letter :: source) target) + 1) := by
  have row : lastRow (letter :: source) (other :: target) =
      distanceRow letter (other :: target) (lastRow source (other :: target)) := rfl
  rw [editDistance_eq, row, distanceRow, tail_lastRow]
  rfl

/-- So many edits suffice. -/
theorem edits_editDistance (source target : List Char) :
    Edits (editDistance source target) source target := by
  induction source generalizing target with
  | nil =>
      induction target with
      | nil => exact .none []
      | cons other target inserted => simpa using inserted.more (.insert other target)
  | cons letter source deleted =>
      induction target with
      | nil => exact .first (.delete letter source) (deleted [])
      | cons other target inserted =>
          rw [editDistance_cons_cons]
          refine min_rec' (Edits · (letter :: source) (other :: target))
            ((deleted target).change letter other) ?_
          exact min_rec' (fun count => Edits (count + 1) (letter :: source) (other :: target))
            (.first (.delete letter source) (deleted (other :: target)))
            (inserted.more (.insert other target))

theorem editDistance_self (text : List Char) : editDistance text text = 0 := by
  induction text with
  | nil => rfl
  | cons letter rest inductionHypothesis =>
      simp [editDistance_cons_cons, inductionHypothesis]

theorem editDistance_cons_left_le (letter : Char) (source target : List Char) :
    editDistance (letter :: source) target ≤ editDistance source target + 1 := by
  cases target with
  | nil => simp
  | cons other target =>
      rw [editDistance_cons_cons]
      omega

theorem editDistance_insert_le (source : List Char) (letter : Char) (rest : List Char) :
    editDistance source (letter :: rest) ≤ editDistance source rest + 1 := by
  cases source with
  | nil => simp
  | cons first source =>
      rw [editDistance_cons_cons]
      omega

theorem editDistance_delete_le (source : List Char) (letter : Char) (rest : List Char) :
    editDistance source rest ≤ editDistance source (letter :: rest) + 1 := by
  induction source with
  | nil => simp; omega
  | cons first source inductionHypothesis =>
      have deleted := editDistance_cons_left_le first source rest
      rw [editDistance_cons_cons]
      omega

theorem editDistance_change_le (source : List Char) (letter other : Char) (rest : List Char) :
    editDistance source (other :: rest) ≤ editDistance source (letter :: rest) + 1 := by
  induction source with
  | nil => simp
  | cons first source inductionHypothesis =>
      rw [editDistance_cons_cons, editDistance_cons_cons]
      split <;> split <;> omega

/-- A single edit of the other text moves it away by one at most. -/
theorem Edit.editDistance_le {before after : List Char} (edit : Edit before after)
    (source : List Char) : editDistance source after ≤ editDistance source before + 1 := by
  induction edit generalizing source with
  | insert letter rest => exact editDistance_insert_le source letter rest
  | delete letter rest => exact editDistance_delete_le source letter rest
  | change letter other rest => exact editDistance_change_le source letter other rest
  | @later letter before after _ inductionHypothesis =>
      -- The letter in front is met by each letter of the source in turn.
      induction source with
      | nil => simpa using inductionHypothesis []
      | cons first source shorter =>
          have kept := inductionHypothesis source
          have inserted := inductionHypothesis (first :: source)
          rw [editDistance_cons_cons, editDistance_cons_cons]
          omega

/-- Fewer edits do not suffice. -/
theorem Edits.editDistance_le {count : Nat} {source target : List Char}
    (edits : Edits count source target) : editDistance source target ≤ count := by
  induction edits with
  | none text => rw [editDistance_self]
  | more _ edit inductionHypothesis =>
      exact (edit.editDistance_le _).trans (Nat.add_le_add_right inductionHypothesis 1)

/-- The edit distance is the least number of edits from one text to the other. -/
theorem editDistance_isLeast (source target : List Char) :
    IsLeast {count | Edits count source target} (editDistance source target) :=
  ⟨edits_editDistance source target, fun _ edits => Edits.editDistance_le edits⟩

theorem editDistance_eq_sInf (source target : List Char) :
    editDistance source target = sInf {count | Edits count source target} :=
  (editDistance_isLeast source target).csInf_eq.symm

example : editDistance "kitten".toList "sitting".toList = 3 := by decide

end StorageSchema.Text
