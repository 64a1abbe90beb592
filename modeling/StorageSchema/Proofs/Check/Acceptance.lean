/-
This file says when a document is accepted and which problems it has otherwise.
-/
import StorageSchema.Check.Schema
import StorageSchema.Draft

namespace StorageSchema

variable {Mark : Type}

/-- The problems that are reported of an accepted document are none. -/
def Document.reported (document : Document Mark) : List (Problem Mark) :=
  match document.check with
  | .ok _ => []
  | .error problems => problems

theorem Document.problems_ne_nil_of_no_root {document : Document Mark}
    (missing : document.find? rootName = none) : document.problems ≠ [] := by
  have undeclared : document.declares rootName = false := by
    simp [Document.declares, missing]
  simp [Document.problems, Document.rootProblems, undeclared]

/-- A document is accepted if it has a root and no problems. -/
theorem Document.check_eq_ok_iff (document : Document Mark) (schema : Schema Mark) :
    document.check = .ok schema ↔
      ∃ root, document.find? rootName = some root ∧ document.problems = [] ∧
        schema = document.classified root := by
  cases found : document.find? rootName with
  | none => simp [Document.check, found]
  | some root =>
      cases listed : document.problems with
      | nil => simp [Document.check, found, listed, eq_comm]
      | cons first rest => simp [Document.check, found, listed]

/-- A document is rejected with all of its problems, and there are some. -/
theorem Document.check_eq_error_iff (document : Document Mark) (problems : List (Problem Mark)) :
    document.check = .error problems ↔ problems = document.problems ∧ problems ≠ [] := by
  cases found : document.find? rootName with
  | none =>
      have nonempty : document.problems ≠ [] := Document.problems_ne_nil_of_no_root found
      simp only [Document.check, found, Except.error.injEq]
      constructor
      · intro same
        exact ⟨same.symm, same ▸ nonempty⟩
      · intro same
        exact same.1.symm
  | some root =>
      cases listed : document.problems with
      | nil => simp [Document.check, found, listed]
      | cons first rest =>
          simp only [Document.check, found, listed, Except.error.injEq]
          constructor
          · intro same
            exact ⟨same.symm, same ▸ List.cons_ne_nil first rest⟩
          · intro same
            exact same.1.symm

/-- All problems of a document are reported. -/
theorem Document.reported_eq (document : Document Mark) :
    document.reported = document.problems := by
  rw [Document.reported]
  cases checked : document.check with
  | ok schema =>
      obtain ⟨_, _, empty, _⟩ := (document.check_eq_ok_iff schema).1 checked
      exact empty.symm
  | error problems => exact ((document.check_eq_error_iff problems).1 checked).1

/-- These are the names and the classes of the definitions other than the root. -/
def Schema.classes (schema : Schema Mark) : List (String × Bool) :=
  schema.definitions.map fun classified => (classified.name, classified.isStatic)

theorem Schema.exists_of_mem_classes {schema : Schema Mark} {name : String} {isStatic : Bool}
    (present : (name, isStatic) ∈ schema.classes) :
    ∃ classified ∈ schema.definitions, classified.name = name ∧ classified.isStatic = isStatic := by
  obtain ⟨classified, isDefinition, same⟩ := List.mem_map.1 present
  exact ⟨classified, isDefinition, congrArg Prod.fst same, congrArg Prod.snd same⟩

/-- What follows from a view of the document of a text holds if the view can be computed. -/
theorem Document.exists_of_text {Value : Type} {legacy : Bool} {text : String}
    {conclusion : Document Span → Prop} (view : Document Span → Value) (value : Value)
    (computed : (Document.ofText legacy text).toOption.map view = some value)
    (concludes : ∀ document, Document.ofText legacy text = .ok document →
      view document = value → conclusion document) :
    ∃ document, Document.ofText legacy text = .ok document ∧ conclusion document := by
  cases read : Document.ofText legacy text with
  | error _ => simp [read, Except.toOption] at computed
  | ok document =>
      have viewed : view document = value := by simpa [read, Except.toOption] using computed
      exact ⟨document, rfl, concludes document read viewed⟩

/-- These are the names and the classes that a document gets if it is accepted. -/
def Document.classes? (document : Document Mark) : Option (List (String × Bool)) :=
  document.check.toOption.map Schema.classes

theorem Document.exists_schema {document : Document Mark} {classes : List (String × Bool)}
    (computed : document.classes? = some classes) :
    ∃ schema, document.check = .ok schema ∧ schema.classes = classes := by
  rw [Document.classes?] at computed
  cases checked : document.check with
  | error _ => simp [checked, Except.toOption] at computed
  | ok schema => exact ⟨schema, rfl, by simpa [checked, Except.toOption] using computed⟩

end StorageSchema
