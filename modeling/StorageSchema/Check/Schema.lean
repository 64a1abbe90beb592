/-
This file holds schemas, which are documents that have been found free of problems.
-/
import StorageSchema.Check.ProblemList
import StorageSchema.Check.Worklist

namespace StorageSchema

/-- A classified definition knows whether it is static. -/
structure ClassifiedDefinition (Mark : Type) where
  definition : Definition Mark
  isStatic : Bool
  deriving DecidableEq

/-- A schema is a document without problems. Besides its root it has the other definitions in the
order of the text. -/
structure Schema (Mark : Type) where
  root : ClassifiedDefinition Mark
  document : Document Mark
  definitions : List (ClassifiedDefinition Mark)
  deriving DecidableEq

variable {Mark Other : Type}

/-- A classified definition keeps its name. -/
def ClassifiedDefinition.name (classified : ClassifiedDefinition Mark) : String :=
  classified.definition.name.text

/-- All definitions of a schema come with the root first. -/
def Schema.all (schema : Schema Mark) : List (ClassifiedDefinition Mark) :=
  schema.root :: schema.definitions

/-- A reference is resolved by its name, wherever it comes from. -/
def Schema.resolve? (schema : Schema Mark) (reference : Reference Other) :
    Option (ClassifiedDefinition Mark) :=
  schema.all.find? fun classified => classified.name = reference.name.text

/-- The classification is put beside the definitions, and the root is never static. -/
def Document.classified (document : Document Mark) (root : Definition Mark) : Schema Mark :=
  let liveNames := document.liveNames
  let others := document.definitions.filter fun definition => definition.name.text != rootName
  ⟨⟨root, false⟩, document,
    others.map fun definition => ⟨definition, definition.isStatic liveNames⟩⟩

/-- A document without problems has a root and is classified. -/
def Document.check (document : Document Mark) :
    Except (List (Problem Mark)) (Schema Mark) :=
  match document.find? rootName, document.problems with
  | some root, [] => .ok (document.classified root)
  | _, problems => .error problems

/-! ### Checking with lookups -/

/-- The cycles among the definitions that are static by a worklist are searched for. Each must have
a first member to be reported at. -/
def Document.searchCycleProblems? (document : Document Mark) (worklist : Worklist) :
    Option (List (Problem Mark)) := do
  let definitions := (Definition.firsts [] document.definitions).filter worklist.isStatic
  let cycles ← (Definition.plainGraph definitions).searchCycles?
  cycles.mapM document.cycleProblem?

/-- The schema is looked up in the table of the first definition of each name. -/
def Document.resolve? (document : Document Mark) (worklist : Worklist) :
    Option (Schema Mark) := do
  let table := (Definition.firsts [] document.definitions).map fun definition =>
    (definition.name.text, ClassifiedDefinition.mk definition (worklist.isStatic definition))
  let others := document.definitions.filter fun definition => definition.name.text != rootName
  let definitions ← others.mapM fun definition => table.lookup definition.name.text
  let root ← table.lookup rootName
  some ⟨root, document, definitions⟩

/-- All passes are made before a document is rejected, except that classes and cycles need a root. A
missing root must have been reported. -/
def Document.check? (document : Document Mark) :
    Option (Except (List (Problem Mark)) (Schema Mark)) := do
  let reported := Definition.allNameProblems [] document.definitions ++ document.rootProblems ++
    document.typeProblems
  if document.declares rootName then
    let worklist ← document.classify?
    match reported ++ (← document.searchCycleProblems? worklist) with
    | [] => (document.resolve? worklist).map Except.ok
    | problems => some (.error problems)
  else
    match reported with
    | [] => none
    | problems => some (.error problems)

end StorageSchema
