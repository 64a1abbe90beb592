/-
This file lists all problems of a document, in the order of the passes and then of the text.
-/
import StorageSchema.Check.Problem
import StorageSchema.Check.StaticCycle

namespace StorageSchema

variable {Mark : Type}

/-- No name may be a reserved one in any case. -/
def Name.reservedProblems (name : Name Mark) : List (Problem Mark) :=
  if reservedNames.contains (lowercase name.text) then [⟨name.mark, .reservedName name.text⟩]
  else []

/-- This function lists the fields whose names have been seen before in the definition. -/
def Field.repeatedProblems (type : String) (seen : List String) :
    List (Field Mark) → List (Problem Mark)
  | [] => []
  | field :: rest =>
      let others := repeatedProblems type (field.name.text :: seen) rest
      if seen.contains field.name.text then
        ⟨field.name.mark, .repeatedField field.name.text type⟩ :: others
      else others

/-- A definition must have a free name and distinct fields. -/
def Definition.nameProblems (seen : List String) (definition : Definition Mark) :
    List (Problem Mark) :=
  definition.name.reservedProblems ++
    (if seen.contains definition.name.text then
      [⟨definition.name.mark, .repeatedType definition.name.text⟩]
    else []) ++
    Field.repeatedProblems definition.name.text [] definition.fields

/-- This function checks the names of definitions after those that have been seen. -/
def Definition.allNameProblems (seen : List String) :
    List (Definition Mark) → List (Problem Mark)
  | [] => []
  | definition :: rest =>
      definition.nameProblems seen ++ allNameProblems (definition.name.text :: seen) rest

/-- A document must declare the root. -/
def Document.rootProblems (document : Document Mark) : List (Problem Mark) :=
  if document.declares rootName then [] else [⟨document.mark, .missingRoot⟩]

/-- The keys of a live map are strings. -/
def TypeExpr.keyProblems (key : TypeExpr Mark) : List (Problem Mark) :=
  if key.scalar? = some .string then [] else [⟨key.mark, .mapKey⟩]

/-- A reference must name one of the declared definitions. -/
def Reference.problems (declared : List String) (reference : Reference Mark) :
    List (Problem Mark) :=
  let name := reference.name.text
  if declared.contains name then []
  else [⟨reference.name.mark, .unknownType name (suggestions name declared)⟩]

mutual

/-- The problems of a key come before those inside it, and those before the ones of its value. -/
def TypeExpr.problems (declared : List String) : TypeExpr Mark → List (Problem Mark)
  | .reference named => named.problems declared
  | .array _ item => item.problems declared
  | .liveList _ item => item.problems declared
  | .liveMap _ key value => key.keyProblems ++ key.problems declared ++ value.problems declared
  | .union _ members => TypeExpr.problemsAll declared members
  | _ => []

def TypeExpr.problemsAll (declared : List String) : List (TypeExpr Mark) → List (Problem Mark)
  | [] => []
  | member :: rest => member.problems declared ++ TypeExpr.problemsAll declared rest

end

/-- A name that is declared twice is listed twice. -/
def Document.declaredNames (document : Document Mark) : List String :=
  document.definitions.map fun definition => definition.name.text

/-- All field types are checked against all declared names. -/
def Document.typeProblems (document : Document Mark) : List (Problem Mark) :=
  let declared := document.declaredNames
  document.fieldTypes.flatMap (TypeExpr.problems declared)

/-- A cycle is reported at the name of its first member. -/
def Document.cycleProblem? (document : Document Mark) (members : List String) :
    Option (Problem Mark) := do
  let first ← members.head?
  let definition ← document.find? first
  some ⟨definition.name.mark, .staticCycle members⟩

/-- Cycles are looked for only if there is a root to classify from. -/
def Document.cycleProblems (document : Document Mark) : List (Problem Mark) :=
  if document.declares rootName then
    document.staticCycles.filterMap document.cycleProblem?
  else []

/-- Names are checked first, then the root, then the types, and cycles last. -/
def Document.problems (document : Document Mark) : List (Problem Mark) :=
  Definition.allNameProblems [] document.definitions ++ document.rootProblems ++
    document.typeProblems ++ document.cycleProblems

end StorageSchema
