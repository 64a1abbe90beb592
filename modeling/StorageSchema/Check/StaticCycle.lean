/-
This file finds the cycles of plain references among static definitions.
-/
import StorageSchema.Check.Classification
import StorageSchema.Graph

namespace StorageSchema

variable {Mark : Type}

/-- This function keeps the first definition of each name that has not been seen. -/
def Definition.firsts (seen : List String) : List (Definition Mark) → List (Definition Mark)
  | [] => []
  | definition :: rest =>
      if seen.contains definition.name.text then firsts seen rest
      else definition :: firsts (definition.name.text :: seen) rest

/-- The static definitions of a document have distinct names. -/
def Document.staticDefinitions (document : Document Mark) : List (Definition Mark) :=
  let liveNames := document.liveNames
  (Definition.firsts [] document.definitions).filter (Definition.isStatic liveNames)

/-- The plain targets of a definition are the listed names that it uses without a wrapper. -/
def Definition.plainTargets (names : List String) (definition : Definition Mark) : List String :=
  (definition.usages.filter fun usage => !usage.isLive && names.contains usage.target).map
    Usage.target

/-- The plain references among some definitions are the edges of a graph. -/
def Definition.plainGraph (definitions : List (Definition Mark)) : Graph :=
  let names := definitions.map fun definition => definition.name.text
  ⟨definitions.map fun definition => (definition.name.text, definition.plainTargets names)⟩

/-- The static graph has the plain references among static definitions as its edges. -/
def Document.staticGraph (document : Document Mark) : Graph :=
  Definition.plainGraph document.staticDefinitions

/-- These are the names on cycles of the static graph, one list for each component. The search for
them always has an answer. -/
def Document.staticCycles (document : Document Mark) : List (List String) :=
  document.staticGraph.searchCycles?.getD []

end StorageSchema
