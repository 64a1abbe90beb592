/-
This file classifies the definitions of a document. A definition is live if a chain of references
with a live one among them leads to it from the root, and static otherwise.
-/
import StorageSchema.Document.Usage
import StorageSchema.Sweep

namespace StorageSchema

/-- Every schema is rooted at the definition with this name. -/
def rootName : String := "Storage"

/-- An arrival is a definition at the end of a chain of references, which is live if one of them
is. -/
structure Arrival where
  name : String
  isLive : Bool
  deriving DecidableEq, Repr

/-- A live arrival covers every arrival at its definition, and a plain one covers plain ones. -/
def Arrival.isCoveredBy (log : List Arrival) (arrival : Arrival) : Bool :=
  log.any fun earlier => earlier.name = arrival.name && (earlier.isLive || !arrival.isLive)

variable {Mark : Type}

/-- A usage leads on to a declared definition, and never back to the root. -/
def Document.follow? (document : Document Mark) (arrival : Arrival) (usage : Usage Mark) :
    Option Arrival :=
  if usage.target ≠ rootName ∧ document.declares usage.target then
    some ⟨usage.target, arrival.isLive || usage.isLive⟩
  else none

/-- The usages in a definition lead on from an arrival at it. -/
def Document.departures (document : Document Mark) (arrival : Arrival) : List Arrival :=
  match document.find? arrival.name with
  | some definition => definition.usages.filterMap (document.follow? arrival)
  | none => []

/-- The sweep begins at the root, and it can enter every other definition twice. -/
def Document.sweep (document : Document Mark) : Sweep Arrival :=
  Sweep.run Arrival.isCoveredBy document.departures (2 * document.definitions.length + 1)
    (Sweep.empty.enter Arrival.isCoveredBy ⟨rootName, false⟩)

/-- These are the names of the live definitions other than the root. -/
def Document.liveNames (document : Document Mark) : List String :=
  (document.sweep.entered.filter Arrival.isLive).map Arrival.name

/-- A definition is static in view of the live names, unless it is the root. -/
def Definition.isStatic (liveNames : List String) (definition : Definition Mark) : Bool :=
  definition.name.text != rootName && !liveNames.contains definition.name.text

end StorageSchema
