/-
This file follows the edges of a graph from node to node until nothing new is entered.
-/

namespace StorageSchema

/-- A sweep logs the nodes that it has entered, latest first, and keeps those pending whose targets
it has not followed. -/
structure Sweep (Node : Type) where
  entered : List Node
  pending : List Node
  deriving DecidableEq, Repr

variable {Node : Type}

/-- A sweep begins with nothing entered. -/
def Sweep.empty : Sweep Node := ⟨[], []⟩

/-- A node is entered unless the log covers it. -/
def Sweep.enter (covers : List Node → Node → Bool) (sweep : Sweep Node) (node : Node) :
    Sweep Node :=
  if covers sweep.entered node then sweep
  else ⟨node :: sweep.entered, node :: sweep.pending⟩

/-- This function enters nodes one after another. -/
def Sweep.enterAll (covers : List Node → Node → Bool) (sweep : Sweep Node) (nodes : List Node) :
    Sweep Node :=
  nodes.foldl (Sweep.enter covers) sweep

/-- A step enters the targets of the node that became pending last. -/
def Sweep.step (covers : List Node → Node → Bool) (targets : Node → List Node)
    (sweep : Sweep Node) : Sweep Node :=
  match sweep.pending with
  | [] => sweep
  | node :: rest => Sweep.enterAll covers ⟨sweep.entered, rest⟩ (targets node)

/-- Each node that is entered takes one step, so a bound on their number bounds the steps. -/
def Sweep.run (covers : List Node → Node → Bool) (targets : Node → List Node) :
    Nat → Sweep Node → Sweep Node
  | 0, sweep => sweep
  | steps + 1, sweep =>
      if sweep.pending.isEmpty then sweep
      else Sweep.run covers targets steps (sweep.step covers targets)

end StorageSchema
