/-
This file holds finite graphs of names and finds the components that contain a cycle.
-/
import StorageSchema.ComponentSearch

namespace StorageSchema

/-- A graph lists its nodes, each with the nodes that its edges lead to. -/
structure Graph where
  edges : List (String × List String)
  deriving DecidableEq, Repr

/-- The nodes are those that have a list of edges. -/
def Graph.nodes (graph : Graph) : List String := graph.edges.map Prod.fst

/-- Each node has the number of its place, and edges to what is not listed are left out. -/
def Graph.numberedEdges (graph : Graph) : Array (List Nat) :=
  (graph.edges.map fun edge =>
    edge.2.filterMap fun target => graph.nodes.idxOf? target).toArray

/-- A component holds a cycle if it has several nodes, or if its first one has an edge to itself. -/
def isCyclic? (edges : Array (List Nat)) (first : Nat) (component : List Nat) : Option Bool :=
  if 1 < component.length then some true
  else (edges[first]?).map fun targets => targets.contains first

/-- The nodes of a component are named again if it holds a cycle. -/
def Graph.nameCycle? (graph : Graph) (edges : Array (List Nat)) (entry : Nat × List Nat) :
    Option (Option (List String)) := do
  if ← isCyclic? edges entry.1 entry.2 then
    let names ← entry.2.mapM fun number => graph.nodes[number]?
    some (some names)
  else some none

/-- The components with a cycle are searched for by number, in the order of their first nodes. -/
def Graph.searchCycles? (graph : Graph) : Option (List (List String)) := do
  let edges := graph.numberedEdges
  let components ← stronglyConnectedComponents? edges
  let sorted ← sortedComponents? components
  let named ← sorted.mapM (graph.nameCycle? edges)
  some (named.filterMap id)

end StorageSchema
