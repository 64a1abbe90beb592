/-
This file finds the strongly connected components of a graph with numbered nodes. The search goes
depth first and keeps its own stacks, so that no chain of nodes is too long for it.
-/

namespace StorageSchema

/-- This function replaces an item of an array, which must be there. -/
def replace? {Item : Type} (items : Array Item) (place : Nat) (item : Item) :
    Option (Array Item) :=
  if inside : place < items.size then some (items.set place item inside) else none

/-- A search gives each node an index when it first comes to it, and the node is stacked until its
component is complete. The low link of a node is the least index of a stacked node that it is known
to lead to. The work holds the nodes that are not finished, each with the place of the edge to
follow next. The stack and the work have their latest entry first. -/
structure ComponentSearch where
  nextIndex : Nat
  index : Array (Option Nat)
  lowlink : Array Nat
  onStack : Array Bool
  stack : List Nat
  components : List (List Nat)
  work : List (Nat × Nat)
  deriving DecidableEq, Repr

/-- In the beginning no node has an index. -/
def ComponentSearch.empty (count : Nat) : ComponentSearch :=
  ⟨0, Array.replicate count none, Array.replicate count 0, Array.replicate count false, [], [], []⟩

/-- A node that is discovered gets the next index and is put on the stack. -/
def ComponentSearch.discover? (search : ComponentSearch) (node : Nat) :
    Option ComponentSearch := do
  let index ← replace? search.index node (some search.nextIndex)
  let lowlink ← replace? search.lowlink node search.nextIndex
  let onStack ← replace? search.onStack node true
  some { search with
    nextIndex := search.nextIndex + 1
    index := index
    lowlink := lowlink
    onStack := onStack
    stack := node :: search.stack }

/-- This function makes the low link of a node no greater than the bound. -/
def ComponentSearch.lower? (search : ComponentSearch) (node bound : Nat) :
    Option ComponentSearch := do
  let low ← search.lowlink[node]?
  let lowlink ← replace? search.lowlink node (min low bound)
  some { search with lowlink := lowlink }

/-- An edge is followed to a node without index, and one to a stacked node lowers the low link. -/
def ComponentSearch.follow? (search : ComponentSearch) (node target : Nat) :
    Option ComponentSearch := do
  match ← search.index[target]? with
  | none => some { search with work := (target, 0) :: search.work }
  | some number =>
      if ← search.onStack[target]? then search.lower? node number else some search

/-- This function takes nodes off the stack, up to the given one. -/
def ComponentSearch.popThrough? (node : Nat) :
    List Nat → Array Bool → Option (List Nat × List Nat × Array Bool)
  | [], onStack => some ([], [], onStack)
  | top :: rest, onStack => do
      let onStack ← replace? onStack top false
      if top = node then some ([top], rest, onStack)
      else
        let (popped, left, onStack) ← popThrough? node rest onStack
        some (top :: popped, left, onStack)

/-- The nodes from the given one to the top of the stack are a component. -/
def ComponentSearch.complete? (search : ComponentSearch) (node : Nat) :
    Option ComponentSearch := do
  let (popped, left, onStack) ← popThrough? node search.stack search.onStack
  some { search with
    onStack := onStack
    stack := left
    components := search.components ++ [popped] }

/-- The low link of a finished node is passed on to the node that it was entered from. -/
def ComponentSearch.passOn? (search : ComponentSearch) (node : Nat) : Option ComponentSearch :=
  match search.work with
  | [] => some search
  | (parent, _) :: _ => do
      let low ← search.lowlink[node]?
      search.lower? parent low

/-- A finished node completes a component if its low link is its own index. -/
def ComponentSearch.finish? (search : ComponentSearch) (node : Nat) :
    Option ComponentSearch := do
  let low ← search.lowlink[node]?
  let number ← search.index[node]?
  let closed ← if some low = number then search.complete? node else some search
  closed.passOn? node

/-- A node without any edge followed so far is discovered. -/
def ComponentSearch.begin? (search : ComponentSearch) (node place : Nat) :
    Option ComponentSearch :=
  if place = 0 then search.discover? node else some search

/-- This function follows the next edge of a node, or finishes the node after its last edge. -/
def ComponentSearch.advance? (edges : Array (List Nat)) (search : ComponentSearch)
    (node place : Nat) : Option ComponentSearch := do
  let targets ← edges[node]?
  match targets[place]? with
  | some target =>
      ComponentSearch.follow? { search with work := (node, place + 1) :: search.work } node target
  | none => search.finish? node

/-- This function goes on until no work is left, for a number of rounds that must be enough. -/
def ComponentSearch.run? (edges : Array (List Nat)) :
    Nat → ComponentSearch → Option ComponentSearch
  | rounds, search =>
      match search.work, rounds with
      | [], _ => some search
      | _ :: _, 0 => none
      | (node, place) :: rest, rounds + 1 => do
          let search ← ComponentSearch.begin? { search with work := rest } node place
          let search ← search.advance? edges node place
          run? edges rounds search

/-- Every node takes one round, and every edge another. -/
def ComponentSearch.roundBound (edges : Array (List Nat)) : Nat :=
  edges.toList.foldr (fun targets rounds => targets.length + 1 + rounds) 0

/-- A node is searched from unless it has been discovered. -/
def ComponentSearch.visit? (edges : Array (List Nat)) (search : ComponentSearch) (start : Nat) :
    Option ComponentSearch := do
  match ← search.index[start]? with
  | some _ => some search
  | none =>
      run? edges (roundBound edges) { search with work := (start, 0) :: search.work }

/-- The components of a graph are found from all nodes in their order. -/
def stronglyConnectedComponents? (edges : Array (List Nat)) : Option (List (List Nat)) := do
  let search ← (List.range edges.size).foldlM (ComponentSearch.visit? edges)
    (ComponentSearch.empty edges.size)
  some search.components

/-- This function puts an item before the first one with a key that is not smaller. -/
def insertByKey {Item : Type} (key : Item → Nat) (item : Item) : List Item → List Item
  | [] => [item]
  | first :: rest =>
      if key item ≤ key first then item :: first :: rest
      else first :: insertByKey key item rest

/-- This function sorts items by their keys, smallest first. -/
def sortByKey {Item : Type} (key : Item → Nat) (items : List Item) : List Item :=
  items.foldr (insertByKey key) []

/-- The nodes of each component are sorted, and then the components by their first nodes, which must
be there. -/
def sortedComponents? (components : List (List Nat)) : Option (List (Nat × List Nat)) := do
  let entries ← (components.map (sortByKey id)).mapM fun component =>
    (component[0]?).map fun first => (first, component)
  some (sortByKey Prod.fst entries)

end StorageSchema
