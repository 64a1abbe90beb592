/-
This file defines the cycles of a graph from what can be reached, and proves that they are its
strongly connected components that hold a cycle, each listed once and in the order of the nodes.
-/
import Mathlib.Data.List.Nodup
import StorageSchema.Graph
import StorageSchema.Proofs.Sweep

namespace StorageSchema

open Relation (TransGen ReflTransGen)

/-- A node that is not listed has no targets. -/
def Graph.targets (graph : Graph) (node : String) : List String :=
  (graph.edges.lookup node).getD []

/-- Every edge is counted by its end. -/
def Graph.edgeCount (graph : Graph) : Nat := (graph.edges.flatMap Prod.snd).length

/-- The nodes that a path of at least one edge leads to are swept from the targets of its beginning.
Each of them ends an edge, so there are no more steps than edges. -/
def Graph.reachableFrom (graph : Graph) (node : String) : List String :=
  (Sweep.run List.contains graph.targets graph.edgeCount
    (Sweep.empty.enterAll List.contains (graph.targets node))).entered

/-- The closure of a graph has an edge for every path of at least one edge. -/
def Graph.closure (graph : Graph) : Graph :=
  ⟨graph.edges.map fun edge => (edge.1, graph.reachableFrom edge.1)⟩

/-- In a closure, the component of a node holds the nodes that lead to it and that it leads to. The
component is empty if no cycle passes through the node. -/
def Graph.component (closure : Graph) (node : String) : List String :=
  let reachable := closure.targets node
  closure.nodes.filter fun other =>
    reachable.contains other && (closure.targets other).contains node

/-- Every component with a cycle is listed once, at its first node. -/
def Graph.cycles (graph : Graph) : List (List String) :=
  let closure := graph.closure
  closure.nodes.filterMap fun node =>
    let members := closure.component node
    if members.head? = some node then some members else none

/-- An edge leads from a node to one of its targets. -/
def Graph.Edge (graph : Graph) (source target : String) : Prop := target ∈ graph.targets source

/-- A cyclic component lists in their order all nodes that lead to each other. It has several
members, or else a single one with an edge to itself. -/
structure CyclicComponent (nodes : List String) (Edge : String → String → Prop)
    (members : List String) : Prop where
  ordered : members.Sublist nodes
  strong : ∀ member ∈ members, ∀ other,
    other ∈ members ↔ ReflTransGen Edge member other ∧ ReflTransGen Edge other member
  cyclic : 2 ≤ members.length ∨ ∃ only, members = [only] ∧ Edge only only

/-- Parts of an order without repetition are equal if they have the same members. -/
theorem eq_of_sublists {order first second : List String} (distinct : order.Nodup)
    (firstOrdered : first.Sublist order) (secondOrdered : second.Sublist order)
    (same : ∀ name, name ∈ first ↔ name ∈ second) : first = second := by
  have filtered (part : List String) (ordered : part.Sublist order) :
      part = order.filter (fun name => decide (name ∈ part)) := by
    have sub := ordered.filter (fun name => decide (name ∈ part))
    rw [List.filter_eq_self.2 (by simp)] at sub
    apply sub.eq_of_length_le
    exact (List.subperm_of_subset (distinct.filter _) (fun name => by simp)).length_le
  rw [filtered first firstOrdered, filtered second secondOrdered]
  simp only [same]

/-- The list of an item is found by its key. -/
theorem lookup_map {Item : Type} (key : Item → String) (value : Item → List String)
    (items : List Item) (name : String) :
    (items.map fun item => (key item, value item)).lookup name =
      (items.find? fun item => key item = name).map value := by
  induction items with
  | nil => rfl
  | cons item rest inductionHypothesis =>
      rw [List.map_cons, List.lookup_cons, List.find?_cons]
      by_cases same : key item = name
      · simp [same]
      · have different : (name == key item) = false := beq_eq_false_iff_ne.2 (Ne.symm same)
        simp only [different, same, decide_false]
        exact inductionHypothesis

theorem CyclicComponent.exists_mem {nodes : List String} {Edge : String → String → Prop}
    {members : List String} (component : CyclicComponent nodes Edge members) :
    ∃ member, member ∈ members := by
  rcases component.cyclic with several | single
  · exact List.exists_mem_of_length_pos (by omega)
  · obtain ⟨only, rfl, -⟩ := single
    exact ⟨only, by simp⟩

/-- Every member of a cyclic component leads to itself by at least one edge. -/
theorem CyclicComponent.loop {nodes : List String} {Edge : String → String → Prop}
    {members : List String} (component : CyclicComponent nodes Edge members)
    (distinct : nodes.Nodup) {member : String} (isMember : member ∈ members) :
    TransGen Edge member member := by
  rcases component.cyclic with several | single
  · have others : ∃ other ∈ members, other ≠ member := by
      by_contra none
      have all : members ⊆ [member] := by
        intro other isOther
        by_contra different
        exact none ⟨other, isOther, by simpa using different⟩
      have short :=
        (List.subperm_of_subset (distinct.sublist component.ordered) all).length_le
      simp only [List.length_singleton] at short
      omega
    obtain ⟨other, isOther, different⟩ := others
    obtain ⟨forward, backward⟩ := (component.strong member isMember other).1 isOther
    rcases Relation.reflTransGen_iff_eq_or_transGen.1 forward with same | path
    · exact absurd same different
    · exact path.trans_left backward
  · obtain ⟨only, rfl, edge⟩ := single
    obtain rfl := List.mem_singleton.1 isMember
    exact .single edge

/-- Nodes without edges are on no cyclic component. -/
theorem cyclicComponent_filter_iff {nodes : List String} {Edge : String → String → Prop}
    (distinct : nodes.Nodup) (kept : String → Bool)
    (edgesKept : ∀ source target, Edge source target → kept source = true)
    (members : List String) :
    CyclicComponent (nodes.filter kept) Edge members ↔ CyclicComponent nodes Edge members := by
  constructor
  · intro component
    exact ⟨component.ordered.trans List.filter_sublist, component.strong, component.cyclic⟩
  · intro component
    have allKept : members.filter kept = members := by
      rw [List.filter_eq_self]
      intro member isMember
      obtain ⟨next, edge, -⟩ :=
        Relation.TransGen.head'_iff.1 (component.loop distinct isMember)
      exact edgesKept member next edge
    exact ⟨allKept ▸ component.ordered.filter kept, component.strong, component.cyclic⟩

namespace Graph

variable {graph : Graph} {node other : String}

theorem mem_targets_iff (graph : Graph) (node target : String) :
    graph.Edge node target ↔
      ∃ targets, graph.edges.lookup node = some targets ∧ target ∈ targets := by
  rw [Edge, Graph.targets]
  cases graph.edges.lookup node <;> simp

theorem mem_edges_of_lookup {targets : List String}
    (found : graph.edges.lookup node = some targets) : (node, targets) ∈ graph.edges := by
  obtain ⟨before, after, split, -⟩ := List.lookup_eq_some_iff.1 found
  simp [split]

theorem Edge.mem_nodes (edge : graph.Edge node other) : node ∈ graph.nodes := by
  obtain ⟨targets, found, -⟩ := (graph.mem_targets_iff node other).1 edge
  exact List.mem_map.2 ⟨_, mem_edges_of_lookup found, rfl⟩

theorem mem_nodes_of_path (path : TransGen graph.Edge node other) : node ∈ graph.nodes := by
  obtain ⟨_, edge, -⟩ := Relation.TransGen.head'_iff.1 path
  exact edge.mem_nodes

/-- Nodes of the log are compared by equality. -/
theorem targets_fits (graph : Graph) :
    Sweep.Fits (List.contains : List String → String → Bool) graph.targets Eq := by
  constructor
  · intro log name
    simp
  · intro name
    rfl
  · intro first second third firstSame secondSame
    exact firstSame.trans secondSame
  · intro first second same target isTarget
    exact ⟨target, same ▸ isTarget, rfl⟩

/-- Every node that is reached from the targets of a node ends an edge. -/
theorem reached_bounded (graph : Graph) (node : String) (log : List String)
    (distinct : log.Nodup)
    (reached : ∀ name ∈ log, Sweep.Reached graph.targets (graph.targets node) name) :
    log.length ≤ graph.edgeCount := by
  have ending (source target : String) (edge : graph.Edge source target) :
      target ∈ graph.edges.flatMap Prod.snd := by
    obtain ⟨targets, found, isTarget⟩ := (graph.mem_targets_iff source target).1 edge
    exact List.mem_flatMap.2 ⟨_, mem_edges_of_lookup found, isTarget⟩
  have within : log ⊆ graph.edges.flatMap Prod.snd := by
    intro name present
    obtain ⟨seed, isSeed, path⟩ := reached name present
    cases path with
    | refl => exact ending node name isSeed
    | @tail middle _ _ edge => exact ending middle name edge
  exact (List.subperm_of_subset distinct within).length_le

/-- The sweep from a node finds what paths of at least one edge lead to. -/
theorem mem_reachableFrom_iff (graph : Graph) (node other : String) :
    other ∈ graph.reachableFrom node ↔ TransGen graph.Edge node other := by
  have swept : Sweep.Invariant List.contains graph.targets (graph.targets node) _ ∧ _ :=
    Sweep.run_seeds graph.targets_fits (graph.reached_bounded node)
  obtain ⟨invariant, finished⟩ := swept
  have paths : Sweep.Reached graph.targets (graph.targets node) other ↔
      TransGen graph.Edge node other := by
    rw [Relation.TransGen.head'_iff]
    rfl
  rw [← paths]
  constructor
  · intro present
    exact invariant.reached other present
  · intro reached
    have covered := invariant.covers_of_reached graph.targets_fits finished reached
    rw [reachableFrom]
    simpa using covered

theorem nodes_closure (graph : Graph) : graph.closure.nodes = graph.nodes := by
  simp [closure, nodes, Function.comp_def]

/-- The edges of the closure are the paths of at least one edge. -/
theorem edge_closure_iff (graph : Graph) (node other : String) :
    graph.closure.Edge node other ↔ TransGen graph.Edge node other := by
  have looked : graph.closure.edges.lookup node =
      (graph.edges.find? fun edge => edge.1 = node).map fun edge =>
        graph.reachableFrom edge.1 :=
    lookup_map Prod.fst (fun edge => graph.reachableFrom edge.1) graph.edges node
  rw [mem_targets_iff, looked, ← mem_reachableFrom_iff]
  cases found : graph.edges.find? fun edge => edge.1 = node with
  | none =>
      have unlisted : node ∉ graph.nodes := by
        intro listed
        obtain ⟨edge, isEdge, named⟩ := List.mem_map.1 listed
        exact List.find?_eq_none.1 found edge isEdge (by simpa using named)
      have none : other ∉ graph.reachableFrom node := by
        intro present
        exact unlisted (mem_nodes_of_path ((graph.mem_reachableFrom_iff node other).1 present))
      simp [none]
  | some edge =>
      have named : edge.1 = node := by simpa using List.find?_some found
      simp [named]

/-- The component of a node holds the nodes that lead to it and that it leads to. -/
theorem mem_component_iff (graph : Graph) (node other : String) :
    other ∈ graph.closure.component node ↔
      TransGen graph.Edge node other ∧ TransGen graph.Edge other node := by
  rw [component, nodes_closure]
  simp only [List.mem_filter, Bool.and_eq_true, List.contains_iff_mem]
  change _ ∧ graph.closure.Edge node other ∧ graph.closure.Edge other node ↔ _
  rw [edge_closure_iff, edge_closure_iff]
  constructor
  · intro present
    exact present.2
  · intro paths
    exact ⟨mem_nodes_of_path paths.2, paths⟩

theorem component_ordered (graph : Graph) (node : String) :
    (graph.closure.component node).Sublist graph.nodes := by
  rw [component, nodes_closure]
  exact List.filter_sublist

/-- All members of a component have it as their own. -/
theorem component_eq (distinct : graph.nodes.Nodup)
    (present : other ∈ graph.closure.component node) :
    graph.closure.component other = graph.closure.component node := by
  obtain ⟨forward, backward⟩ := (graph.mem_component_iff node other).1 present
  apply eq_of_sublists distinct (graph.component_ordered other) (graph.component_ordered node)
  intro name
  rw [mem_component_iff, mem_component_iff]
  constructor
  · intro paths
    exact ⟨forward.trans paths.1, paths.2.trans backward⟩
  · intro paths
    exact ⟨backward.trans paths.1, paths.2.trans forward⟩

/-- A component is listed at the node that it begins with. -/
theorem cycles_eq (graph : Graph) :
    graph.cycles = graph.nodes.filterMap fun node =>
      if (graph.closure.component node).head? = some node
        then some (graph.closure.component node) else none := by
  simp only [cycles, nodes_closure]

/-- The cycles are the components that are not empty. -/
theorem mem_cycles_iff_component (distinct : graph.nodes.Nodup) (members : List String) :
    members ∈ graph.cycles ↔
      ∃ node ∈ members, members = graph.closure.component node := by
  rw [cycles_eq, List.mem_filterMap]
  simp only [Option.ite_none_right_eq_some, Option.some.injEq]
  constructor
  · intro found
    obtain ⟨node, -, head, rfl⟩ := found
    exact ⟨node, List.mem_of_head? head, rfl⟩
  · intro found
    obtain ⟨node, present, rfl⟩ := found
    cases head : (graph.closure.component node).head? with
    | none => simp [List.head?_eq_none_iff.1 head] at present
    | some first =>
        have isMember := List.mem_of_head? head
        have same := component_eq distinct isMember
        exact ⟨first, (graph.component_ordered node).subset isMember, same.symm ▸ head, same⟩

/-- A component that is not empty is a cyclic component. -/
theorem cyclicComponent_component (present : node ∈ graph.closure.component node) :
    CyclicComponent graph.nodes graph.Edge (graph.closure.component node) := by
  constructor
  · exact graph.component_ordered node
  · intro member isMember name
    obtain ⟨forward, backward⟩ := (graph.mem_component_iff node member).1 isMember
    rw [mem_component_iff]
    constructor
    · intro paths
      exact ⟨(backward.trans paths.1).to_reflTransGen, (paths.2.trans forward).to_reflTransGen⟩
    · intro paths
      exact ⟨forward.trans_left paths.1, Relation.TransGen.trans_right paths.2 backward⟩
  · rcases members : graph.closure.component node with _ | ⟨first, _ | ⟨second, rest⟩⟩
    · simp [members] at present
    · right
      obtain rfl : node = first := by simpa [members] using present
      have loop := ((graph.mem_component_iff node node).1 present).1
      obtain ⟨next, edge, back⟩ := Relation.TransGen.head'_iff.1 loop
      have onLoop : next ∈ graph.closure.component node :=
        (graph.mem_component_iff node next).2
          ⟨.single edge, Relation.TransGen.trans_right back loop⟩
      obtain rfl : next = node := by simpa [members] using onLoop
      exact ⟨next, rfl, edge⟩
    · left
      simp

/-- The cycles of a graph are its cyclic components. -/
theorem mem_cycles_iff (distinct : graph.nodes.Nodup) (members : List String) :
    members ∈ graph.cycles ↔ CyclicComponent graph.nodes graph.Edge members := by
  rw [mem_cycles_iff_component distinct]
  constructor
  · intro found
    obtain ⟨node, present, rfl⟩ := found
    exact cyclicComponent_component present
  · intro component
    obtain ⟨member, isMember⟩ := component.exists_mem
    have loop := component.loop distinct isMember
    refine ⟨member, isMember, ?_⟩
    apply eq_of_sublists distinct component.ordered (graph.component_ordered member)
    intro name
    rw [component.strong member isMember name, mem_component_iff]
    constructor
    · intro paths
      exact ⟨loop.trans_left paths.1, Relation.TransGen.trans_right paths.2 loop⟩
    · intro paths
      exact ⟨paths.1.to_reflTransGen, paths.2.to_reflTransGen⟩

/-- A node is on a cycle if a path of at least one edge leads back to it. -/
theorem exists_cycle_of_loop (distinct : graph.nodes.Nodup) (loop : TransGen graph.Edge node node) :
    ∃ members ∈ graph.cycles, node ∈ members := by
  have present := (graph.mem_component_iff node node).2 ⟨loop, loop⟩
  have cycle := (mem_cycles_iff_component distinct _).2 ⟨node, present, rfl⟩
  exact ⟨graph.closure.component node, cycle, present⟩

/-- The first members of the cycles come in the order of the nodes. -/
theorem heads_ordered (graph : Graph) :
    (graph.cycles.filterMap List.head?).Sublist graph.nodes := by
  have guarded (node : String) :
      (if (graph.closure.component node).head? = some node
        then some (graph.closure.component node) else none).bind List.head? =
        Option.guard (fun name => decide ((graph.closure.component name).head? = some name))
          node := by
    by_cases head : (graph.closure.component node).head? = some node
    · simp [head, Option.guard]
    · simp [head, Option.guard]
  rw [cycles_eq, List.filterMap_filterMap]
  simp only [guarded]
  rw [List.filterMap_eq_filter]
  exact List.filter_sublist

/-- No node is on two cycles. -/
theorem cycles_disjoint (distinct : graph.nodes.Nodup) :
    graph.cycles.Pairwise List.Disjoint := by
  rw [cycles_eq, List.pairwise_filterMap]
  simp only [Option.ite_none_right_eq_some, Option.some.injEq]
  apply List.Pairwise.imp _ distinct
  intro first second different firstMembers firstChosen secondMembers secondChosen
  obtain ⟨firstHead, rfl⟩ := firstChosen
  obtain ⟨secondHead, rfl⟩ := secondChosen
  intro name inFirst inSecond
  have same : graph.closure.component first = graph.closure.component second :=
    (component_eq distinct inFirst).symm.trans (component_eq distinct inSecond)
  rw [same, secondHead] at firstHead
  exact different (Option.some.inj firstHead).symm

/-- If a part of a graph has all edges that lead to its nodes, then it has all paths to them. -/
theorem path_of_part {part : Graph}
    (edges : ∀ source target,
      part.Edge source target ↔ graph.Edge source target ∧ target ∈ part.nodes)
    (path : TransGen graph.Edge node other) (kept : other ∈ part.nodes) :
    TransGen part.Edge node other := by
  induction path using TransGen.head_induction_on with
  | single edge => exact .single ((edges _ _).2 ⟨edge, kept⟩)
  | head edge _ inductionHypothesis =>
      exact .head ((edges _ _).2 ⟨edge, mem_nodes_of_path inductionHypothesis⟩) inductionHypothesis

/-- A part of a graph that has all edges that lead to its nodes has some of its cycles, and no
others. -/
theorem cycles_sublist {part : Graph} (distinct : graph.nodes.Nodup)
    (ordered : part.nodes.Sublist graph.nodes)
    (edges : ∀ source target,
      part.Edge source target ↔ graph.Edge source target ∧ target ∈ part.nodes) :
    part.cycles.Sublist graph.cycles := by
  have whole {source target : String} (path : TransGen part.Edge source target) :
      TransGen graph.Edge source target :=
    TransGen.mono (fun source target edge => ((edges source target).1 edge).1) _ _ path
  have components (name : String) (kept : name ∈ part.nodes) :
      part.closure.component name = graph.closure.component name := by
    apply eq_of_sublists distinct ((part.component_ordered name).trans ordered)
      (graph.component_ordered name)
    intro member
    rw [mem_component_iff, mem_component_iff]
    constructor
    · intro paths
      exact ⟨whole paths.1, whole paths.2⟩
    · intro paths
      have back := path_of_part edges paths.2 kept
      exact ⟨path_of_part edges paths.1 (mem_nodes_of_path back), back⟩
  have same : part.cycles = part.nodes.filterMap fun name =>
      if (graph.closure.component name).head? = some name
        then some (graph.closure.component name) else none := by
    rw [cycles_eq]
    apply List.filterMap_congr
    intro name kept
    rw [components name kept]
  rw [same, cycles_eq]
  exact ordered.filterMap _

end Graph

end StorageSchema
