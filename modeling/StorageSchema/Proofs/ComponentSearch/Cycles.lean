/-
This file shows that the search for components finds the cycles of a graph of names. Its components
are sorted, and those with a cycle are named again.
-/
import Mathlib.Data.List.Sort
import StorageSchema.Proofs.ComponentSearch.Run
import StorageSchema.Proofs.Graph

namespace StorageSchema

open Relation (ReflTransGen)

/-! ### Sorting -/

section Sorting

variable {Item : Type} (key : Item → Nat)

theorem perm_insertByKey (item : Item) (items : List Item) :
    (insertByKey key item items).Perm (item :: items) := by
  induction items with
  | nil => exact .refl _
  | cons first rest inductionHypothesis =>
      unfold insertByKey
      split
      · exact .refl _
      · exact (inductionHypothesis.cons first).trans (.swap item first rest)

theorem perm_sortByKey (items : List Item) : (sortByKey key items).Perm items := by
  induction items with
  | nil => exact .refl _
  | cons item rest inductionHypothesis =>
      exact (perm_insertByKey key item _).trans (inductionHypothesis.cons item)

theorem ordered_insertByKey (item : Item) {items : List Item}
    (ordered : items.Pairwise fun first second => key first ≤ key second) :
    (insertByKey key item items).Pairwise fun first second => key first ≤ key second := by
  induction items with
  | nil => exact List.pairwise_singleton _ _
  | cons first rest inductionHypothesis =>
      obtain ⟨least, others⟩ := List.pairwise_cons.1 ordered
      unfold insertByKey
      split
      · next notGreater =>
          apply List.Pairwise.cons _ ordered
          intro other present
          rcases List.mem_cons.1 present with rfl | later
          · exact notGreater
          · exact Nat.le_trans notGreater (least other later)
      · next greater =>
          apply List.Pairwise.cons _ (inductionHypothesis others)
          intro other present
          rcases List.mem_cons.1 ((perm_insertByKey key item rest).mem_iff.1 present) with
            rfl | later
          · omega
          · exact least other later

theorem ordered_sortByKey (items : List Item) :
    (sortByKey key items).Pairwise fun first second => key first ≤ key second := by
  induction items with
  | nil => exact .nil
  | cons item rest inductionHypothesis => exact ordered_insertByKey key item inductionHypothesis

/-- Items with distinct keys are sorted strictly. -/
theorem strict_sortByKey {items : List Item} (distinct : (items.map key).Nodup) :
    (sortByKey key items).Pairwise fun first second => key first < key second := by
  have sorted := ((perm_sortByKey key items).map key).nodup_iff.2 distinct
  rw [List.Nodup, List.pairwise_map] at sorted
  apply (ordered_sortByKey key items).imp₂ _ sorted
  intro first second notGreater different
  exact Nat.lt_of_le_of_ne notGreater different

end Sorting

/-- A map whose steps all succeed leaves nothing out. -/
theorem mapM_eq_some_filterMap {Item Result : Type} {step : Item → Option Result}
    {items : List Item} (succeeds : ∀ item ∈ items, (step item).isSome) :
    items.mapM step = some (items.filterMap step) := by
  induction items with
  | nil => rfl
  | cons item rest inductionHypothesis =>
      obtain ⟨result, equal⟩ := Option.isSome_iff_exists.1 (succeeds item List.mem_cons_self)
      rw [List.mapM_cons, equal, List.filterMap_cons_some equal,
        inductionHypothesis fun other present => succeeds other (List.mem_cons_of_mem item present)]
      rfl

/-- If every step has its value, then the map is the plain one. -/
theorem mapM_eq_some_map {Item Result : Type} {step : Item → Option Result} {value : Item → Result}
    {items : List Item} (succeeds : ∀ item ∈ items, step item = some (value item)) :
    items.mapM step = some (items.map value) := by
  have present : ∀ item ∈ items, (step item).isSome := by
    intro item isItem
    rw [succeeds item isItem]
    rfl
  rw [mapM_eq_some_filterMap present, List.filterMap_congr succeeds, List.filterMap_eq_map']

/-! ### Names and numbers -/

/-- Numbers in increasing order stand for names in the order of the list. -/
theorem sublist_of_numbers {names : List String} {numbers : List Nat}
    (ordered : numbers.Pairwise fun first second => first < second)
    (inside : ∀ number ∈ numbers, number < names.length) :
    (numbers.map fun number => names.getD number "").Sublist names := by
  have part : numbers.Sublist (List.range names.length) := by
    apply List.sublist_of_subperm_of_pairwise _ ordered List.pairwise_lt_range
    apply List.subperm_of_subset (ordered.imp Nat.ne_of_lt)
    intro number present
    exact List.mem_range.2 (inside number present)
  have whole : ((List.range names.length).map fun number => names.getD number "") = names := by
    apply List.ext_getElem
    · simp
    · intro place _ bound
      simp [List.getD_eq_getElem?_getD, bound]
  have mapped := part.map fun number => names.getD number ""
  rwa [whole] at mapped

/-- Lists of names with distinct first members in one order are equal if they have the same
members. -/
theorem eq_of_heads_ordered {order : List String} (distinct : order.Nodup)
    {first second : List (List String)} (nonempty : ∀ members ∈ first, members ≠ [])
    (firstOrdered : (first.filterMap List.head?).Sublist order)
    (secondOrdered : (second.filterMap List.head?).Sublist order)
    (same : ∀ members, members ∈ first ↔ members ∈ second) : first = second := by
  have increasing : order.Pairwise fun left right => order.idxOf left < order.idxOf right := by
    rw [List.pairwise_iff_getElem]
    intro left right leftInside rightInside less
    rwa [distinct.idxOf_getElem left leftInside, distinct.idxOf_getElem right rightInside]
  let precedes (left right : List String) : Prop := ∀ name, left.head? = some name →
    ∀ other, right.head? = some other → order.idxOf name < order.idxOf other
  have firstSorted : first.Pairwise precedes :=
    List.pairwise_filterMap.1 (increasing.sublist firstOrdered)
  have secondSorted : second.Pairwise precedes :=
    List.pairwise_filterMap.1 (increasing.sublist secondOrdered)
  have headed : ∀ members ∈ first, ∃ name, members.head? = some name := by
    intro members present
    cases members with
    | nil => exact absurd rfl (nonempty [] present)
    | cons name rest => exact ⟨name, rfl⟩
  have irreflexive {lists : List (List String)} (inFirst : ∀ members ∈ lists, members ∈ first)
      (sorted : lists.Pairwise precedes) : lists.Nodup := by
    apply sorted.imp_of_mem
    rintro left _ present _ before rfl
    obtain ⟨name, head⟩ := headed left (inFirst left present)
    exact Nat.lt_irrefl _ (before name head name head)
  apply List.Perm.eq_of_pairwise _ firstSorted secondSorted
  · apply (List.perm_ext_iff_of_nodup _ _).2 same
    · exact irreflexive (fun members present => present) firstSorted
    · exact irreflexive (fun members present => (same members).2 present) secondSorted
  · intro left right leftPresent rightPresent before after
    obtain ⟨name, head⟩ := headed left leftPresent
    obtain ⟨other, otherHead⟩ := headed right ((same right).2 rightPresent)
    have less := before name head other otherHead
    have greater := after other otherHead name head
    omega

namespace Graph

variable {graph : Graph} {node target : String} {number place : Nat}

/-- The name of a number is the node at its place. -/
def nameOf (graph : Graph) (number : Nat) : String := graph.nodes.getD number ""

theorem nameOf_eq (isNode : graph.nodes[number]? = some node) : graph.nameOf number = node := by
  rw [nameOf, List.getD_eq_getElem?_getD, isNode]
  rfl

theorem getElem?_nodes (inside : number < graph.nodes.length) :
    graph.nodes[number]? = some (graph.nameOf number) := by
  rw [nameOf, List.getD_eq_getElem?_getD, List.getElem?_eq_getElem inside]
  rfl

theorem size_numberedEdges (graph : Graph) : graph.numberedEdges.size = graph.nodes.length := by
  simp [numberedEdges, nodes]

theorem getElem?_numberedEdges (graph : Graph) (number : Nat) :
    graph.numberedEdges[number]? = graph.edges[number]?.map fun edge =>
      edge.2.filterMap fun target => graph.nodes.idxOf? target := by
  simp [numberedEdges]

section Distinct

variable (distinct : graph.nodes.Nodup)
include distinct

theorem number_injective (first : graph.nodes[number]? = some node)
    (second : graph.nodes[place]? = some node) : number = place := by
  obtain ⟨inside, rfl⟩ := List.getElem?_eq_some_iff.1 first
  obtain ⟨otherInside, same⟩ := List.getElem?_eq_some_iff.1 second
  exact ((List.getElem_inj distinct).1 same).symm

theorem idxOf?_eq_some_iff : graph.nodes.idxOf? node = some number ↔
    graph.nodes[number]? = some node := by
  rw [List.idxOf?_eq_some_iff, List.getElem?_eq_some_iff]
  constructor
  · intro found
    obtain ⟨inside, same, -⟩ := found
    exact ⟨inside, same⟩
  · intro found
    obtain ⟨inside, same⟩ := found
    refine ⟨inside, same, ?_⟩
    intro earlier less equal
    have injective := (List.getElem_inj distinct).1 (equal.trans same.symm)
    omega

theorem lookup_of_mem {edge : String × List String} (present : edge ∈ graph.edges) :
    graph.edges.lookup edge.1 = some edge.2 := by
  have listed : (graph.edges.lookup edge.1).isSome := by
    rw [List.lookup_isSome_iff]
    exact ⟨edge, present, beq_self_eq_true _⟩
  obtain ⟨targets, found⟩ := Option.isSome_iff_exists.1 listed
  have same : edge = (edge.1, targets) :=
    List.inj_on_of_nodup_map distinct present (mem_edges_of_lookup found) rfl
  rw [found, congrArg Prod.snd same]

/-- The edges by number are the edges by name between nodes that are listed. -/
theorem numberedEdge_iff : NumberedEdge graph.numberedEdges number place ↔
    ∃ node target, graph.nodes[number]? = some node ∧ graph.nodes[place]? = some target ∧
      graph.Edge node target := by
  unfold NumberedEdge
  simp only [getElem?_numberedEdges, Option.map_eq_some_iff, graph.mem_targets_iff]
  constructor
  · rintro ⟨_, ⟨edge, found, rfl⟩, isTarget⟩
    obtain ⟨target, listed, numbered⟩ := List.mem_filterMap.1 isTarget
    have present : edge ∈ graph.edges := List.mem_of_getElem? found
    refine ⟨edge.1, target, ?_, (idxOf?_eq_some_iff distinct).1 numbered, edge.2,
      lookup_of_mem distinct present, listed⟩
    rw [nodes, List.getElem?_map, found]
    rfl
  · rintro ⟨node, target, isNode, isTarget, targets, found, listed⟩
    rw [nodes, List.getElem?_map, Option.map_eq_some_iff] at isNode
    obtain ⟨edge, isEdge, rfl⟩ := isNode
    have own := lookup_of_mem distinct (List.mem_of_getElem? isEdge)
    obtain rfl : edge.2 = targets := Option.some.inj (own.symm.trans found)
    exact ⟨_, ⟨edge, isEdge, rfl⟩,
      List.mem_filterMap.2 ⟨target, listed, (idxOf?_eq_some_iff distinct).2 isTarget⟩⟩

theorem edgesInside_numberedEdges : ComponentSearch.EdgesInside graph.numberedEdges := by
  intro number place edge
  obtain ⟨_, _, -, isTarget, -⟩ := (numberedEdge_iff distinct).1 edge
  rw [size_numberedEdges]
  exact (List.getElem?_eq_some_iff.1 isTarget).1

omit distinct in
/-- What leads to a node is listed. -/
theorem mem_nodes_of_leads (leads : ReflTransGen graph.Edge node target)
    (listed : target ∈ graph.nodes) : node ∈ graph.nodes := by
  rcases Relation.reflTransGen_iff_eq_or_transGen.1 leads with same | path
  · exact same ▸ listed
  · exact mem_nodes_of_path path

/-- Paths by number are paths by name. -/
theorem leads_iff (isNode : graph.nodes[number]? = some node)
    (isTarget : graph.nodes[place]? = some target) :
    ReflTransGen (NumberedEdge graph.numberedEdges) number place ↔
      ReflTransGen graph.Edge node target := by
  constructor
  · intro leads
    induction leads generalizing target with
    | refl => rw [Option.some.inj (isNode.symm.trans isTarget)]
    | tail _ edge inductionHypothesis =>
        obtain ⟨middle, last, isMiddle, isLast, named⟩ := (numberedEdge_iff distinct).1 edge
        obtain rfl := Option.some.inj (isLast.symm.trans isTarget)
        exact (inductionHypothesis isMiddle).tail named
  · intro leads
    induction leads using ReflTransGen.head_induction_on generalizing number with
    | refl => rw [number_injective distinct isNode isTarget]
    | @head first middle edge rest inductionHypothesis =>
        have listed := mem_nodes_of_leads rest (List.mem_of_getElem? isTarget)
        obtain ⟨between, isMiddle⟩ := List.mem_iff_getElem?.1 listed
        have numbered := (numberedEdge_iff distinct).2 ⟨first, middle, isNode, isMiddle, edge⟩
        exact .head numbered (inductionHypothesis isMiddle)

/-! ### Components by name -/

/-- The names of a component come in the order of their numbers. -/
def namesOf (graph : Graph) (component : List Nat) : List String :=
  (sortByKey id component).map graph.nameOf

omit distinct in
theorem mem_namesOf_iff {component : List Nat}
    (inside : ∀ number ∈ component, number < graph.nodes.length) {name : String} :
    name ∈ graph.namesOf component ↔
      ∃ number ∈ component, graph.nodes[number]? = some name := by
  rw [namesOf, List.mem_map]
  simp only [(perm_sortByKey id component).mem_iff]
  constructor
  · rintro ⟨number, present, rfl⟩
    exact ⟨number, present, getElem?_nodes (inside number present)⟩
  · rintro ⟨number, present, isNode⟩
    exact ⟨number, present, nameOf_eq isNode⟩

section Component

variable {component : List Nat} (strong : StrongComponent graph.numberedEdges component)
  (inside : ∀ number ∈ component, number < graph.nodes.length)
include strong inside

omit distinct in
theorem ordered_namesOf : (graph.namesOf component).Sublist graph.nodes := by
  apply sublist_of_numbers
  · exact strict_sortByKey id (by simpa using strong.nodup)
  · intro number present
    exact inside number ((perm_sortByKey id component).mem_iff.1 present)

/-- A component is strong by name too. -/
theorem strong_namesOf {member : String} (isMember : member ∈ graph.namesOf component)
    (other : String) : other ∈ graph.namesOf component ↔
      ReflTransGen graph.Edge member other ∧ ReflTransGen graph.Edge other member := by
  obtain ⟨number, present, isNode⟩ := (mem_namesOf_iff inside).1 isMember
  constructor
  · intro isOther
    obtain ⟨place, placePresent, isPlace⟩ := (mem_namesOf_iff inside).1 isOther
    obtain ⟨forward, backward⟩ := (strong.strong number present place).1 placePresent
    exact ⟨(leads_iff distinct isNode isPlace).1 forward,
      (leads_iff distinct isPlace isNode).1 backward⟩
  · rintro ⟨forward, backward⟩
    have listed := mem_nodes_of_leads backward (List.mem_of_getElem? isNode)
    obtain ⟨place, isPlace⟩ := List.mem_iff_getElem?.1 listed
    refine (mem_namesOf_iff inside).2 ⟨place, ?_, isPlace⟩
    exact (strong.strong number present place).2 ⟨(leads_iff distinct isNode isPlace).2 forward,
      (leads_iff distinct isPlace isNode).2 backward⟩

end Component

/-! ### Cycles -/

/-- The entry of a component has its first number and all its numbers in their order. -/
def entryOf (component : List Nat) : Nat × List Nat :=
  ((sortByKey id component).headD 0, sortByKey id component)

/-- An entry holds a cycle if it has several nodes, or an edge from its first node to itself. -/
def holdsCycle (graph : Graph) (entry : Nat × List Nat) : Bool :=
  decide (1 < entry.2.length) || (graph.numberedEdges[entry.1]?.getD []).contains entry.1

/-- These are the names of an entry if it holds a cycle. -/
def cycleOf? (graph : Graph) (entry : Nat × List Nat) : Option (List String) :=
  if graph.holdsCycle entry then some (entry.2.map graph.nameOf) else none

omit distinct in
theorem nameCycle?_eq {entry : Nat × List Nat} (first : entry.1 < graph.nodes.length)
    (inside : ∀ number ∈ entry.2, number < graph.nodes.length) :
    graph.nameCycle? graph.numberedEdges entry = some (graph.cycleOf? entry) := by
  have bound : entry.1 < graph.numberedEdges.size := by rwa [size_numberedEdges]
  have answer : isCyclic? graph.numberedEdges entry.1 entry.2 = some (graph.holdsCycle entry) := by
    unfold isCyclic? holdsCycle
    rw [Array.getElem?_eq_getElem bound]
    by_cases several : 1 < entry.2.length
    · simp [several]
    · simp [several]
  have named : (entry.2.mapM fun number => graph.nodes[number]?) =
      some (entry.2.map graph.nameOf) :=
    mapM_eq_some_map fun number present => getElem?_nodes (inside number present)
  unfold nameCycle? cycleOf?
  rw [answer, named]
  cases graph.holdsCycle entry <;> rfl

/-- An entry holds a cycle if its names do. -/
theorem holdsCycle_iff {component : List Nat} (nonempty : component ≠ [])
    (inside : ∀ number ∈ component, number < graph.nodes.length) :
    graph.holdsCycle (entryOf component) = true ↔ 2 ≤ (graph.namesOf component).length ∨
      ∃ only, graph.namesOf component = [only] ∧ graph.Edge only only := by
  have perm := perm_sortByKey id component
  unfold holdsCycle entryOf namesOf
  rcases sorted : sortByKey id component with _ | ⟨first, _ | ⟨second, rest⟩⟩
  · rw [sorted] at perm
    exact absurd perm.nil_eq.symm nonempty
  · have isNode := getElem?_nodes (inside first (perm.mem_iff.1 (sorted ▸ List.mem_cons_self)))
    have loop : first ∈ graph.numberedEdges[first]?.getD [] ↔
        NumberedEdge graph.numberedEdges first first := by
      unfold NumberedEdge
      cases graph.numberedEdges[first]? <;> simp
    simp only [List.length_singleton, Nat.lt_irrefl, decide_false, Bool.false_or, List.headD_cons,
      List.contains_iff_mem, loop, numberedEdge_iff distinct, isNode, Option.some.injEq,
      List.map_cons, List.map_nil, List.cons.injEq, and_true]
    constructor
    · rintro ⟨_, _, rfl, rfl, edge⟩
      exact .inr ⟨_, rfl, edge⟩
    · rintro (several | ⟨_, rfl, edge⟩)
      · omega
      · exact ⟨_, _, rfl, rfl, edge⟩
  · simp

omit distinct in
theorem head?_entryOf {component : List Nat} (nonempty : component ≠ []) :
    (entryOf component).2.head? = some (entryOf component).1 := by
  have perm := perm_sortByKey id component
  rw [entryOf]
  cases sorted : sortByKey id component with
  | nil =>
      rw [sorted] at perm
      exact absurd perm.nil_eq.symm nonempty
  | cons first rest => rfl

/-- The entries of all components are sorted by their first numbers. -/
def sortedEntries (components : List (List Nat)) : List (Nat × List Nat) :=
  sortByKey Prod.fst (components.map entryOf)

omit distinct in
theorem mem_sortedEntries_iff {components : List (List Nat)} {entry : Nat × List Nat} :
    entry ∈ sortedEntries components ↔ ∃ component ∈ components, entryOf component = entry := by
  rw [sortedEntries, (perm_sortByKey Prod.fst _).mem_iff, List.mem_map]

omit distinct in
theorem sortedComponents?_eq {components : List (List Nat)}
    (nonempty : ∀ component ∈ components, component ≠ []) :
    sortedComponents? components = some (sortedEntries components) := by
  have entries : ((components.map (sortByKey id)).mapM fun component : List Nat =>
      (component[0]?).map fun first => (first, component)) =
      some ((components.map (sortByKey id)).map fun component =>
        (component.headD 0, component)) := by
    apply mapM_eq_some_map
    intro component present
    obtain ⟨original, isOriginal, rfl⟩ := List.mem_map.1 present
    have head := head?_entryOf (nonempty original isOriginal)
    change (sortByKey id original).head? = _ at head
    rw [← List.head?_eq_getElem?, head]
    rfl
  unfold sortedComponents?
  rw [entries, List.map_map]
  rfl

omit distinct in
/-- The first names of cycles are those of the first numbers. -/
theorem heads_cycleOf? {entries : List (Nat × List Nat)}
    (headed : ∀ entry ∈ entries, entry.2.head? = some entry.1) :
    (entries.filterMap graph.cycleOf?).filterMap List.head? =
      ((entries.filter graph.holdsCycle).map Prod.fst).map graph.nameOf := by
  induction entries with
  | nil => rfl
  | cons entry rest inductionHypothesis =>
      have later := inductionHypothesis fun other present =>
        headed other (List.mem_cons_of_mem entry present)
      have head : (entry.2.map graph.nameOf).head? = some (graph.nameOf entry.1) := by
        rw [List.head?_map, headed entry List.mem_cons_self]
        rfl
      by_cases holds : graph.holdsCycle entry = true
      · have chosen : graph.cycleOf? entry = some (entry.2.map graph.nameOf) := by
          rw [cycleOf?, if_pos holds]
        rw [List.filterMap_cons_some chosen, List.filterMap_cons_some head, later,
          List.filter_cons_of_pos holds]
        rfl
      · have dropped : graph.cycleOf? entry = none := by
          rw [cycleOf?, if_neg holds]
        rw [List.filterMap_cons_none dropped, later, List.filter_cons_of_neg holds]

section Components

variable {components : List (List Nat)}
  (strong : ∀ component ∈ components, StrongComponent graph.numberedEdges component)
  (disjoint : components.Pairwise List.Disjoint)
  (covers : ∀ number, (∃ component ∈ components, number ∈ component) ↔
    number < graph.numberedEdges.size)
include strong covers

omit distinct strong in
theorem inside_of_mem {component : List Nat} (present : component ∈ components) :
    ∀ number ∈ component, number < graph.nodes.length := by
  intro number isMember
  rw [← size_numberedEdges]
  exact (covers number).1 ⟨component, present, isMember⟩

omit distinct covers in
theorem head_mem {component : List Nat} (present : component ∈ components) :
    (entryOf component).1 ∈ component := by
  have head := head?_entryOf (strong component present).nonempty
  exact (perm_sortByKey id component).mem_iff.1 (List.mem_of_head? head)

omit distinct in
theorem searchCycles?_eq
    (found : stronglyConnectedComponents? graph.numberedEdges = some components) :
    graph.searchCycles? = some ((sortedEntries components).filterMap graph.cycleOf?) := by
  have named : (sortedEntries components).mapM (graph.nameCycle? graph.numberedEdges) =
      some ((sortedEntries components).map graph.cycleOf?) := by
    apply mapM_eq_some_map
    intro entry present
    obtain ⟨component, isComponent, rfl⟩ := mem_sortedEntries_iff.1 present
    have inside := inside_of_mem covers isComponent
    apply nameCycle?_eq
    · exact inside _ (head_mem strong isComponent)
    · intro number isMember
      exact inside number ((perm_sortByKey id component).mem_iff.1 isMember)
  simp only [searchCycles?, found, Option.bind_eq_bind, Option.bind_some,
    sortedComponents?_eq fun component present => (strong component present).nonempty, named,
    List.filterMap_map, Function.id_comp]

/-- The names that are found are the cyclic components of the graph. -/
theorem mem_filterMap_cycleOf?_iff (members : List String) :
    members ∈ (sortedEntries components).filterMap graph.cycleOf? ↔
      CyclicComponent graph.nodes graph.Edge members := by
  have cycle_iff {component : List Nat} (present : component ∈ components) :=
    holdsCycle_iff distinct (strong component present).nonempty (inside_of_mem covers present)
  rw [List.mem_filterMap]
  constructor
  · rintro ⟨entry, present, chosen⟩
    obtain ⟨component, isComponent, rfl⟩ := mem_sortedEntries_iff.1 present
    have inside := inside_of_mem covers isComponent
    rw [cycleOf?, Option.ite_none_right_eq_some] at chosen
    obtain ⟨holds, same⟩ := chosen
    obtain rfl : graph.namesOf component = members := Option.some.inj same
    constructor
    · exact ordered_namesOf (strong component isComponent) inside
    · intro member isMember other
      exact strong_namesOf distinct (strong component isComponent) inside isMember other
    · exact (cycle_iff isComponent).1 holds
  · intro cyclic
    obtain ⟨member, isMember⟩ := cyclic.exists_mem
    obtain ⟨number, isNode⟩ := List.mem_iff_getElem?.1 (cyclic.ordered.subset isMember)
    obtain ⟨component, isComponent, present⟩ := (covers number).2 (by
      rw [size_numberedEdges]
      exact (List.getElem?_eq_some_iff.1 isNode).1)
    have inside := inside_of_mem covers isComponent
    have own : member ∈ graph.namesOf component :=
      (mem_namesOf_iff inside).2 ⟨number, present, isNode⟩
    have same : graph.namesOf component = members := by
      apply eq_of_sublists distinct (ordered_namesOf (strong component isComponent) inside)
        cyclic.ordered
      intro other
      rw [strong_namesOf distinct (strong component isComponent) inside own,
        cyclic.strong member isMember]
    refine ⟨entryOf component, mem_sortedEntries_iff.2 ⟨component, isComponent, rfl⟩, ?_⟩
    rw [cycleOf?, if_pos]
    · exact congrArg some same
    · rw [cycle_iff isComponent, same]
      exact cyclic.cyclic

include disjoint

omit distinct in
/-- The first members come in the order of the nodes. -/
theorem heads_filterMap_cycleOf? :
    (((sortedEntries components).filterMap graph.cycleOf?).filterMap List.head?).Sublist
      graph.nodes := by
  have heads : ((sortedEntries components).filterMap graph.cycleOf?).filterMap List.head? =
      (((sortedEntries components).filter graph.holdsCycle).map Prod.fst).map graph.nameOf := by
    apply heads_cycleOf?
    intro entry present
    obtain ⟨component, isComponent, rfl⟩ := mem_sortedEntries_iff.1 present
    exact head?_entryOf (strong component isComponent).nonempty
  have firsts : ((components.map entryOf).map Prod.fst).Nodup := by
    rw [List.map_map, List.Nodup, List.pairwise_map]
    apply disjoint.imp_of_mem
    intro first second isFirst isSecond apart same
    have inFirst := head_mem strong isFirst
    have inSecond := head_mem strong isSecond
    change (entryOf first).1 = (entryOf second).1 at same
    rw [same] at inFirst
    exact apart inFirst inSecond
  rw [heads]
  apply sublist_of_numbers
  · rw [List.pairwise_map]
    exact (strict_sortByKey Prod.fst firsts).filter _
  · intro number present
    obtain ⟨entry, isEntry, rfl⟩ := List.mem_map.1 present
    obtain ⟨component, isComponent, rfl⟩ :=
      mem_sortedEntries_iff.1 (List.mem_filter.1 isEntry).1
    exact inside_of_mem covers isComponent _ (head_mem strong isComponent)

end Components

end Distinct

/-- The search has an answer, which is the list of cycles. -/
theorem searchCycles?_eq_cycles (distinct : graph.nodes.Nodup) :
    graph.searchCycles? = some graph.cycles := by
  obtain ⟨components, found, strong, disjoint, covers⟩ :=
    exists_stronglyConnectedComponents (edgesInside_numberedEdges distinct)
  rw [searchCycles?_eq strong covers found]
  apply congrArg some
  have members := mem_filterMap_cycleOf?_iff distinct strong covers
  apply eq_of_heads_ordered distinct
  · intro names present
    obtain ⟨name, isMember⟩ := ((members names).1 present).exists_mem
    exact List.ne_nil_of_mem isMember
  · exact heads_filterMap_cycleOf? strong disjoint covers
  · exact graph.heads_ordered
  · intro names
    rw [members, mem_cycles_iff distinct]

end Graph

end StorageSchema
