/-
This file proves that the reported cycles are the cyclic components of the plain references among
static definitions.
-/
import Mathlib.Data.List.Forall2
import StorageSchema.Proofs.Check.Classification
import StorageSchema.Proofs.Check.Report
import StorageSchema.Proofs.ComponentSearch.Cycles

namespace StorageSchema

open Relation (TransGen)

variable {Mark : Type}

/-- A declared name is static if it is not that of the root and no live chain leads to it. -/
def Document.IsStatic (document : Document Mark) (name : String) : Prop :=
  document.declares name = true ∧ name ≠ rootName ∧ ¬ document.Chain true name

/-- A plain edge is a plain reference from one static definition to another. -/
def Document.PlainEdge (document : Document Mark) (source target : String) : Prop :=
  document.IsStatic source ∧ document.IsStatic target ∧ document.Leads false source target

/-- Every declared name is listed where it is declared first. -/
def Document.firstNames (document : Document Mark) : List String :=
  document.declaredNames.eraseDups

/-- The diagnostic of a cycle stands at the name of its first member and lists all members. -/
def Document.ShowsCycle (document : Document Span) (diagnostic : Diagnostic)
    (members : List String) : Prop :=
  ∃ first definition, members.head? = some first ∧ document.find? first = some definition ∧
    diagnostic = ⟨definition.name.mark,
      String.join ["static types cannot reference themselves in a cycle (",
        ", ".intercalate (members.map fun name => String.join ["`", name, "`"]),
        "), wrap one of the references in `LiveObject<...>` or `LiveList<...>`"]⟩

/-- The kept definitions have the names that have not been seen, each once. -/
theorem Definition.names_firsts (seen : List String) (definitions : List (Definition Mark)) :
    (Definition.firsts seen definitions).map (fun definition => definition.name.text) =
      ((definitions.map fun definition => definition.name.text).filter
        fun name => !seen.contains name).eraseDups := by
  induction definitions generalizing seen with
  | nil => rfl
  | cons definition rest inductionHypothesis =>
      rw [Definition.firsts, List.map_cons, List.filter_cons]
      by_cases known : seen.contains definition.name.text = true
      · simp only [known, if_true, Bool.not_true, Bool.false_eq_true, if_false]
        exact inductionHypothesis seen
      · have unknown : seen.contains definition.name.text = false := Bool.not_eq_true _ ▸ known
        simp only [unknown, Bool.false_eq_true, if_false, Bool.not_false, if_true, List.map_cons,
          List.eraseDups_cons, inductionHypothesis, List.filter_filter, List.contains_cons,
          Bool.not_or]

/-- The kept definitions are those that their names stand for. -/
theorem Definition.mem_firsts_iff (seen : List String) (definitions : List (Definition Mark))
    (definition : Definition Mark) :
    definition ∈ Definition.firsts seen definitions ↔
      definition.name.text ∉ seen ∧
        (definitions.find? fun other => other.name.text = definition.name.text) =
          some definition := by
  induction definitions generalizing seen with
  | nil => simp [Definition.firsts]
  | cons first rest inductionHypothesis =>
      rw [Definition.firsts, List.find?_cons]
      by_cases same : first.name.text = definition.name.text
      · by_cases known : first.name.text ∈ seen
        · have seenBefore : definition.name.text ∈ seen := same ▸ known
          simp [known, inductionHypothesis, seenBefore]
        · have notLater : definition ∉ Definition.firsts (first.name.text :: seen) rest := by
            rw [inductionHypothesis]
            simp [same]
          have unseen : definition.name.text ∉ seen := same ▸ known
          simp only [same] at notLater
          simp [same, unseen, notLater, eq_comm]
      · have other : definition ≠ first := by
          intro equal
          exact same (equal ▸ rfl)
        by_cases known : first.name.text ∈ seen
        · simp [known, inductionHypothesis, same]
        · simp [known, inductionHypothesis, same, other, Ne.symm same]

/-- No two kept definitions have the same name. -/
theorem Definition.nodup_firsts (seen : List String) (definitions : List (Definition Mark)) :
    ((Definition.firsts seen definitions).map fun definition => definition.name.text).Nodup := by
  induction definitions generalizing seen with
  | nil => exact List.nodup_nil
  | cons definition rest inductionHypothesis =>
      rw [Definition.firsts]
      by_cases known : seen.contains definition.name.text = true
      · rw [if_pos known]
        exact inductionHypothesis seen
      · rw [if_neg known, List.map_cons, List.nodup_cons]
        refine ⟨?_, inductionHypothesis (definition.name.text :: seen)⟩
        intro repeated
        obtain ⟨other, kept, same⟩ := List.mem_map.1 repeated
        have fresh := ((Definition.mem_firsts_iff _ rest other).1 kept).1
        exact fresh (same ▸ List.mem_cons_self)

theorem Document.firstNames_eq (document : Document Mark) :
    document.firstNames =
      (Definition.firsts [] document.definitions).map fun definition => definition.name.text := by
  rw [Definition.names_firsts, List.filter_eq_self.2 (by simp), Document.firstNames,
    Document.declaredNames]

theorem Document.nodup_firstNames (document : Document Mark) : document.firstNames.Nodup := by
  rw [Document.firstNames_eq]
  exact Definition.nodup_firsts [] document.definitions

/-- A static definition is the one that its static name stands for. -/
theorem Document.mem_staticDefinitions_iff (document : Document Mark)
    (definition : Definition Mark) :
    definition ∈ document.staticDefinitions ↔
      document.find? definition.name.text = some definition ∧
        document.IsStatic definition.name.text := by
  have classified := Definition.isStatic_iff document definition
  simp only [Document.staticDefinitions, List.mem_filter, classified, Definition.mem_firsts_iff,
    List.not_mem_nil, not_false_eq_true, true_and, Document.IsStatic]
  change document.find? _ = _ ∧ _ ↔ _
  constructor
  · intro static
    exact ⟨static.1, Document.declares_of_find? static.1, static.2⟩
  · intro static
    exact ⟨static.1, static.2.2⟩

/-- The nodes of the static graph are the static names in the order of their declarations. -/
theorem Document.nodes_staticGraph (document : Document Mark) :
    document.staticGraph.nodes = document.firstNames.filter fun name =>
      name != rootName && !document.liveNames.contains name := by
  rw [Document.firstNames_eq, List.filter_map]
  simp only [Document.staticGraph, Definition.plainGraph, Graph.nodes, List.map_map]
  rfl

theorem Document.nodup_nodes_staticGraph (document : Document Mark) :
    document.staticGraph.nodes.Nodup := by
  rw [Document.nodes_staticGraph]
  exact document.nodup_firstNames.filter _

theorem Document.mem_staticNames_iff (document : Document Mark) (name : String) :
    (name ∈ document.staticDefinitions.map fun definition => definition.name.text) ↔
      document.IsStatic name := by
  rw [List.mem_map]
  constructor
  · intro found
    obtain ⟨definition, static, rfl⟩ := found
    exact ((document.mem_staticDefinitions_iff definition).1 static).2
  · intro static
    obtain ⟨definition, found⟩ := Option.isSome_iff_exists.1 static.1
    obtain rfl := (Document.find?_eq_some found).2
    exact ⟨definition, (document.mem_staticDefinitions_iff definition).2 ⟨found, static⟩, rfl⟩

/-- A static name stands for the same definition among the static ones as in the document. -/
theorem Document.find?_staticDefinitions (document : Document Mark) (name : String)
    (definition : Definition Mark) :
    (document.staticDefinitions.find? fun other => other.name.text = name) = some definition ↔
      document.find? name = some definition ∧ document.IsStatic name := by
  constructor
  · intro found
    have static := List.mem_of_find?_eq_some found
    obtain rfl : definition.name.text = name := by simpa using List.find?_some found
    exact (document.mem_staticDefinitions_iff definition).1 static
  · intro static
    obtain ⟨found, isStatic⟩ := static
    obtain rfl := (Document.find?_eq_some found).2
    cases listed : document.staticDefinitions.find? fun other =>
        other.name.text = definition.name.text with
    | none =>
        have present := (document.mem_staticDefinitions_iff definition).2 ⟨found, isStatic⟩
        simpa using List.find?_eq_none.1 listed definition present
    | some other =>
        have present := List.mem_of_find?_eq_some listed
        have same : other.name.text = definition.name.text := by
          simpa using List.find?_some listed
        have stands := ((document.mem_staticDefinitions_iff other).1 present).1
        rw [same, found] at stands
        exact stands.symm

/-- The edges of the static graph are the plain edges of the document. -/
theorem Document.edge_staticGraph_iff (document : Document Mark) (source target : String) :
    document.staticGraph.Edge source target ↔ document.PlainEdge source target := by
  have looked : document.staticGraph.edges.lookup source =
      (document.staticDefinitions.find? fun definition => definition.name.text = source).map
        (Definition.plainTargets
          (document.staticDefinitions.map fun definition => definition.name.text)) :=
    lookup_map (fun definition : Definition Mark => definition.name.text) _
      document.staticDefinitions source
  rw [Graph.mem_targets_iff, looked, Document.PlainEdge, Document.leads_iff_usages]
  simp only [Option.map_eq_some_iff, Document.find?_staticDefinitions]
  constructor
  · intro edge
    obtain ⟨_, ⟨definition, ⟨found, sourceStatic⟩, rfl⟩, isTarget⟩ := edge
    obtain ⟨usage, kept, resolved⟩ := List.mem_map.1 isTarget
    obtain ⟨present, allowed⟩ := List.mem_filter.1 kept
    simp only [Bool.and_eq_true, Bool.not_eq_true', List.contains_iff_mem,
      document.mem_staticNames_iff, resolved] at allowed
    exact ⟨sourceStatic, allowed.2, definition, found, ⟨usage, present, allowed.1, resolved⟩,
      allowed.2.1⟩
  · intro edge
    obtain ⟨sourceStatic, targetStatic, definition, found, usage, -⟩ := edge
    obtain ⟨usage, present, plain, resolved⟩ := usage
    refine ⟨_, ⟨definition, ⟨found, sourceStatic⟩, rfl⟩, ?_⟩
    refine List.mem_map.2 ⟨usage, List.mem_filter.2 ⟨present, ?_⟩, resolved⟩
    simp only [Bool.and_eq_true, Bool.not_eq_true', List.contains_iff_mem,
      document.mem_staticNames_iff, resolved]
    exact ⟨plain, targetStatic⟩

theorem Document.edges_staticGraph (document : Document Mark) :
    document.staticGraph.Edge = document.PlainEdge := by
  funext source target
  exact propext (document.edge_staticGraph_iff source target)

/-- The search in the static graph has an answer, which is the list of its cycles. -/
theorem Document.searchCycles?_staticGraph (document : Document Mark) :
    document.staticGraph.searchCycles? = some document.staticGraph.cycles :=
  Graph.searchCycles?_eq_cycles document.nodup_nodes_staticGraph

theorem Document.staticCycles_eq (document : Document Mark) :
    document.staticCycles = document.staticGraph.cycles := by
  rw [Document.staticCycles, document.searchCycles?_staticGraph]
  rfl

/-- The cycles of the static graph are the cyclic components of the plain edges. -/
theorem Document.mem_staticCycles_iff (document : Document Mark) (members : List String) :
    members ∈ document.staticCycles ↔
      CyclicComponent document.firstNames document.PlainEdge members := by
  rw [Document.staticCycles_eq, Graph.mem_cycles_iff document.nodup_nodes_staticGraph,
    Document.edges_staticGraph, Document.nodes_staticGraph]
  apply cyclicComponent_filter_iff document.nodup_firstNames
  intro source target edge
  have isNode := (document.edge_staticGraph_iff source target).2 edge |>.mem_nodes
  rw [Document.nodes_staticGraph] at isNode
  exact (List.mem_filter.1 isNode).2

theorem Document.IsStatic.of_loop {document : Document Mark} {name : String}
    (loop : TransGen document.PlainEdge name name) : document.IsStatic name := by
  obtain ⟨_, edge, -⟩ := Relation.TransGen.head'_iff.1 loop
  exact edge.1

/-- A cycle is reported at the first definition that has the name of its first member. -/
theorem Document.exists_cycleProblem (document : Document Mark) {members : List String}
    (cycle : members ∈ document.staticCycles) :
    ∃ first definition, members.head? = some first ∧ document.find? first = some definition ∧
      document.cycleProblem? members = some ⟨definition.name.mark, .staticCycle members⟩ := by
  have component := (document.mem_staticCycles_iff members).1 cycle
  cases head : members.head? with
  | none =>
      obtain ⟨member, isMember⟩ := component.exists_mem
      simp [List.head?_eq_none_iff.1 head] at isMember
  | some first =>
      have loop := component.loop document.nodup_firstNames (List.mem_of_head? head)
      obtain ⟨definition, found⟩ := Option.isSome_iff_exists.1 (Document.IsStatic.of_loop loop).1
      exact ⟨first, definition, rfl, found, by simp [Document.cycleProblem?, head, found]⟩

/-- Every cycle is shown by one diagnostic, in the order of the cycles. -/
theorem Document.shows_staticCycles (document : Document Span) (cycles : List (List String))
    (found : ∀ members ∈ cycles, members ∈ document.staticCycles) :
    List.Forall₂ document.ShowsCycle
      ((cycles.filterMap document.cycleProblem?).map Problem.diagnostic) cycles := by
  induction cycles with
  | nil => exact .nil
  | cons members rest inductionHypothesis =>
      obtain ⟨first, definition, head, stands, stated⟩ :=
        document.exists_cycleProblem (found members List.mem_cons_self)
      rw [List.filterMap_cons_some stated, List.map_cons]
      apply List.Forall₂.cons
      · exact ⟨first, definition, head, stands, rfl⟩
      · apply inductionHypothesis
        intro others isCycle
        exact found others (List.mem_cons_of_mem members isCycle)

/-- A document with a root gets one diagnostic for each cyclic component of the plain edges among
its static definitions, in the order of the first members, and nothing else is named in them. The
components are those that the search along the numbered edges answers with. -/
theorem Document.static_cycles_exact (document : Document Span)
    (rooted : document.declares rootName = true) :
    ∃ components : List (List String),
      document.staticGraph.searchCycles? = some components ∧
      List.Forall₂ document.ShowsCycle document.cycleDiagnostics components ∧
      (∀ members, members ∈ components ↔
        CyclicComponent document.firstNames document.PlainEdge members) ∧
      components.Nodup ∧
      (components.filterMap List.head?).Sublist document.firstNames ∧
      components.Pairwise List.Disjoint ∧
      ∀ members ∈ components, ∀ name ∈ members, TransGen document.PlainEdge name name := by
  have disjoint : document.staticCycles.Pairwise List.Disjoint := by
    rw [document.staticCycles_eq]
    exact Graph.cycles_disjoint document.nodup_nodes_staticGraph
  refine ⟨document.staticCycles, ?_, ?_, document.mem_staticCycles_iff, ?_, ?_, disjoint, ?_⟩
  · rw [document.staticCycles_eq]
    exact document.searchCycles?_staticGraph
  · rw [Document.cycleDiagnostics, Document.filter_isStaticCycle, Document.cycleProblems,
      if_pos rooted]
    exact document.shows_staticCycles document.staticCycles fun _ isCycle => isCycle
  · apply List.Pairwise.imp_of_mem _ disjoint
    intro first second isCycle _ apart same
    obtain ⟨member, isMember⟩ := ((document.mem_staticCycles_iff first).1 isCycle).exists_mem
    exact apart isMember (same ▸ isMember)
  · have ordered := document.staticGraph.heads_ordered
    rw [← document.staticCycles_eq, Document.nodes_staticGraph] at ordered
    exact ordered.trans List.filter_sublist
  · intro members isCycle name isMember
    have component := (document.mem_staticCycles_iff members).1 isCycle
    exact component.loop document.nodup_firstNames isMember

/-- Here `B` and `A` use each other, `C` uses itself, and `D` is on no cycle. -/
theorem Document.static_cycles_of_two_components :
    ∃ document,
      Document.ofText false "type Storage \x7ba: A\x7d type B \x7ba: A[]\x7d
        type A \x7bb: B | C\x7d type C \x7bc?: C\x7d type D \x7ba: A\x7d" = .ok document ∧
      document.cycleDiagnostics.map Diagnostic.span = [⟨25, 26⟩, ⟨67, 68⟩] ∧
      ∃ components : List (List String), components.length = 2 ∧
        ∀ members, members ∈ components ↔
          CyclicComponent document.firstNames document.PlainEdge members := by
  apply Document.exists_of_text
    (fun document => (document.declares rootName, document.cycleDiagnostics.map Diagnostic.span))
    (true, [⟨25, 26⟩, ⟨67, 68⟩])
  · decide +kernel
  · intro document _ computed
    obtain ⟨rooted, spans⟩ := Prod.mk.inj computed
    obtain ⟨components, -, shown, exact, -⟩ := Document.static_cycles_exact document rooted
    have counted := congrArg List.length spans
    rw [List.length_map, shown.length_eq] at counted
    exact ⟨spans, components, counted, exact⟩

end StorageSchema
