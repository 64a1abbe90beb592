/-
This file says which definitions of an accepted document can contain themselves as plain data. The
root is not among the nodes that are searched for cycles, so cycles through it are not found.
-/
import StorageSchema.Proofs.Check.StaticCycles

namespace StorageSchema

open Relation (TransGen)

variable {Mark : Type} {document : Document Mark}

/-- A plain step aside from the root neither leaves the root nor enters it. -/
def Document.LeadsAside (document : Document Mark) (source target : String) : Prop :=
  document.Leads false source target ∧ source ≠ rootName ∧ target ≠ rootName

/-- A path of plain references stays aside from the root or passes through it. -/
theorem Document.aside_or_through_root {source target : String}
    (path : TransGen (document.Leads false) source target) (sourceOther : source ≠ rootName)
    (targetOther : target ≠ rootName) :
    TransGen document.LeadsAside source target ∨
      TransGen (document.Leads false) source rootName ∧
        TransGen (document.Leads false) rootName target := by
  induction path using TransGen.head_induction_on with
  | single step => exact Or.inl (.single ⟨step, sourceOther, targetOther⟩)
  | @head source middle step rest inductionHypothesis =>
      by_cases atRoot : middle = rootName
      · rw [atRoot] at step rest
        exact Or.inr ⟨.single step, rest⟩
      · rcases inductionHypothesis atRoot with aside | through
        · exact Or.inl (.head ⟨step, sourceOther, atRoot⟩ aside)
        · exact Or.inr ⟨.head step through.1, through.2⟩

/-- A definition is static if it leads to a static one aside from the root, since live chains go on
along plain references. -/
theorem Document.IsStatic.of_leadsAside {source target : String}
    (static : document.IsStatic target) (step : document.LeadsAside source target) :
    document.IsStatic source := by
  obtain ⟨leads, sourceOther, targetOther⟩ := step
  refine ⟨leads.declares_source, sourceOther, ?_⟩
  intro chain
  have goesOn : document.Chain (true || false) target := .next chain leads targetOther
  exact static.2.2 goesOn

/-- A path aside from the root that ends at a static definition has plain edges only. -/
theorem Document.plainEdges_of_aside {source target : String}
    (path : TransGen document.LeadsAside source target) (static : document.IsStatic target) :
    document.IsStatic source ∧ TransGen document.PlainEdge source target := by
  induction path using TransGen.head_induction_on with
  | single step =>
      have sourceStatic := static.of_leadsAside step
      exact ⟨sourceStatic, .single ⟨sourceStatic, static, step.1⟩⟩
  | head step _ inductionHypothesis =>
      obtain ⟨middleStatic, rest⟩ := inductionHypothesis
      have sourceStatic := middleStatic.of_leadsAside step
      exact ⟨sourceStatic, .head ⟨sourceStatic, middleStatic, step.1⟩ rest⟩

theorem Document.staticCycles_of_check {schema : Schema Mark}
    (accepted : document.check = .ok schema) : document.staticCycles = [] := by
  obtain ⟨root, found, noProblems, -⟩ := (document.check_eq_ok_iff schema).1 accepted
  have rooted : document.declares rootName = true := Document.declares_of_find? found
  have noCycles : document.cycleProblems = [] := (List.append_eq_nil_iff.1 noProblems).2
  rw [Document.cycleProblems, if_pos rooted, List.filterMap_eq_nil_iff] at noCycles
  apply List.eq_nil_iff_forall_not_mem.2
  intro members cycle
  obtain ⟨_, _, -, -, stated⟩ := document.exists_cycleProblem cycle
  rw [noCycles members cycle] at stated
  cases stated

/-- Plain edges never lead around in an accepted document. -/
theorem Document.no_loop_of_check {schema : Schema Mark} (accepted : document.check = .ok schema)
    (name : String) : ¬ TransGen document.PlainEdge name name := by
  intro loop
  rw [← Document.edges_staticGraph] at loop
  obtain ⟨members, cycle, -⟩ :=
    Graph.exists_cycle_of_loop document.nodup_nodes_staticGraph loop
  rw [← document.staticCycles_eq, Document.staticCycles_of_check accepted] at cycle
  exact absurd cycle List.not_mem_nil

/-- The static definitions of a schema have static names. -/
theorem Document.isStatic_of_check {schema : Schema Mark} (accepted : document.check = .ok schema)
    {classified : ClassifiedDefinition Mark} (present : classified ∈ schema.definitions)
    (static : classified.isStatic = true) : document.IsStatic classified.name := by
  have listed : classified.definition ∈
      schema.definitions.map ClassifiedDefinition.definition := List.mem_map_of_mem present
  rw [Document.definitions_of_check accepted, List.mem_filter] at listed
  have liveIff := Document.isStatic_eq_false_iff_of_check accepted present
  refine ⟨?_, ?_, ?_⟩
  · exact (document.declares_iff classified.name).2 ⟨classified.definition, listed.1, rfl⟩
  · simpa [ClassifiedDefinition.name] using listed.2
  · intro chain
    rw [liveIff.2 chain] at static
    cases static

/-- In an accepted document, plain references aside from the root never lead from a static
definition back to it. Plain references lead back to it if and only if they lead to the root and
from there to it. -/
theorem Document.plain_cycle_iff_through_root (document : Document Mark) (schema : Schema Mark)
    (accepted : document.check = .ok schema) (classified : ClassifiedDefinition Mark)
    (present : classified ∈ schema.definitions) (static : classified.isStatic = true) :
    ¬ TransGen document.LeadsAside classified.name classified.name ∧
    (TransGen (document.Leads false) classified.name classified.name ↔
      TransGen (document.Leads false) classified.name rootName ∧
        TransGen (document.Leads false) rootName classified.name) := by
  have isStatic := Document.isStatic_of_check accepted present static
  have noneAside : ¬ TransGen document.LeadsAside classified.name classified.name := by
    intro aside
    have loop := (Document.plainEdges_of_aside aside isStatic).2
    exact Document.no_loop_of_check accepted classified.name loop
  refine ⟨noneAside, ?_⟩
  constructor
  · intro loop
    rcases Document.aside_or_through_root loop isStatic.2.1 isStatic.2.1 with aside | through
    · exact absurd aside noneAside
    · exact through
  · intro through
    exact through.1.trans through.2

/-- Here `A` leads back to itself through the root alone, and `X` only through a live list. -/
theorem Document.plain_cycle_of_root_and_list :
    ∃ document,
      Document.ofText false "type Storage \x7ba: A\x7d type A \x7bs: Storage\x7d type X \x7by: Y\x7d
        type Y \x7bx: LiveList<X>\x7d" = .ok document ∧
      ∃ schema, document.check = .ok schema ∧
        schema.classes = [("A", true), ("X", true), ("Y", true)] ∧
        TransGen (document.Leads false) "A" "A" ∧ ¬ TransGen document.LeadsAside "A" "A" ∧
        ¬ TransGen document.LeadsAside "X" "X" := by
  apply Document.exists_of_text
    (fun document => (document.classes?,
      decide (document.Leads false "A" rootName ∧ document.Leads false rootName "A")))
    (some [("A", true), ("X", true), ("Y", true)], true)
  · decide +kernel
  · intro document _ computed
    obtain ⟨accepts, steps⟩ := Prod.mk.inj computed
    obtain ⟨schema, accepted, classes⟩ := Document.exists_schema accepts
    obtain ⟨forth, back⟩ := of_decide_eq_true steps
    obtain ⟨first, firstPresent, firstNamed, firstStatic⟩ :=
      Schema.exists_of_mem_classes (show ("A", true) ∈ schema.classes by simp [classes])
    obtain ⟨last, lastPresent, lastNamed, lastStatic⟩ :=
      Schema.exists_of_mem_classes (show ("X", true) ∈ schema.classes by simp [classes])
    have atFirst := Document.plain_cycle_iff_through_root document schema accepted first
      firstPresent firstStatic
    have atLast := Document.plain_cycle_iff_through_root document schema accepted last
      lastPresent lastStatic
    rw [firstNamed] at atFirst
    rw [lastNamed] at atLast
    exact ⟨schema, accepted, classes, atFirst.2.2 ⟨.single forth, .single back⟩, atFirst.1,
      atLast.1⟩

/-- A static definition of an accepted document can lead back to itself by plain references. -/
theorem Document.plain_cycle_accepted :
    ∃ document,
      Document.ofText false "type Storage \x7b a: A \x7d\ntype A \x7b s: Storage \x7d" =
        .ok document ∧
      ∃ schema, document.check = .ok schema ∧ ∃ classified ∈ schema.definitions,
        classified.isStatic = true ∧
        TransGen (document.Leads false) classified.name classified.name := by
  apply Document.exists_of_text
    (fun document => (document.classes?,
      decide (document.Leads false "A" rootName ∧ document.Leads false rootName "A")))
    (some [("A", true)], true)
  · decide +kernel
  · intro document _ computed
    obtain ⟨accepts, steps⟩ := Prod.mk.inj computed
    obtain ⟨schema, accepted, classes⟩ := Document.exists_schema accepts
    obtain ⟨forth, back⟩ := of_decide_eq_true steps
    obtain ⟨classified, present, named, static⟩ :=
      Schema.exists_of_mem_classes (show ("A", true) ∈ schema.classes by simp [classes])
    exact ⟨schema, accepted, classified, present, static, named ▸ .head forth (.single back)⟩

end StorageSchema
