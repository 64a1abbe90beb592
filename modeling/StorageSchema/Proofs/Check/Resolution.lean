/-
This file shows that an accepted document resolves its references. Its names are distinct and its
references are declared, because nothing else is reported of it.
-/
import Mathlib.Data.List.Nodup
import StorageSchema.Proofs.Check.Classification
import StorageSchema.Proofs.Check.Report
import StorageSchema.Proofs.Document.Cover

namespace StorageSchema

variable {Mark : Type}

/-- The table of a schema has the first definition of each name with its class. -/
def Schema.table (schema : Schema Mark) : List (String × ClassifiedDefinition Mark) :=
  (Definition.firsts [] schema.document.definitions).map fun definition =>
    (definition.name.text, ⟨definition, definition.isStatic schema.document.liveNames⟩)

/-! ### Distinct names -/

/-- Without problems of names no name is repeated, and so each definition is the first of its
name. -/
theorem Definition.distinct_of_allNameProblems {seen : List String}
    {definitions : List (Definition Mark)}
    (none : Definition.allNameProblems seen definitions = []) :
    (∀ definition ∈ definitions, definition.name.text ∉ seen) ∧
      (definitions.map fun definition => definition.name.text).Nodup ∧
      Definition.firsts seen definitions = definitions := by
  induction definitions generalizing seen with
  | nil => exact ⟨List.forall_mem_nil _, List.nodup_nil, rfl⟩
  | cons definition rest inductionHypothesis =>
      obtain ⟨own, later⟩ := List.append_eq_nil_iff.1 none
      obtain ⟨others, distinct, first⟩ := inductionHypothesis later
      have fresh : definition.name.text ∉ seen := by
        intro known
        simp [Definition.nameProblems, known] at own
      refine ⟨?_, ?_, ?_⟩
      · intro other present known
        rcases List.mem_cons.1 present with rfl | isOther
        · exact fresh known
        · exact others other isOther (List.mem_cons_of_mem _ known)
      · apply List.nodup_cons.2
        refine ⟨?_, distinct⟩
        intro repeated
        obtain ⟨other, present, same⟩ := List.mem_map.1 repeated
        exact others other present (same ▸ List.mem_cons_self)
      · rw [Definition.firsts, if_neg (by simpa using fresh), first]

/-- With distinct names a search finds exactly the entry that has the name. -/
theorem ClassifiedDefinition.find?_eq_some_iff {entries : List (ClassifiedDefinition Mark)}
    (distinct : (entries.map ClassifiedDefinition.name).Nodup) (name : String)
    (entry : ClassifiedDefinition Mark) :
    entries.find? (fun other => other.name = name) = some entry ↔
      entry ∈ entries ∧ entry.name = name := by
  constructor
  · intro found
    exact ⟨List.mem_of_find?_eq_some found, by simpa using List.find?_some found⟩
  · rintro ⟨present, named⟩
    cases found : entries.find? fun other => other.name = name with
    | none =>
        have missing := List.find?_eq_none.1 found entry present
        simp [named] at missing
    | some other =>
        have otherNamed : other.name = name := by simpa using List.find?_some found
        exact congrArg some (List.inj_on_of_nodup_map distinct (List.mem_of_find?_eq_some found)
          present (otherNamed.trans named.symm))

theorem ClassifiedDefinition.lookup_eq_find? (entries : List (ClassifiedDefinition Mark))
    (name : String) :
    (entries.map fun entry => (entry.name, entry)).lookup name =
      entries.find? fun entry => entry.name = name := by
  induction entries with
  | nil => rfl
  | cons entry rest inductionHypothesis =>
      rw [List.map_cons, List.lookup_cons, List.find?_cons, inductionHypothesis]
      by_cases same : entry.name = name
      · simp [same]
      · simp [same, beq_eq_false_iff_ne.2 (Ne.symm same)]

/-! ### Resolution -/

/-- An accepted document is divided by its root, and the definitions around the root are the others
of the schema. -/
theorem Document.exists_division_of_check {document : Document Mark} {schema : Schema Mark}
    (accepted : document.check = .ok schema) :
    (document.definitions.map fun definition => definition.name.text).Nodup ∧
      ∃ before after, document.definitions = before ++ schema.root.definition :: after ∧
        schema.definitions.map ClassifiedDefinition.definition = before ++ after := by
  have others := Document.definitions_of_check accepted
  obtain ⟨root, found, none, rfl⟩ := (document.check_eq_ok_iff schema).1 accepted
  simp only [Document.problems, List.append_eq_nil_iff] at none
  obtain ⟨-, distinct, -⟩ := Definition.distinct_of_allNameProblems none.1.1.1
  obtain ⟨isRoot, before, after, divided, -⟩ := List.find?_eq_some_iff_append.1 found
  have named : root.name.text = rootName := by simpa using isRoot
  refine ⟨distinct, before, after, divided, ?_⟩
  rw [divided, List.map_append, List.map_cons] at distinct
  have apart := List.nodup_middle.1 distinct
  rw [List.nodup_cons, ← List.map_append, named] at apart
  have kept : ∀ definition ∈ before ++ after, definition.name.text != rootName := by
    intro definition present
    rw [bne_iff_ne]
    rintro same
    exact apart.1 (same ▸ List.mem_map_of_mem present)
  rw [others, divided, List.filter_append, List.filter_cons_of_neg (by simp [named]),
    ← List.filter_append, List.filter_eq_self.2 kept]

/-- The root comes first, and then all other definitions in their order. -/
theorem Document.perm_all_of_check {document : Document Mark} {schema : Schema Mark}
    (accepted : document.check = .ok schema) :
    (schema.all.map ClassifiedDefinition.definition).Perm document.definitions := by
  obtain ⟨-, before, after, divided, others⟩ := Document.exists_division_of_check accepted
  rw [Schema.all, List.map_cons, others, divided]
  exact List.perm_middle.symm

theorem Document.nodup_names_of_check {document : Document Mark} {schema : Schema Mark}
    (accepted : document.check = .ok schema) :
    (schema.all.map ClassifiedDefinition.name).Nodup := by
  have named := (Document.perm_all_of_check accepted).map fun definition => definition.name.text
  rw [List.map_map] at named
  exact named.nodup_iff.2 (Document.exists_division_of_check accepted).1

/-- Every definition of a schema has its class by the live names, and so has the root. -/
theorem Document.eq_classified_of_check {document : Document Mark} {schema : Schema Mark}
    (accepted : document.check = .ok schema) :
    schema.document = document ∧
      ∀ entry ∈ schema.all,
        entry = ⟨entry.definition, entry.definition.isStatic document.liveNames⟩ := by
  obtain ⟨root, found, -, rfl⟩ := (document.check_eq_ok_iff schema).1 accepted
  refine ⟨rfl, ?_⟩
  intro entry present
  rcases List.mem_cons.1 present with rfl | isOther
  · change ClassifiedDefinition.mk root false = ⟨root, root.isStatic document.liveNames⟩
    rw [Definition.isStatic, (Document.find?_eq_some found).2, bne_self_eq_false, Bool.false_and]
  · obtain ⟨definition, -, rfl⟩ := List.mem_map.1 isOther
    rfl

/-- The table has the entries of a schema under their names. -/
theorem Document.lookup_of_check {document : Document Mark} {schema : Schema Mark}
    (accepted : document.check = .ok schema) (name : String) :
    schema.table.lookup name = schema.all.find? fun entry => entry.name = name := by
  obtain ⟨same, classes⟩ := Document.eq_classified_of_check accepted
  obtain ⟨_, _, none, -⟩ := (document.check_eq_ok_iff schema).1 accepted
  simp only [Document.problems, List.append_eq_nil_iff] at none
  obtain ⟨-, -, firsts⟩ := Definition.distinct_of_allNameProblems none.1.1.1
  -- The table and the schema have the same entries in a different order.
  let classify (definition : Definition Mark) : ClassifiedDefinition Mark :=
    ⟨definition, definition.isStatic document.liveNames⟩
  have listed : schema.all = (schema.all.map ClassifiedDefinition.definition).map classify := by
    rw [List.map_map]
    have unchanged := List.map_congr_left fun entry present => (classes entry present).symm
    rw [List.map_id'] at unchanged
    exact unchanged.symm
  have perm : schema.all.Perm (document.definitions.map classify) := by
    rw [listed]
    exact (Document.perm_all_of_check accepted).map classify
  have table : schema.table =
      (document.definitions.map classify).map fun entry => (entry.name, entry) := by
    rw [Schema.table, same, firsts, List.map_map]
    rfl
  have distinct := Document.nodup_names_of_check accepted
  have tableDistinct := (perm.map ClassifiedDefinition.name).nodup_iff.1 distinct
  rw [table, ClassifiedDefinition.lookup_eq_find?]
  apply Option.ext
  intro entry
  rw [ClassifiedDefinition.find?_eq_some_iff tableDistinct,
    ClassifiedDefinition.find?_eq_some_iff distinct, perm.mem_iff]

theorem Document.exists_field_of_mem_nodes {document : Document Mark} {type : TypeExpr Mark}
    (present : Node.type type ∈ document.nodes) :
    ∃ definition ∈ document.definitions, ∃ field ∈ definition.fields,
      type ∈ field.type.subexpressions := by
  have own (other : TypeExpr Mark) (among : Node.type type ∈ other.ownNodes) : type = other := by
    cases other <;> simpa [TypeExpr.ownNodes] using among
  rcases List.mem_cons.1 present with same | below
  · cases same
  · obtain ⟨definition, declared, inDefinition⟩ := List.mem_flatMap.1 below
    refine ⟨definition, declared, ?_⟩
    simp only [Definition.nodes, Field.nodes, TypeExpr.nodes, List.mem_cons, List.mem_flatMap,
      reduceCtorEq, false_or] at inDefinition
    obtain ⟨field, isField, other, among, isOwn⟩ := inDefinition
    exact ⟨field, isField, own other isOwn ▸ among⟩

/-- Every reference of an accepted document names one of its definitions. -/
theorem Document.declared_of_check {document : Document Mark} {schema : Schema Mark}
    (accepted : document.check = .ok schema) {reference : Reference Mark}
    (present : Node.type (.reference reference) ∈ document.nodes) :
    reference.name.text ∈ document.declaredNames := by
  obtain ⟨_, _, none, -⟩ := (document.check_eq_ok_iff schema).1 accepted
  simp only [Document.problems, List.append_eq_nil_iff] at none
  have report : document.typeReport = [] := document.typeProblems_eq.symm.trans none.1.2
  obtain ⟨definition, declared, field, isField, among⟩ :=
    Document.exists_field_of_mem_nodes present
  have own := List.flatMap_eq_nil_iff.1 (List.flatMap_eq_nil_iff.1
    (List.flatMap_eq_nil_iff.1 report definition declared) field isField) _ among
  by_contra unknown
  simp [TypeExpr.ownReport, unknown] at own

/-- The table of an accepted document has each of its entries. -/
theorem Document.lookup_of_mem_all {document : Document Mark} {schema : Schema Mark}
    (accepted : document.check = .ok schema) {entry : ClassifiedDefinition Mark}
    (present : entry ∈ schema.all) : schema.table.lookup entry.name = some entry := by
  rw [Document.lookup_of_check accepted,
    ClassifiedDefinition.find?_eq_some_iff (Document.nodup_names_of_check accepted)]
  exact ⟨present, rfl⟩

/-- The table of an accepted document has every name that is declared. -/
theorem Document.isSome_lookup_of_check {document : Document Mark} {schema : Schema Mark}
    (accepted : document.check = .ok schema) {definition : Definition Mark}
    (declared : definition ∈ document.definitions) :
    (schema.table.lookup definition.name.text).isSome := by
  obtain ⟨entry, present, rfl⟩ :=
    List.mem_map.1 ((Document.perm_all_of_check accepted).mem_iff.2 declared)
  have found := Document.lookup_of_mem_all accepted present
  rw [ClassifiedDefinition.name] at found
  rw [found]
  rfl

/-- An accepted document resolves its references in the same way in all its views. The root and the
other definitions are those of the document, each once and with a name of its own, and the others
keep their order. The root is named as roots are. The table has the entry of every name, whether the
name comes from the document or not, and each reference anywhere in the document has one. -/
theorem Document.check_resolves (document : Document Mark) (schema : Schema Mark)
    (accepted : document.check = .ok schema) :
    (schema.all.map ClassifiedDefinition.definition).Perm document.definitions ∧
    (schema.all.map ClassifiedDefinition.name).Nodup ∧
    schema.root.name = rootName ∧ schema.table.lookup rootName = some schema.root ∧
    (∃ before after, document.definitions = before ++ schema.root.definition :: after ∧
      schema.definitions.map ClassifiedDefinition.definition = before ++ after ∧
      (before ++ after).map (fun definition => schema.table.lookup definition.name.text) =
        schema.definitions.map some) ∧
    (∀ (Other : Type) (reference : Reference Other),
      schema.table.lookup reference.name.text = schema.resolve? reference ∧
      (∀ entry, schema.resolve? reference = some entry ↔
        entry ∈ schema.all ∧ entry.name = reference.name.text) ∧
      (schema.resolve? reference = none ↔
        ∀ entry ∈ schema.all, entry.name ≠ reference.name.text)) ∧
    ∀ reference, (Node.document document).Inside (.type (.reference reference)) →
      (schema.resolve? reference).isSome := by
  have perm := Document.perm_all_of_check accepted
  have distinct := Document.nodup_names_of_check accepted
  have found := ClassifiedDefinition.find?_eq_some_iff distinct
  have rootNamed := (Document.root_of_check accepted).1
  refine ⟨perm, distinct, rootNamed, ?_, ?_, ?_, ?_⟩
  · rw [← rootNamed]
    exact Document.lookup_of_mem_all accepted List.mem_cons_self
  · obtain ⟨-, before, after, divided, others⟩ := Document.exists_division_of_check accepted
    refine ⟨before, after, divided, others, ?_⟩
    rw [← others, List.map_map]
    apply List.map_congr_left
    intro entry present
    exact Document.lookup_of_mem_all accepted (List.mem_cons_of_mem schema.root present)
  · intro Other reference
    refine ⟨Document.lookup_of_check accepted _, found _, ?_⟩
    rw [Schema.resolve?, List.find?_eq_none]
    simp
  · intro reference inside
    have declared := Document.declared_of_check accepted (Document.mem_nodes_iff.2 inside)
    obtain ⟨definition, present, named⟩ := List.mem_map.1 declared
    obtain ⟨entry, isEntry, rfl⟩ := List.mem_map.1 (perm.mem_iff.2 present)
    have resolved : schema.resolve? reference = some entry :=
      (found _ entry).2 ⟨isEntry, named⟩
    rw [resolved]
    rfl

/-- Here the root is the second of three definitions, and they refer to one another. -/
theorem Document.check_resolves_of_three :
    ∃ document,
      Document.ofText false "type A \x7bb: LiveMap<string, B[]>\x7d
        type Storage \x7ba: LiveObject<A>\x7d type B \x7bs: Storage | null\x7d" = .ok document ∧
      ∃ schema, document.check = .ok schema ∧
        schema.classes = [("A", false), ("B", false)] ∧
        (schema.all.map ClassifiedDefinition.name).Nodup ∧
        schema.table.lookup rootName = some schema.root := by
  apply Document.exists_of_text Document.classes? (some [("A", false), ("B", false)])
  · decide +kernel
  · intro document _ computed
    obtain ⟨schema, accepted, classes⟩ := Document.exists_schema computed
    obtain ⟨-, distinct, -, root, -⟩ := Document.check_resolves document schema accepted
    exact ⟨schema, accepted, classes, distinct, root⟩

end StorageSchema
