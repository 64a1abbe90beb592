/-
This file shows that reading and checking a text never lack an answer. Everything that is looked up
is there, every diagnostic stands between characters of the text, and so each failure can be shown.
-/
import StorageSchema.Proofs.Check.Answer
import StorageSchema.Proofs.Diagnostic
import StorageSchema.Proofs.Document.Marks

namespace StorageSchema

variable {Mark : Type} {legacy : Bool} {text : String}

/-- Every number that is read has a value, because no error is worded like a missing one. -/
theorem SyntaxError.message_ne_invalid (error : SyntaxError Mark) :
    error.message ≠ "invalid number literal" := by
  have begins : error.message.toList.head? ≠ some 'i' := by
    unfold SyntaxError.message
    split
    · simp [String.join]
    · simp [Expectation.message]
    · split <;> simp [String.join]
  intro same
  rw [same] at begins
  exact begins rfl

/-! ### Problems -/

theorem Document.mem_nodes_of_definition {document : Document Mark}
    {definition : Definition Mark} (declared : definition ∈ document.definitions)
    {node : Node Mark} (inside : node ∈ definition.nodes) : node ∈ document.nodes :=
  List.mem_cons_of_mem _ (List.mem_flatMap.2 ⟨definition, declared, inside⟩)

theorem Definition.mem_nodes_of_field {definition : Definition Mark} {field : Field Mark}
    (isField : field ∈ definition.fields) {node : Node Mark} (inside : node ∈ field.nodes) :
    node ∈ definition.nodes :=
  List.mem_cons_of_mem _ (List.mem_cons_of_mem _ (List.mem_flatMap.2 ⟨field, isField, inside⟩))

/-- Each part comes with earlier ones of the same list. -/
theorem mem_of_mem_withEarlier {Part : Type} {parts earlier : List Part} {part : Part}
    (present : (earlier, part) ∈ withEarlier parts) : part ∈ parts :=
  (List.of_mem_zip present).2

theorem Document.exists_node_of_mem_nameReport {document : Document Mark}
    {problem : Problem Mark} (present : problem ∈ document.nameReport) :
    ∃ node ∈ document.nodes, node.mark = problem.mark := by
  obtain ⟨⟨earlier, definition⟩, among, reported⟩ := List.mem_flatMap.1 present
  have declared := mem_of_mem_withEarlier among
  have own : Node.typeName definition.name ∈ document.nodes :=
    Document.mem_nodes_of_definition declared (List.mem_cons_of_mem _ List.mem_cons_self)
  simp only [Definition.nameReport, List.mem_append, List.mem_ite_nil_right, List.mem_singleton,
    Field.repeatedReport, List.mem_flatMap] at reported
  rcases reported with (reserved | repeated) | ⟨⟨others, field⟩, isAmong, -, rfl⟩
  · exact ⟨_, own, by rw [reserved.2]; rfl⟩
  · exact ⟨_, own, by rw [repeated.2]; rfl⟩
  · have isField := mem_of_mem_withEarlier isAmong
    exact ⟨.fieldName field.name, Document.mem_nodes_of_definition declared
      (Definition.mem_nodes_of_field isField (List.mem_cons_of_mem _ List.mem_cons_self)), rfl⟩

/-- A problem of a type is stated at a child of the type. -/
theorem TypeExpr.exists_child_of_mem_ownReport {declared : List String} {type : TypeExpr Mark}
    {problem : Problem Mark} (present : problem ∈ type.ownReport declared) :
    ∃ child ∈ type.children, child.mark = problem.mark := by
  cases type with
  | liveMap mark key value =>
      simp only [TypeExpr.ownReport, List.mem_ite_nil_left, List.mem_singleton] at present
      rw [present.2]
      exact ⟨.type key, List.mem_cons_self, rfl⟩
  | reference named =>
      simp only [TypeExpr.ownReport, List.mem_ite_nil_left, List.mem_singleton] at present
      rw [present.2]
      exact ⟨.typeName named.name, List.mem_cons_self, rfl⟩
  | _ => simp [TypeExpr.ownReport] at present

theorem Document.exists_node_of_mem_typeReport {document : Document Mark}
    {problem : Problem Mark} (present : problem ∈ document.typeReport) :
    ∃ node ∈ document.nodes, node.mark = problem.mark := by
  obtain ⟨definition, declared, present⟩ := List.mem_flatMap.1 present
  obtain ⟨field, isField, present⟩ := List.mem_flatMap.1 present
  obtain ⟨type, among, reported⟩ := List.mem_flatMap.1 present
  obtain ⟨child, below, mark⟩ := TypeExpr.exists_child_of_mem_ownReport reported
  have own : Node.type type ∈ type.ownNodes := by
    cases type <;> exact List.mem_cons_self
  have inField : Node.type type ∈ field.nodes :=
    List.mem_cons_of_mem _ (List.mem_cons_of_mem _ (List.mem_flatMap.2 ⟨type, among, own⟩))
  have inside := Document.mem_nodes_iff.1 (Document.mem_nodes_of_definition declared
    (Definition.mem_nodes_of_field isField inField))
  exact ⟨child, Document.mem_nodes_iff.2 (.child inside below), mark⟩

theorem Document.exists_node_of_mem_cycleProblems {document : Document Mark}
    {problem : Problem Mark} (present : problem ∈ document.cycleProblems) :
    ∃ node ∈ document.nodes, node.mark = problem.mark := by
  rw [Document.cycleProblems, List.mem_ite_nil_right, List.mem_filterMap] at present
  obtain ⟨-, members, cycle, stated⟩ := present
  obtain ⟨first, definition, -, found, shown⟩ := document.exists_cycleProblem cycle
  rw [shown] at stated
  rw [← Option.some.inj stated]
  exact ⟨.typeName definition.name, Document.mem_nodes_of_definition
    (Document.find?_eq_some found).1 (List.mem_cons_of_mem _ List.mem_cons_self), rfl⟩

/-- Every problem of a document is stated at a node of it. -/
theorem Document.exists_node_of_mem_problems {document : Document Mark} {problem : Problem Mark}
    (present : problem ∈ document.problems) :
    ∃ node ∈ document.nodes, node.mark = problem.mark := by
  rw [← Document.reported_eq, Document.reported_eq_append] at present
  rcases List.mem_append.1 present with earlier | cycle
  · simp only [Document.earlierReport, List.mem_append, List.mem_ite_nil_left,
      List.mem_singleton] at earlier
    rcases earlier with (inNames | missing) | inTypes
    · exact Document.exists_node_of_mem_nameReport inNames
    · rw [missing.2]
      exact ⟨.document document, List.mem_cons_self, rfl⟩
    · exact Document.exists_node_of_mem_typeReport inTypes
  · exact Document.exists_node_of_mem_cycleProblems cycle

theorem Document.placed_of_mem_problems {document : Document Span}
    (read : Document.ofText legacy text = .ok document) {problem : Problem Span}
    (present : problem ∈ document.problems) : problem.span.PlacedIn text.toList := by
  obtain ⟨node, isNode, mark⟩ := Document.exists_node_of_mem_problems present
  have placed := Document.placed_of_mem_nodes read isNode
  rw [mark] at placed
  rw [Problem.span]
  split
  · exact ⟨Nat.le_refl _, placed.start, placed.start⟩
  · exact placed

/-! ### Failures -/

/-- A failure fits a text if it has diagnostics, each of them does, and they can be shown. -/
structure Failure.FitsText (text : String) (failure : Failure) : Prop where
  nonempty : failure.diagnostics ≠ []
  fits : ∀ diagnostic ∈ failure.diagnostics, diagnostic.FitsText text
  shown : failure.rendered.isSome

/-- What is pending fails as a whole, and fits the text if each diagnostic is placed in it. -/
theorem Review.fitsText_fail (review : Review) (nonempty : review.pending ≠ [])
    (placed : ∀ diagnostic ∈ review.pending, diagnostic.span.PlacedIn review.text.toList) :
    review.fail.1.FitsText review.text := by
  constructor
  · exact nonempty
  · intro diagnostic present
    exact (placed diagnostic present).fitsText
  · exact Review.isSome_renderAll? placed

theorem Review.fitsText_of_read_eq_error {error : SyntaxError Span}
    (refused : Document.ofText legacy text = .error error) :
    ((Review.ofText text).note error.diagnostic).fail.1.FitsText text := by
  obtain ⟨before, token, after, _, divided, place, -⟩ := Document.exists_refused refused
  have significant : token ∈ Token.significant text := by
    rw [divided]
    exact List.mem_append_right _ List.mem_cons_self
  have placed := (Token.slices_of_mem (List.mem_filter.1 significant).1).placed
  apply Review.fitsText_fail ((Review.ofText text).note error.diagnostic)
  · exact List.cons_ne_nil _ _
  · intro diagnostic present
    obtain rfl := List.mem_singleton.1 present
    rw [← place] at placed
    exact placed

theorem Review.fitsText_of_check_eq_error {document : Document Span}
    (read : Document.ofText legacy text = .ok document) {problems : List (Problem Span)}
    (rejected : document.check = .error problems) :
    ((Review.ofText text).noteAll (problems.map Problem.diagnostic)).fail.1.FitsText text := by
  obtain ⟨rfl, nonempty⟩ := (document.check_eq_error_iff problems).1 rejected
  apply Review.fitsText_fail
    ((Review.ofText text).noteAll (document.problems.map Problem.diagnostic))
  · exact List.map_eq_nil_iff.not.2 nonempty
  · intro diagnostic present
    obtain ⟨problem, isProblem, rfl⟩ := List.mem_map.1 present
    exact Document.placed_of_mem_problems read isProblem

/-- For every text, reading and then checking with the same review have an answer. The tokens stand
between boundaries of the text and are spelled as they are read. Reading never lacks a token or a
part of the text, and it finds the value of every number. What is read is checked, and no lookup in
it fails. Each failure fits the text, and the table of an accepted document has its root and all
other definitions. -/
theorem Review.front_end_safe (legacy : Bool) (text : String) :
    (∀ token ∈ Token.ofText text ++ [Token.endOf text], token.FitsText text) ∧
    (∃ outcome, Document.read? legacy text = some outcome ∧
      ∀ diagnostic, outcome = .error diagnostic →
        diagnostic.message ≠ "invalid number literal") ∧
    match (Review.ofText text).read legacy with
    | (.error failure, _) => failure.FitsText text
    | (.ok document, review) =>
        (∃ outcome, document.check? = some outcome) ∧
        match (review.check document).1 with
        | .error failure => failure.FitsText text
        | .ok schema =>
            (schema.table.lookup rootName).isSome ∧
            ∀ definition ∈ document.definitions,
              (schema.table.lookup definition.name.text).isSome := by
  refine ⟨fun token present => Token.fitsText_of_mem present,
    ⟨_, Document.read?_eq legacy text, ?_⟩, ?_⟩
  · intro diagnostic failed
    cases read : Document.ofText legacy text with
    | ok document =>
        rw [read] at failed
        cases failed
    | error error =>
        rw [read] at failed
        obtain rfl : error.diagnostic = diagnostic := Except.error.inj failed
        exact error.message_ne_invalid
  · rw [Review.read_eq_ofText]
    cases read : Document.ofText legacy (Review.ofText text).text with
    | error error => exact Review.fitsText_of_read_eq_error read
    | ok document =>
        refine ⟨⟨_, document.check?_eq⟩, ?_⟩
        cases checked : document.check with
        | error problems =>
            rw [Review.check_eq_conclude, checked]
            exact Review.fitsText_of_check_eq_error read checked
        | ok schema =>
            have accepted : ((Review.ofText text).check document).1 = .ok schema :=
              (Review.check_eq_ok_iff _ _ _).2 ⟨rfl, checked⟩
            change match ((Review.ofText text).check document).1 with | .error _ => _ | .ok _ => _
            rw [accepted]
            obtain ⟨root, found, -⟩ := (document.check_eq_ok_iff schema).1 checked
            obtain ⟨declared, named⟩ := Document.find?_eq_some found
            refine ⟨?_, fun definition present => Document.isSome_lookup_of_check checked present⟩
            rw [← named]
            exact Document.isSome_lookup_of_check checked declared

end StorageSchema
