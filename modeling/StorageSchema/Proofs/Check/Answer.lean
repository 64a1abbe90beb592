/-
This file shows that checking by lookups has an answer, and that it is the answer of checking. What
waits has a flag, the cycles have members, and the table has every name that is looked up in it.
-/
import StorageSchema.Proofs.Check.Resolution
import StorageSchema.Proofs.Check.StaticCycles
import StorageSchema.Proofs.Check.Worklist
import StorageSchema.Review

namespace StorageSchema

variable {Mark : Type}

/-! ### Classes -/

/-- A visit has an answer if the name that waits first has a flag. -/
theorem Document.visit?_eq (document : Document Mark) {worklist : Worklist}
    (flagged : ∀ name ∈ worklist.waiting, (worklist.flag? name).isSome) :
    document.visit? worklist = some (document.visit worklist) := by
  rcases worklist with ⟨flags, _ | ⟨name, rest⟩⟩
  · rfl
  · obtain ⟨isLive, found⟩ := Option.isSome_iff_exists.1 (flagged name List.mem_cons_self)
    simp only [Document.visit?, Document.visit, found]
    cases isLive <;> rfl

/-- Every name that waits in a round has been entered, and so it has a flag. -/
theorem Document.isSome_flag?_of_waiting (document : Document Mark) (rounds : Nat) {name : String}
    (waiting : name ∈ (document.sweepAfter rounds).worklist.waiting) :
    ((document.sweepAfter rounds).worklist.flag? name).isSome := by
  obtain ⟨arrival, isPending, rfl⟩ := List.mem_map.1 waiting
  have entered := (document.sweepAfter_invariant rounds).logged arrival isPending
  have flagged := (Arrival.mem_flags_iff _ arrival.name arrival.isLive).2 entered
  rw [Sweep.flag?_worklist, List.isSome_head?]
  exact List.ne_nil_of_mem flagged

theorem Document.visit?_sweepAfter (document : Document Mark) (rounds : Nat) :
    document.visit? (document.sweepAfter rounds).worklist =
      some (document.sweepAfter (rounds + 1)).worklist := by
  rw [Document.visit?_eq document fun _ => document.isSome_flag?_of_waiting rounds,
    ← Document.worklist_step (document.sweepAfter_ordered rounds)
      (document.sweepAfter_invariant rounds), Document.sweepAfter_succ]

theorem Document.visitAll?_of_finished (document : Document Mark) (rounds : Nat)
    {worklist : Worklist} (finished : worklist.waiting = []) :
    document.visitAll? rounds worklist = some worklist := by
  unfold Document.visitAll?
  rw [finished]

theorem Document.visitAll?_succ (document : Document Mark) (rounds : Nat) (worklist : Worklist) :
    document.visitAll? (rounds + 1) worklist =
      (document.visit? worklist).bind (document.visitAll? rounds) := by
  rcases worklist with ⟨flags, _ | ⟨name, rest⟩⟩
  · exact (document.visitAll?_of_finished rounds rfl).symm
  · rfl

/-- From any round on, the visits come to the end of the sweep if there are enough of them. -/
theorem Document.visitAll?_sweepAfter (document : Document Mark) (rounds before : Nat)
    (enough : 2 * document.definitions.length + 1 ≤ before + rounds) :
    document.visitAll? rounds (document.sweepAfter before).worklist =
      some document.sweep.worklist := by
  induction rounds generalizing before with
  | zero =>
      obtain ⟨finished, same⟩ := document.sweepAfter_finished enough
      rw [Nat.add_zero] at finished same
      rw [← same]
      apply Document.visitAll?_of_finished
      rw [Sweep.worklist, finished, List.map_nil]
  | succ rounds inductionHypothesis =>
      rw [Document.visitAll?_succ, Document.visit?_sweepAfter, Option.bind_some]
      exact inductionHypothesis (before + 1) (by omega)

/-- The visits from the root always end, with the flags of the sweep. -/
theorem Document.classify?_eq (document : Document Mark) :
    document.classify? = some document.sweep.worklist :=
  document.visitAll?_sweepAfter (2 * document.definitions.length + 1) 0 (by omega)

/-- The live names are those whose flags have been raised or live from the first. -/
theorem Document.contains_liveNames (document : Document Mark) (name : String) :
    document.liveNames.contains name =
      (Arrival.flags document.sweep.entered name).contains true := by
  rw [Bool.eq_iff_iff, List.contains_iff_mem, List.contains_iff_mem, Arrival.mem_flags_iff,
    Document.liveNames]
  constructor
  · intro live
    obtain ⟨⟨_, isLive⟩, entered, rfl⟩ := List.mem_map.1 live
    obtain ⟨entered, raised⟩ := List.mem_filter.1 entered
    obtain rfl : isLive = true := raised
    exact entered
  · intro entered
    exact List.mem_map.2 ⟨_, List.mem_filter.2 ⟨entered, rfl⟩, rfl⟩

/-- A definition is static by its flag if and only if it is by the live names. -/
theorem Document.isStatic_worklist (document : Document Mark) (definition : Definition Mark) :
    document.sweep.worklist.isStatic definition = definition.isStatic document.liveNames := by
  have uncovered := (document.sweepAfter_ordered (2 * document.definitions.length + 1)).uncovered
  rw [(document.sweepAfter_finished (Nat.le_refl _)).2] at uncovered
  have known := Arrival.flags_mem uncovered definition.name.text
  rw [Worklist.isStatic, Definition.isStatic, Sweep.flag?_worklist, document.contains_liveNames]
  generalize Arrival.flags document.sweep.entered definition.name.text = flags at known ⊢
  simp only [List.mem_cons, List.not_mem_nil, or_false] at known
  rcases known with rfl | rfl | rfl | rfl <;> rfl

/-! ### Cycles -/

theorem Document.filter_isStatic_worklist (document : Document Mark) :
    (Definition.firsts [] document.definitions).filter document.sweep.worklist.isStatic =
      document.staticDefinitions :=
  List.filter_congr fun definition _ => document.isStatic_worklist definition

/-- Each cycle has a first member, which stands for a definition. -/
theorem Document.searchCycleProblems?_eq (document : Document Mark)
    (rooted : document.declares rootName = true) :
    document.searchCycleProblems? document.sweep.worklist = some document.cycleProblems := by
  have stated : ∀ members ∈ document.staticCycles, (document.cycleProblem? members).isSome := by
    intro members cycle
    obtain ⟨_, _, -, -, equal⟩ := document.exists_cycleProblem cycle
    rw [equal]
    rfl
  have searched : (Definition.plainGraph document.staticDefinitions).searchCycles? =
      some document.staticCycles := by
    rw [document.staticCycles_eq]
    exact document.searchCycles?_staticGraph
  rw [Document.searchCycleProblems?, document.filter_isStatic_worklist, searched,
    Document.cycleProblems, if_pos rooted]
  exact mapM_eq_some_filterMap stated

/-! ### The schema -/

/-- The table has the entries of all definitions of an accepted document. -/
theorem Document.resolve?_eq {document : Document Mark} {schema : Schema Mark}
    (accepted : document.check = .ok schema) :
    document.resolve? document.sweep.worklist = some schema := by
  have same := (Document.eq_classified_of_check accepted).1
  have table : ((Definition.firsts [] document.definitions).map fun definition =>
      (definition.name.text, ClassifiedDefinition.mk definition
        (document.sweep.worklist.isStatic definition))) = schema.table := by
    rw [Schema.table, same]
    apply List.map_congr_left
    intro definition _
    rw [document.isStatic_worklist]
  have root : schema.table.lookup rootName = some schema.root := by
    rw [← (Document.root_of_check accepted).1]
    exact Document.lookup_of_mem_all accepted List.mem_cons_self
  have others : ((document.definitions.filter fun definition =>
      definition.name.text != rootName).mapM fun definition =>
        schema.table.lookup definition.name.text) = some schema.definitions := by
    rw [← Document.definitions_of_check accepted, List.mapM_map]
    apply (mapM_eq_some_map _).trans
    · rw [List.map_id]
    · intro entry present
      exact Document.lookup_of_mem_all accepted (List.mem_cons_of_mem schema.root present)
  rw [Document.resolve?, table, others, root]
  cases schema
  cases same
  rfl

/-! ### Checking -/

theorem Document.exists_cons_of_check {document : Document Mark} {problems : List (Problem Mark)}
    (rejected : document.check = .error problems) :
    ∃ first rest, document.problems = first :: rest ∧ problems = first :: rest := by
  obtain ⟨rfl, nonempty⟩ := (document.check_eq_error_iff problems).1 rejected
  obtain ⟨first, rest, listed⟩ := List.exists_cons_of_ne_nil nonempty
  exact ⟨first, rest, listed, listed⟩

/-- Checking by lookups always has an answer, and it is that of checking. -/
theorem Document.check?_eq (document : Document Mark) :
    document.check? = some document.check := by
  unfold Document.check?
  cases rooted : document.declares rootName with
  | false =>
      have reported : Definition.allNameProblems [] document.definitions ++
          document.rootProblems ++ document.typeProblems = document.problems := by
        rw [Document.problems, Document.cycleProblems, rooted]
        simp
      simp only [Bool.false_eq_true, if_false, reported]
      cases checked : document.check with
      | ok schema =>
          obtain ⟨root, found, -⟩ := (document.check_eq_ok_iff schema).1 checked
          rw [Document.declares_of_find? found] at rooted
          cases rooted
      | error problems =>
          obtain ⟨first, rest, listed, rfl⟩ := Document.exists_cons_of_check checked
          rw [listed]
  | true =>
      have reported : Definition.allNameProblems [] document.definitions ++
          document.rootProblems ++ document.typeProblems ++ document.cycleProblems =
            document.problems :=
        rfl
      simp only [if_true, document.classify?_eq, document.searchCycleProblems?_eq rooted,
        Option.bind_eq_bind, Option.bind_some, reported]
      cases checked : document.check with
      | ok schema =>
          obtain ⟨_, -, nothing, -⟩ := (document.check_eq_ok_iff schema).1 checked
          rw [nothing, Document.resolve?_eq checked]
          rfl
      | error problems =>
          obtain ⟨first, rest, listed, rfl⟩ := Document.exists_cons_of_check checked
          rw [listed]

/-- A review concludes from checking the document. -/
theorem Review.check_eq_conclude (review : Review) (document : Document Span) :
    review.check document = review.conclude document.check := by
  rw [Review.check, Document.check?_eq]

/-- A review accepts what is accepted while nothing is pending. -/
theorem Review.check_eq_ok_iff (review : Review) (document : Document Span)
    (schema : Schema Span) :
    (review.check document).1 = .ok schema ↔
      review.pending = [] ∧ document.check = .ok schema := by
  rw [Review.check_eq_conclude]
  cases checked : document.check with
  | ok accepted =>
      cases waiting : review.pending with
      | nil => simp [Review.conclude, waiting]
      | cons first rest => simp [Review.conclude, Review.stop, waiting]
  | error problems => simp [Review.conclude, Review.stop]

/-- A failed check has what was pending and then what is reported of the document. -/
theorem Review.diagnostics_of_check_eq_error {review : Review} {document : Document Span}
    {failure : Failure} (failed : (review.check document).1 = .error failure) :
    failure.diagnostics = review.pending ++ document.reported.map Problem.diagnostic ∧
      failure.diagnostics ≠ [] := by
  rw [Review.check_eq_conclude] at failed
  cases checked : document.check with
  | ok accepted =>
      cases waiting : review.pending with
      | nil => simp [Review.conclude, checked, waiting] at failed
      | cons first rest =>
          simp only [Review.conclude, Review.stop, checked, waiting, Review.fail,
            Except.error.injEq] at failed
          simp [← failed, Document.reported, checked]
  | error problems =>
      have nonempty : problems ≠ [] := ((document.check_eq_error_iff problems).1 checked).2
      simp only [Review.conclude, Review.stop, checked, Review.noteAll, Review.fail,
        Except.error.injEq] at failed
      simp [← failed, Document.reported, checked, nonempty]

/-- A review with nothing pending reports of the document of its text what is stated about names,
the root and types, in this order, and then the cycles. It accepts the document if this is
nothing. -/
theorem Review.check_report (review : Review) (legacy : Bool) (document : Document Span)
    (read : Document.ofText legacy review.text = .ok document) (clear : review.pending = []) :
    (∀ failure, (review.check document).1 = .error failure →
      failure.diagnostics = document.earlierDiagnostics ++ document.cycleDiagnostics) ∧
    ((∃ schema, (review.check document).1 = .ok schema) ↔
      document.earlierDiagnostics = [] ∧ document.cycleDiagnostics = []) := by
  have shown := Document.diagnostics_eq read
  constructor
  · intro failure failed
    rw [(Review.diagnostics_of_check_eq_error failed).1, clear, List.nil_append, shown]
  · rw [← List.append_eq_nil_iff, ← shown, List.map_eq_nil_iff]
    constructor
    · intro accepted
      obtain ⟨schema, accepted⟩ := accepted
      have checked := ((review.check_eq_ok_iff document schema).1 accepted).2
      rw [Document.reported, checked]
    · intro nothing
      cases checked : document.check with
      | ok schema => exact ⟨schema, (review.check_eq_ok_iff document schema).2 ⟨clear, checked⟩⟩
      | error problems =>
          have nonempty := ((document.check_eq_error_iff problems).1 checked).2
          rw [Document.reported, checked] at nothing
          exact absurd nothing nonempty

/-- Here a definition and a field are repeated, a name is reserved, a key holds a key, and names are
unknown, while one definition is on a cycle. -/
theorem Review.check_report_of_faults :
    ∃ document,
      Document.ofText false "type Storage \x7ba: X, a: LiveMap<LiveMap<null, Y>, string>\x7d
  type C \x7bc: C\x7d type INT \x7b\x7d type C \x7b\x7d" = .ok document ∧
      ∃ failure,
        ((Review.ofText "type Storage \x7ba: X, a: LiveMap<LiveMap<null, Y>, string>\x7d
  type C \x7bc: C\x7d type INT \x7b\x7d type C \x7b\x7d").check document).1 = .error failure ∧
        failure.diagnostics =
          [⟨⟨20, 21⟩, "field `a` is already defined in type `Storage`"⟩,
            ⟨⟨79, 82⟩, "type name `INT` is reserved for a built-in type"⟩,
            ⟨⟨91, 92⟩, "a type named `C` is already defined"⟩,
            ⟨⟨17, 18⟩, "unknown type `X`, did you mean `C`?"⟩,
            ⟨⟨31, 47⟩, "`LiveMap` keys must be of type `string`"⟩,
            ⟨⟨39, 43⟩, "`LiveMap` keys must be of type `string`"⟩,
            ⟨⟨45, 46⟩, "unknown type `Y`, did you mean `C`?"⟩,
            ⟨⟨65, 66⟩, String.join ["static types cannot reference themselves in a cycle (`C`), ",
              "wrap one of the references in `LiveObject<...>` or `LiveList<...>`"]⟩] := by
  -- What is computed is taken from the statement, so that it is written only once.
  apply Document.exists_of_text
    (fun document => document.earlierDiagnostics ++ document.cycleDiagnostics) _
  case concludes =>
    intro document read shown
    obtain ⟨reported, accepted⟩ := Review.check_report (Review.ofText _) false document read rfl
    cases checked : ((Review.ofText _).check document).1 with
    | error failure => exact ⟨failure, rfl, (reported failure checked).trans shown⟩
    | ok schema =>
        obtain ⟨noneEarlier, noCycle⟩ := accepted.1 ⟨schema, checked⟩
        simp [noneEarlier, noCycle] at shown
  case computed => decide +kernel

end StorageSchema
