/-
This file shows that checking does not look at marks and comments. It says of a document with other
marks, and without its comments, what it says of the document itself.
-/
import StorageSchema.Proofs.Check.Acceptance
import StorageSchema.Proofs.Draft.Outline

namespace StorageSchema

variable {Mark Other : Type}

/-- This function changes the marks of a usage. -/
def Usage.map (change : Mark → Other) (usage : Usage Mark) : Usage Other :=
  ⟨usage.reference.map change, usage.isLive⟩

/-- A definition keeps its class. -/
def ClassifiedDefinition.view (change : Mark → Other) (comments : Bool)
    (classified : ClassifiedDefinition Mark) : ClassifiedDefinition Other :=
  ⟨classified.definition.view change comments, classified.isStatic⟩

def Schema.view (change : Mark → Other) (comments : Bool) (schema : Schema Mark) :
    Schema Other :=
  ⟨schema.root.view change comments, schema.document.view change comments,
    schema.definitions.map (ClassifiedDefinition.view change comments)⟩

/-- An outline is a view without marks. -/
theorem Document.outline_eq_view (comments : Bool) (document : Document Mark) :
    document.outline comments = document.view (fun _ => ()) comments := rfl

/-- A schema and its view give the same names the same classes. -/
theorem Schema.classes_view (change : Mark → Other) (comments : Bool) (schema : Schema Mark) :
    (schema.view change comments).classes = schema.classes := by
  rw [Schema.classes, Schema.view, List.map_map]
  rfl

variable (change : Mark → Other) (comments : Bool)

theorem TypeExpr.scalar?_map (type : TypeExpr Mark) : (type.map change).scalar? = type.scalar? := by
  cases type <;> rfl

mutual

/-- The references of a type stay where they are, and live or plain as they are. -/
theorem TypeExpr.usages_map (belowLive : Bool) : (type : TypeExpr Mark) →
    (type.map change).usages belowLive = (type.usages belowLive).map (Usage.map change)
  | .scalar _ _ | .string _ _ | .number _ _ | .boolean _ _ | .reference _ => rfl
  | .array _ item => TypeExpr.usages_map belowLive item
  | .liveList _ item => TypeExpr.usages_map true item
  | .liveMap _ key value => by
      have inKey := TypeExpr.usages_map true key
      have inValue := TypeExpr.usages_map true value
      rw [TypeExpr.usages, List.map_append, ← inKey, ← inValue]
      rfl
  | .union _ members => TypeExpr.usagesAll_map belowLive members

theorem TypeExpr.usagesAll_map (belowLive : Bool) : (members : List (TypeExpr Mark)) →
    TypeExpr.usagesAll belowLive (TypeExpr.mapAll change members) =
      (TypeExpr.usagesAll belowLive members).map (Usage.map change)
  | [] => rfl
  | member :: rest => by
      have inMember := TypeExpr.usages_map belowLive member
      have inRest := TypeExpr.usagesAll_map belowLive rest
      rw [TypeExpr.usagesAll, List.map_append, ← inMember, ← inRest]
      rfl

end

theorem Definition.usages_view (definition : Definition Mark) :
    (definition.view change comments).usages = definition.usages.map (Usage.map change) := by
  rw [Definition.usages, Definition.usages, List.map_flatMap, Definition.view, List.flatMap_map]
  simp only [Field.view, TypeExpr.usages_map]

/-- A name stands for the same definition in a view. -/
theorem Document.find?_view (document : Document Mark) (name : String) :
    (document.view change comments).find? name =
      (document.find? name).map (Definition.view change comments) := by
  rw [Document.find?, Document.view, List.find?_map]
  rfl

theorem Document.declares_view (document : Document Mark) (name : String) :
    (document.view change comments).declares name = document.declares name := by
  rw [Document.declares, Document.find?_view, Option.isSome_map, Document.declares]

theorem Document.follow?_view (document : Document Mark) (arrival : Arrival)
    (usage : Usage Mark) :
    (document.view change comments).follow? arrival (usage.map change) =
      document.follow? arrival usage := by
  rw [Document.follow?, Document.declares_view]
  rfl

theorem Document.departures_view (document : Document Mark) (arrival : Arrival) :
    (document.view change comments).departures arrival = document.departures arrival := by
  rw [Document.departures, Document.departures, Document.find?_view]
  cases document.find? arrival.name with
  | none => rfl
  | some definition =>
      change (definition.view change comments).usages.filterMap _ = definition.usages.filterMap _
      rw [Definition.usages_view, List.filterMap_map]
      congr 1
      funext usage
      exact document.follow?_view change comments arrival usage

/-- The same definitions are live in a view. -/
theorem Document.liveNames_view (document : Document Mark) :
    (document.view change comments).liveNames = document.liveNames := by
  have departs : (document.view change comments).departures = document.departures := by
    funext arrival
    exact document.departures_view change comments arrival
  rw [Document.liveNames, Document.sweep, departs, Document.view, List.length_map]
  rfl

theorem Definition.firsts_view (seen : List String) (definitions : List (Definition Mark)) :
    Definition.firsts seen (definitions.map (Definition.view change comments)) =
      (Definition.firsts seen definitions).map (Definition.view change comments) := by
  induction definitions generalizing seen with
  | nil => rfl
  | cons definition rest inductionHypothesis =>
      rw [List.map_cons, Definition.firsts, Definition.firsts, inductionHypothesis,
        inductionHypothesis, apply_ite (List.map (Definition.view change comments))]
      rfl

theorem Document.staticDefinitions_view (document : Document Mark) :
    (document.view change comments).staticDefinitions =
      document.staticDefinitions.map (Definition.view change comments) := by
  rw [Document.staticDefinitions, Document.liveNames_view, Document.view, Definition.firsts_view,
    List.filter_map]
  rfl

theorem Definition.plainTargets_view (names : List String) (definition : Definition Mark) :
    (definition.view change comments).plainTargets names = definition.plainTargets names := by
  rw [Definition.plainTargets, Definition.usages_view, List.filter_map, List.map_map]
  rfl

/-- A view has the same static graph, and so it has the same cycles. -/
theorem Document.staticGraph_view (document : Document Mark) :
    (document.view change comments).staticGraph = document.staticGraph := by
  rw [Document.staticGraph, Document.staticGraph, Document.staticDefinitions_view]
  simp only [Definition.plainGraph, List.map_map, Function.comp_def,
    Definition.plainTargets_view]
  rfl

theorem Field.repeatedProblems_view (type : String) (seen : List String)
    (fields : List (Field Mark)) :
    Field.repeatedProblems type seen (fields.map (Field.view change comments)) =
      (Field.repeatedProblems type seen fields).map (Problem.map change) := by
  induction fields generalizing seen with
  | nil => rfl
  | cons field rest inductionHypothesis =>
      rw [List.map_cons, Field.repeatedProblems, Field.repeatedProblems, inductionHypothesis,
        apply_ite (List.map (Problem.map change))]
      rfl

theorem Definition.nameProblems_view (seen : List String) (definition : Definition Mark) :
    (definition.view change comments).nameProblems seen =
      (definition.nameProblems seen).map (Problem.map change) := by
  simp only [Definition.nameProblems, Name.reservedProblems, List.map_append,
    apply_ite (List.map (Problem.map change))]
  rw [← Field.repeatedProblems_view change comments]
  rfl

theorem Definition.allNameProblems_view (seen : List String)
    (definitions : List (Definition Mark)) :
    Definition.allNameProblems seen (definitions.map (Definition.view change comments)) =
      (Definition.allNameProblems seen definitions).map (Problem.map change) := by
  induction definitions generalizing seen with
  | nil => rfl
  | cons definition rest inductionHypothesis =>
      rw [List.map_cons, Definition.allNameProblems, Definition.allNameProblems,
        List.map_append, ← inductionHypothesis, Definition.nameProblems_view]
      rfl

mutual

theorem TypeExpr.problems_map (declared : List String) : (type : TypeExpr Mark) →
    (type.map change).problems declared = (type.problems declared).map (Problem.map change)
  | .scalar _ _ | .string _ _ | .number _ _ | .boolean _ _ => rfl
  | .reference named => by
      simp only [TypeExpr.map, TypeExpr.problems, Reference.problems,
        apply_ite (List.map (Problem.map change))]
      rfl
  | .array _ item => TypeExpr.problems_map declared item
  | .liveList _ item => TypeExpr.problems_map declared item
  | .liveMap _ key value => by
      have inKey := TypeExpr.problems_map declared key
      have inValue := TypeExpr.problems_map declared value
      simp only [TypeExpr.map, TypeExpr.problems, TypeExpr.keyProblems, TypeExpr.scalar?_map,
        TypeExpr.mark_map, inKey, inValue, List.map_append,
        apply_ite (List.map (Problem.map change))]
      rfl
  | .union _ members => TypeExpr.problemsAll_map declared members

theorem TypeExpr.problemsAll_map (declared : List String) : (members : List (TypeExpr Mark)) →
    TypeExpr.problemsAll declared (TypeExpr.mapAll change members) =
      (TypeExpr.problemsAll declared members).map (Problem.map change)
  | [] => rfl
  | member :: rest => by
      have inMember := TypeExpr.problems_map declared member
      have inRest := TypeExpr.problemsAll_map declared rest
      rw [TypeExpr.problemsAll, List.map_append, ← inMember, ← inRest]
      rfl

end

theorem Document.declaredNames_view (document : Document Mark) :
    (document.view change comments).declaredNames = document.declaredNames := by
  rw [Document.declaredNames, Document.view, List.map_map]
  rfl

theorem Document.fieldTypes_view (document : Document Mark) :
    (document.view change comments).fieldTypes =
      document.fieldTypes.map (TypeExpr.map change) := by
  simp only [Document.fieldTypes, Document.view, Definition.view, List.flatMap_map,
    List.map_flatMap, List.map_map]
  rfl

theorem Document.typeProblems_view (document : Document Mark) :
    (document.view change comments).typeProblems =
      document.typeProblems.map (Problem.map change) := by
  rw [Document.typeProblems, Document.declaredNames_view, Document.fieldTypes_view,
    List.flatMap_map, Document.typeProblems, List.map_flatMap]
  simp only [TypeExpr.problems_map]

theorem Document.rootProblems_view (document : Document Mark) :
    (document.view change comments).rootProblems =
      document.rootProblems.map (Problem.map change) := by
  rw [Document.rootProblems, Document.declares_view, Document.rootProblems,
    apply_ite (List.map (Problem.map change))]
  rfl

theorem Document.cycleProblem?_view (document : Document Mark) (members : List String) :
    (document.view change comments).cycleProblem? members =
      (document.cycleProblem? members).map (Problem.map change) := by
  cases members with
  | nil => rfl
  | cons first rest =>
      change ((document.view change comments).find? first).bind _ =
        ((document.find? first).bind _).map _
      rw [Document.find?_view]
      cases document.find? first <;> rfl

theorem Document.cycleProblems_view (document : Document Mark) :
    (document.view change comments).cycleProblems =
      document.cycleProblems.map (Problem.map change) := by
  have cycles : (document.view change comments).staticCycles = document.staticCycles :=
    congrArg (fun graph : Graph => graph.searchCycles?.getD [])
      (document.staticGraph_view change comments)
  have shown : (document.view change comments).cycleProblem? = fun members =>
      (document.cycleProblem? members).map (Problem.map change) := by
    funext members
    exact document.cycleProblem?_view change comments members
  rw [Document.cycleProblems, Document.declares_view, cycles, shown, Document.cycleProblems,
    apply_ite (List.map (Problem.map change)), List.map_filterMap]
  rfl

/-- The problems of a view are those of the document at other marks. -/
theorem Document.problems_view (document : Document Mark) :
    (document.view change comments).problems = document.problems.map (Problem.map change) := by
  rw [Document.problems, Document.rootProblems_view, Document.typeProblems_view,
    Document.cycleProblems_view, Document.problems, List.map_append, List.map_append,
    List.map_append, ← Definition.allNameProblems_view change comments]
  rfl

theorem Document.classified_view (document : Document Mark) (root : Definition Mark) :
    (document.view change comments).classified (root.view change comments) =
      (document.classified root).view change comments := by
  have others : ((document.view change comments).definitions.filter fun definition =>
      definition.name.text != rootName) =
        (document.definitions.filter fun definition => definition.name.text != rootName).map
          (Definition.view change comments) := List.filter_map ..
  rw [Document.classified, others, Document.liveNames_view, Document.classified, Schema.view,
    List.map_map, List.map_map]
  rfl

/-- A view of a document is accepted with the view of its schema, or else it is rejected with the
same problems. -/
theorem Document.check_view (document : Document Mark) :
    (document.view change comments).check =
      match document.check with
      | .ok schema => .ok (schema.view change comments)
      | .error problems => .error (problems.map (Problem.map change)) := by
  cases found : document.find? rootName with
  | none => simp [Document.check, Document.find?_view, Document.problems_view, found]
  | some root =>
      cases listed : document.problems with
      | nil =>
          simp [Document.check, Document.find?_view, Document.problems_view, found, listed,
            Document.classified_view]
      | cons first rest =>
          simp [Document.check, Document.find?_view, Document.problems_view, found, listed]

end StorageSchema
