/-
This file says what is reported of a document before its cycles. Each problem is stated at the part
that has it, in view of the whole document.
-/
import Mathlib.Data.List.Infix
import StorageSchema.Proofs.Check.Acceptance
import StorageSchema.Proofs.References

namespace StorageSchema

variable {Mark : Type}

/-- Every part of a list comes with the parts before it. -/
def withEarlier {Part : Type} (parts : List Part) : List (List Part × Part) :=
  parts.inits.zip parts

/-- A field is reported at its name if an earlier field has the same name. -/
def Field.repeatedReport (type : String) (fields : List (Field Mark)) : List (Problem Mark) :=
  (withEarlier fields).flatMap fun (earlier, field) =>
    if field.name.text ∈ earlier.map (fun other => other.name.text) then
      [⟨field.name.mark, .repeatedField field.name.text type⟩]
    else []

/-- A definition is reported at its name if that is reserved in some case, and again if it is one of
the earlier names. Then its fields are reported. -/
def Definition.nameReport (earlierNames : List String) (definition : Definition Mark) :
    List (Problem Mark) :=
  (if lowercase definition.name.text ∈
      ["boolean", "float", "int", "null", "number", "string"] then
    [⟨definition.name.mark, .reservedName definition.name.text⟩]
  else []) ++
    (if definition.name.text ∈ earlierNames then
      [⟨definition.name.mark, .repeatedType definition.name.text⟩]
    else []) ++
    Field.repeatedReport definition.name.text definition.fields

/-- The definitions are reported in their order. -/
def Document.nameReport (document : Document Mark) : List (Problem Mark) :=
  (withEarlier document.definitions).flatMap fun (earlier, definition) =>
    definition.nameReport (earlier.map fun other => other.name.text)

/-- A map is reported at its key if that is not the string type, and a reference at its name if that
is not declared. -/
def TypeExpr.ownReport (declared : List String) : TypeExpr Mark → List (Problem Mark)
  | .liveMap _ key _ => if key.scalar? = some .string then [] else [⟨key.mark, .mapKey⟩]
  | .reference named =>
      if named.name.text ∈ declared then []
      else
        [⟨named.name.mark, .unknownType named.name.text (suggestions named.name.text declared)⟩]
  | _ => []

/-- All expressions in the fields of all definitions are reported in the order of the text. -/
def Document.typeReport (document : Document Mark) : List (Problem Mark) :=
  document.definitions.flatMap fun definition =>
    definition.fields.flatMap fun field =>
      field.type.subexpressions.flatMap (TypeExpr.ownReport document.declaredNames)

/-- A problem about a cycle is told by its fault. -/
def Problem.isStaticCycle (problem : Problem Mark) : Bool :=
  match problem.fault with
  | .staticCycle _ => true
  | _ => false

@[simp] theorem withEarlier_nil {Part : Type} : withEarlier ([] : List Part) = [] := rfl

@[simp] theorem withEarlier_cons {Part : Type} (first : Part) (rest : List Part) :
    withEarlier (first :: rest) =
      ([], first) :: (withEarlier rest).map fun pair => (first :: pair.1, pair.2) := by
  simp only [withEarlier, List.inits_cons, List.zip_cons_cons, List.zip_map_left]
  rfl

theorem Field.repeatedProblems_eq (type : String) (seen : List String)
    (fields : List (Field Mark)) :
    Field.repeatedProblems type seen fields =
      (withEarlier fields).flatMap fun (earlier, field) =>
        if field.name.text ∈ earlier.map (fun other => other.name.text) ++ seen then
          [⟨field.name.mark, .repeatedField field.name.text type⟩]
        else [] := by
  induction fields generalizing seen with
  | nil => rfl
  | cons field rest inductionHypothesis =>
      rw [Field.repeatedProblems, inductionHypothesis, withEarlier_cons, List.flatMap_cons,
        List.flatMap_map]
      by_cases known : field.name.text ∈ seen
      · simp [known, or_left_comm]
      · simp [known, or_left_comm]

theorem Definition.nameProblems_eq (seen : List String) (definition : Definition Mark) :
    definition.nameProblems seen = definition.nameReport seen := by
  have fields := Field.repeatedProblems_eq definition.name.text [] definition.fields
  simp only [List.append_nil] at fields
  simp [Definition.nameProblems, Definition.nameReport, Name.reservedProblems, fields,
    Field.repeatedReport, reservedNames]

theorem Definition.allNameProblems_eq (seen : List String)
    (definitions : List (Definition Mark)) :
    Definition.allNameProblems seen definitions =
      (withEarlier definitions).flatMap fun (earlier, definition) =>
        definition.nameReport (earlier.map (fun other => other.name.text) ++ seen) := by
  induction definitions generalizing seen with
  | nil => rfl
  | cons definition rest inductionHypothesis =>
      rw [Definition.allNameProblems, Definition.nameProblems_eq, inductionHypothesis,
        withEarlier_cons, List.flatMap_cons, List.flatMap_map]
      simp [Definition.nameReport, or_left_comm]

mutual

/-- The problems of a type are those of its expressions in the order of the text. -/
theorem TypeExpr.problems_eq (declared : List String) :
    (type : TypeExpr Mark) →
      type.problems declared = type.subexpressions.flatMap (TypeExpr.ownReport declared)
  | .scalar .. | .string .. | .number .. | .boolean .. => by
      simp [TypeExpr.problems, TypeExpr.subexpressions, TypeExpr.ownReport]
  | .reference named => by
      simp [TypeExpr.problems, TypeExpr.subexpressions, TypeExpr.ownReport, Reference.problems]
  | .array _ item | .liveList _ item => by
      simp [TypeExpr.problems, TypeExpr.subexpressions, TypeExpr.ownReport,
        TypeExpr.problems_eq declared item]
  | .liveMap _ key value => by
      simp [TypeExpr.problems, TypeExpr.subexpressions, TypeExpr.ownReport, TypeExpr.keyProblems,
        TypeExpr.problems_eq declared key, TypeExpr.problems_eq declared value]
  | .union _ members => by
      simp [TypeExpr.problems, TypeExpr.subexpressions, TypeExpr.ownReport,
        TypeExpr.problemsAll_eq declared members]

theorem TypeExpr.problemsAll_eq (declared : List String) :
    (members : List (TypeExpr Mark)) →
      TypeExpr.problemsAll declared members =
        (TypeExpr.subexpressionsAll members).flatMap (TypeExpr.ownReport declared)
  | [] => rfl
  | member :: rest => by
      simp [TypeExpr.problemsAll, TypeExpr.subexpressionsAll,
        TypeExpr.problems_eq declared member, TypeExpr.problemsAll_eq declared rest]

end

theorem Document.typeProblems_eq (document : Document Mark) :
    document.typeProblems = document.typeReport := by
  have problems : @TypeExpr.problems Mark document.declaredNames =
      fun type => type.subexpressions.flatMap (TypeExpr.ownReport document.declaredNames) :=
    funext (TypeExpr.problems_eq document.declaredNames)
  simp only [Document.typeProblems, Document.fieldTypes, Document.typeReport, problems,
    List.flatMap_assoc, List.flatMap_map]

/-- The root is reported where the document is marked if no definition has its name. -/
theorem Document.rootProblems_eq (document : Document Mark) :
    document.rootProblems =
      if rootName ∈ document.declaredNames then [] else [⟨document.mark, .missingRoot⟩] := by
  simp only [Document.rootProblems, Document.mem_declaredNames]

/-- A name is reported for being reserved or repeated, and never for a cycle. -/
theorem Definition.isStaticCycle_of_mem_nameReport {definition : Definition Mark}
    {earlierNames : List String} {problem : Problem Mark}
    (present : problem ∈ definition.nameReport earlierNames) : problem.isStaticCycle = false := by
  simp only [Definition.nameReport, List.mem_append, List.mem_ite_nil_right, List.mem_singleton,
    Field.repeatedReport, List.mem_flatMap] at present
  rcases present with (reserved | repeated) | inFields
  · rw [reserved.2]
    rfl
  · rw [repeated.2]
    rfl
  · obtain ⟨_, -, -, rfl⟩ := inFields
    rfl

theorem TypeExpr.isStaticCycle_of_mem_ownReport {declared : List String} {type : TypeExpr Mark}
    {problem : Problem Mark} (present : problem ∈ type.ownReport declared) :
    problem.isStaticCycle = false := by
  cases type with
  | liveMap _ key _ =>
      simp only [TypeExpr.ownReport, List.mem_ite_nil_left, List.mem_singleton] at present
      rw [present.2]
      rfl
  | reference named =>
      simp only [TypeExpr.ownReport, List.mem_ite_nil_left, List.mem_singleton] at present
      rw [present.2]
      rfl
  | _ => simp [TypeExpr.ownReport] at present

theorem Document.isStaticCycle_of_mem_cycleProblems {document : Document Mark}
    {problem : Problem Mark} (present : problem ∈ document.cycleProblems) :
    problem.isStaticCycle = true := by
  simp only [Document.cycleProblems, List.mem_ite_nil_right, List.mem_filterMap,
    Document.cycleProblem?] at present
  obtain ⟨-, members, -, stated⟩ := present
  obtain ⟨first, -, stated⟩ := Option.bind_eq_some_iff.1 stated
  obtain ⟨definition, -, stated⟩ := Option.bind_eq_some_iff.1 stated
  rw [← Option.some.inj stated]
  rfl

/-- This is what is reported before the cycles. -/
def Document.earlierReport (document : Document Mark) : List (Problem Mark) :=
  document.nameReport ++
    (if rootName ∈ document.declaredNames then [] else [⟨document.mark, .missingRoot⟩]) ++
    document.typeReport

/-- The cycles come last. -/
theorem Document.reported_eq_append (document : Document Mark) :
    document.reported = document.earlierReport ++ document.cycleProblems := by
  have names : Definition.allNameProblems [] document.definitions = document.nameReport := by
    simp [Definition.allNameProblems_eq, Document.nameReport]
  rw [Document.reported_eq, Document.problems, names, Document.rootProblems_eq,
    Document.typeProblems_eq, Document.earlierReport]

theorem Document.isStaticCycle_of_mem_earlierReport {document : Document Mark}
    {problem : Problem Mark} (present : problem ∈ document.earlierReport) :
    problem.isStaticCycle = false := by
  simp only [Document.earlierReport, List.mem_append, List.mem_ite_nil_left, List.mem_singleton,
    Document.nameReport, Document.typeReport, List.mem_flatMap] at present
  rcases present with (inNames | missing) | inTypes
  · obtain ⟨_, -, present⟩ := inNames
    exact Definition.isStaticCycle_of_mem_nameReport present
  · rw [missing.2]
    rfl
  · obtain ⟨_, -, _, -, _, -, present⟩ := inTypes
    exact TypeExpr.isStaticCycle_of_mem_ownReport present

/-- The problems about cycles are those that are listed last. -/
theorem Document.filter_isStaticCycle (document : Document Mark) :
    document.reported.filter Problem.isStaticCycle = document.cycleProblems := by
  have noneEarlier : document.earlierReport.filter Problem.isStaticCycle = [] := by
    rw [List.filter_eq_nil_iff]
    intro problem present
    simp [Document.isStaticCycle_of_mem_earlierReport present]
  have allLast : document.cycleProblems.filter Problem.isStaticCycle = document.cycleProblems := by
    rw [List.filter_eq_self]
    intro problem present
    exact Document.isStaticCycle_of_mem_cycleProblems present
  rw [Document.reported_eq_append, List.filter_append, noneEarlier, allLast, List.nil_append]

/-- A document begins where its text does. -/
theorem Document.mark_of_ofText {legacy : Bool} {text : String} {document : Document Span}
    (read : Document.ofText legacy text = .ok document) :
    document.mark = ⟨0, text.utf8ByteSize⟩ := by
  rw [Document.ofText, Document.ofLexemes] at read
  cases drafted : (Lexeme.ofText text).foldlM (Draft.add legacy) Draft.empty with
  | error _ =>
      rw [drafted] at read
      cases read
  | ok draft =>
      rw [drafted] at read
      change draft.finish ⟨0, text.utf8ByteSize⟩ (Lexeme.endOf text) = .ok document at read
      rw [Draft.finish] at read
      split at read
      · exact (Except.ok.inj read) ▸ rfl
      · cases read

/-- A field is shown at its name with its type if an earlier field has the same name. -/
def Field.repeatedDiagnostics (type : String) (fields : List (Field Span)) : List Diagnostic :=
  (withEarlier fields).flatMap fun (earlier, field) =>
    if field.name.text ∈ earlier.map (fun other => other.name.text) then
      [⟨field.name.mark, String.join
        ["field `", field.name.text, "` is already defined in type `", type, "`"]⟩]
    else []

/-- A definition is shown at its name if that is reserved in some case, and again if it is one of
the earlier names. Then its fields are shown. -/
def Definition.nameDiagnostics (earlierNames : List String) (definition : Definition Span) :
    List Diagnostic :=
  (if lowercase definition.name.text ∈
      ["boolean", "float", "int", "null", "number", "string"] then
    [⟨definition.name.mark, String.join
      ["type name `", definition.name.text, "` is reserved for a built-in type"]⟩]
  else []) ++
    (if definition.name.text ∈ earlierNames then
      [⟨definition.name.mark, String.join
        ["a type named `", definition.name.text, "` is already defined"]⟩]
    else []) ++
    Field.repeatedDiagnostics definition.name.text definition.fields

/-- One suggestion is named alone, and several are listed. -/
def suggestionEnding : List String → String
  | [] => ""
  | [name] => String.join [", did you mean `", name, "`?"]
  | names => String.join
      [", did you mean one of: ",
        ", ".intercalate (names.map fun name => String.join ["`", name, "`"]), "?"]

/-- A map is shown at its key if that is not the string type, and a reference at its name if that is
not declared. -/
def TypeExpr.ownDiagnostics (declared : List String) : TypeExpr Span → List Diagnostic
  | .liveMap _ key _ =>
      if key.scalar? = some .string then []
      else [⟨key.mark, "`LiveMap` keys must be of type `string`"⟩]
  | .reference named =>
      if named.name.text ∈ declared then []
      else
        [⟨named.name.mark, String.join ["unknown type `", named.name.text, "`",
          suggestionEnding (suggestions named.name.text declared)]⟩]
  | _ => []

/-- Names are shown first. Then a missing root is shown at the beginning of the text, and then all
expressions in the fields of all definitions are gone through in the order of the text. -/
def Document.earlierDiagnostics (document : Document Span) : List Diagnostic :=
  ((withEarlier document.definitions).flatMap fun (earlier, definition) =>
    definition.nameDiagnostics (earlier.map fun other => other.name.text)) ++
    (if rootName ∈ document.declaredNames then []
    else
      [⟨⟨0, 0⟩, String.join ["missing root type `Storage`, ",
        "every schema needs a `type Storage \x7b ... \x7d` definition"]⟩]) ++
    document.definitions.flatMap fun definition =>
      definition.fields.flatMap fun field =>
        field.type.subexpressions.flatMap (TypeExpr.ownDiagnostics document.declaredNames)

/-- These are the diagnostics about cycles among all that are reported. -/
def Document.cycleDiagnostics (document : Document Span) : List Diagnostic :=
  (document.reported.filter Problem.isStaticCycle).map Problem.diagnostic

theorem Fault.message_reservedName (name : String) :
    (Fault.reservedName name).message =
      String.join ["type name `", name, "` is reserved for a built-in type"] := by
  simp [Fault.message, backquoted, String.join, ← String.toList_inj]

theorem Fault.message_repeatedType (name : String) :
    (Fault.repeatedType name).message =
      String.join ["a type named `", name, "` is already defined"] := by
  simp [Fault.message, backquoted, String.join, ← String.toList_inj]

theorem Fault.message_repeatedField (field type : String) :
    (Fault.repeatedField field type).message =
      String.join ["field `", field, "` is already defined in type `", type, "`"] := by
  simp [Fault.message, backquoted, String.join, ← String.toList_inj]

/-- An unknown name is worded with the suggestions for it. -/
theorem Fault.message_unknownType (name : String) (shown : List String) :
    (Fault.unknownType name shown).message =
      String.join ["unknown type `", name, "`", suggestionEnding shown] := by
  match shown with
  | [] =>
      simp [Fault.message, hint?, suggestionEnding, backquoted, String.join, ← String.toList_inj]
  | [first] =>
      simp [Fault.message, hint?, suggestionEnding, backquoted, String.join, ← String.toList_inj]
  | first :: second :: rest =>
      have listed : suggestionEnding (first :: second :: rest) =
          String.join [", did you mean one of: ",
            ", ".intercalate ((first :: second :: rest).map backquoted), "?"] :=
        rfl
      have hinted : hint? (first :: second :: rest) =
          some (String.join ["did you mean one of: ",
            ", ".intercalate ((first :: second :: rest).map backquoted), "?"]) :=
        rfl
      rw [listed, Fault.message, hinted]
      -- The list is the same on both sides, and only what is around it is put together.
      generalize ", ".intercalate _ = names
      simp [backquoted, String.join, ← String.toList_inj]

theorem Field.map_repeatedReport (type : String) (fields : List (Field Span)) :
    (Field.repeatedReport type fields).map Problem.diagnostic =
      Field.repeatedDiagnostics type fields := by
  simp only [Field.repeatedReport, Field.repeatedDiagnostics, List.map_flatMap,
    ← Fault.message_repeatedField]
  apply List.flatMap_congr
  intro pair _
  split <;> rfl

theorem Definition.map_nameReport (earlierNames : List String) (definition : Definition Span) :
    (definition.nameReport earlierNames).map Problem.diagnostic =
      definition.nameDiagnostics earlierNames := by
  rw [Definition.nameReport, Definition.nameDiagnostics, List.map_append, List.map_append,
    Field.map_repeatedReport, ← Fault.message_reservedName, ← Fault.message_repeatedType]
  congr 2
  · split <;> rfl
  · split <;> rfl

theorem TypeExpr.map_ownReport (declared : List String) (type : TypeExpr Span) :
    (type.ownReport declared).map Problem.diagnostic = type.ownDiagnostics declared := by
  cases type with
  | liveMap _ key _ =>
      rw [TypeExpr.ownReport, TypeExpr.ownDiagnostics]
      split <;> rfl
  | reference named =>
      rw [TypeExpr.ownReport, TypeExpr.ownDiagnostics, ← Fault.message_unknownType]
      split <;> rfl
  | _ => rfl

theorem Document.map_nameReport (document : Document Span) :
    document.nameReport.map Problem.diagnostic =
      (withEarlier document.definitions).flatMap fun (earlier, definition) =>
        definition.nameDiagnostics (earlier.map fun other => other.name.text) := by
  simp only [Document.nameReport, List.map_flatMap, Definition.map_nameReport]

theorem Document.map_typeReport (document : Document Span) :
    document.typeReport.map Problem.diagnostic =
      document.definitions.flatMap fun definition =>
        definition.fields.flatMap fun field =>
          field.type.subexpressions.flatMap (TypeExpr.ownDiagnostics document.declaredNames) := by
  simp only [Document.typeReport, List.map_flatMap, TypeExpr.map_ownReport]

/-- What is reported of a document is shown as stated, and the cycles come after it. -/
theorem Document.diagnostics_eq {legacy : Bool} {text : String} {document : Document Span}
    (read : Document.ofText legacy text = .ok document) :
    document.reported.map Problem.diagnostic =
      document.earlierDiagnostics ++ document.cycleDiagnostics := by
  have wording : Fault.missingRoot.message = String.join ["missing root type `Storage`, ",
      "every schema needs a `type Storage \x7b ... \x7d` definition"] := by
    decide +kernel
  have atStart : (if rootName ∈ document.declaredNames then []
      else [(⟨document.mark, .missingRoot⟩ : Problem Span)]).map Problem.diagnostic =
        if rootName ∈ document.declaredNames then []
          else [⟨⟨0, 0⟩, Fault.missingRoot.message⟩] := by
    rw [Document.mark_of_ofText read]
    by_cases listed : rootName ∈ document.declaredNames
    · simp [listed]
    · simp [listed, Problem.diagnostic, Problem.span, Span.point]
  rw [Document.cycleDiagnostics, Document.filter_isStaticCycle, Document.reported_eq_append,
    Document.earlierReport, List.map_append, List.map_append, List.map_append, atStart, wording,
    Document.map_nameReport, Document.map_typeReport, Document.earlierDiagnostics]

end StorageSchema
