/-
This file exchanges one expression of a document for another. It shows which references and which
problems stay as they are.
-/
import StorageSchema.Proofs.Check.Acceptance
import StorageSchema.Proofs.References

namespace StorageSchema

variable {Mark : Type}

/-- A place in a type is plain unless it is below a live list or a live map, and the places in the
keys of live maps are told apart from other live ones. -/
inductive Place where
  | plain
  | live
  | key
  deriving DecidableEq, Repr

/-- A reference at a place that is not plain is live. -/
def Place.isLive : Place → Bool
  | .plain => false
  | .live | .key => true

/-- A plain place is live below a wrapper. -/
def Place.wrap : Place → Place
  | .plain | .live => .live
  | .key => .key

/-- One expression at a place in a type is exchanged for another, and all else stays as it is. -/
inductive TypeExpr.Exchanges (old new : TypeExpr Mark) :
    Place → TypeExpr Mark → TypeExpr Mark → Prop where
  | here : Exchanges old new .plain old new
  | arrayItem {place : Place} {mark : Mark} {item changed : TypeExpr Mark} :
      Exchanges old new place item changed →
      Exchanges old new place (.array mark item) (.array mark changed)
  | listItem {place : Place} {mark : Mark} {item changed : TypeExpr Mark} :
      Exchanges old new place item changed →
      Exchanges old new place.wrap (.liveList mark item) (.liveList mark changed)
  | mapKey {place : Place} {mark : Mark} {key changed value : TypeExpr Mark} :
      Exchanges old new place key changed →
      Exchanges old new .key (.liveMap mark key value) (.liveMap mark changed value)
  | mapValue {place : Place} {mark : Mark} {key value changed : TypeExpr Mark} :
      Exchanges old new place value changed →
      Exchanges old new place.wrap (.liveMap mark key value) (.liveMap mark key changed)
  | member {place : Place} {mark : Mark} {before after : List (TypeExpr Mark)}
      {part changed : TypeExpr Mark} :
      Exchanges old new place part changed →
      Exchanges old new place (.union mark (before ++ part :: after))
        (.union mark (before ++ changed :: after))

/-- The type of one field of a definition is changed. -/
inductive Definition.Exchanges (old new : TypeExpr Mark) (place : Place) :
    Definition Mark → Definition Mark → Prop where
  | field {mark : Mark} {name : Name Mark} {before after : List (Field Mark)}
      {comment : Option String} {field : Field Mark} {type : TypeExpr Mark} :
      old.Exchanges new place field.type type →
      Exchanges old new place ⟨mark, name, before ++ field :: after, comment⟩
        ⟨mark, name, before ++ { field with type := type } :: after, comment⟩

/-- An exchange changes one definition of a document. -/
structure Document.Exchange (old new : TypeExpr Mark) (place : Place) where
  mark : Mark
  before : List (Definition Mark)
  definition : Definition Mark
  changed : Definition Mark
  after : List (Definition Mark)
  exchanges : Definition.Exchanges old new place definition changed

variable {old new : TypeExpr Mark} {place : Place}

def Document.Exchange.original (exchange : Document.Exchange old new place) : Document Mark :=
  ⟨exchange.mark, exchange.before ++ exchange.definition :: exchange.after⟩

def Document.Exchange.result (exchange : Document.Exchange old new place) : Document Mark :=
  ⟨exchange.mark, exchange.before ++ exchange.changed :: exchange.after⟩

/-- What has been exchanged can be exchanged back. -/
theorem TypeExpr.Exchanges.symm {whole changed : TypeExpr Mark}
    (exchanges : old.Exchanges new place whole changed) :
    new.Exchanges old place changed whole := by
  induction exchanges with
  | here => exact .here
  | arrayItem _ inductionHypothesis => exact .arrayItem inductionHypothesis
  | listItem _ inductionHypothesis => exact .listItem inductionHypothesis
  | mapKey _ inductionHypothesis => exact .mapKey inductionHypothesis
  | mapValue _ inductionHypothesis => exact .mapValue inductionHypothesis
  | member _ inductionHypothesis => exact .member inductionHypothesis

theorem Definition.Exchanges.symm {definition changed : Definition Mark}
    (exchanges : Definition.Exchanges old new place definition changed) :
    Definition.Exchanges new old place changed definition := by
  obtain @⟨_, _, before, after, _, field, type, inType⟩ := exchanges
  exact @Definition.Exchanges.field Mark new old place _ _ before after _ { field with type }
    field.type inType.symm

def Document.Exchange.reverse (exchange : Document.Exchange old new place) :
    Document.Exchange new old place :=
  ⟨exchange.mark, exchange.before, exchange.changed, exchange.definition, exchange.after,
    exchange.exchanges.symm⟩

theorem TypeExpr.usagesAll_append (belowLive : Bool) (first second : List (TypeExpr Mark)) :
    TypeExpr.usagesAll belowLive (first ++ second) =
      TypeExpr.usagesAll belowLive first ++ TypeExpr.usagesAll belowLive second := by
  induction first with
  | nil => rfl
  | cons member rest inductionHypothesis =>
      rw [List.cons_append, TypeExpr.usagesAll, TypeExpr.usagesAll, inductionHypothesis,
        List.append_assoc]

theorem TypeExpr.problemsAll_append (declared : List String) (first second : List (TypeExpr Mark)) :
    TypeExpr.problemsAll declared (first ++ second) =
      TypeExpr.problemsAll declared first ++ TypeExpr.problemsAll declared second := by
  induction first with
  | nil => rfl
  | cons member rest inductionHypothesis =>
      rw [List.cons_append, TypeExpr.problemsAll, TypeExpr.problemsAll, inductionHypothesis,
        List.append_assoc]

@[simp] theorem Place.isLive_wrap (place : Place) : place.wrap.isLive = true := by
  cases place <;> rfl

/-- The references around the exchanged expression stay as they are. -/
theorem TypeExpr.Exchanges.exists_usages {whole changed : TypeExpr Mark}
    (exchanges : old.Exchanges new place whole changed) (belowLive : Bool) :
    ∃ before after,
      whole.usages belowLive = before ++ old.usages (belowLive || place.isLive) ++ after ∧
      changed.usages belowLive = before ++ new.usages (belowLive || place.isLive) ++ after := by
  induction exchanges generalizing belowLive with
  | here => exact ⟨[], [], by simp [Place.isLive], by simp [Place.isLive]⟩
  | arrayItem _ inductionHypothesis => exact inductionHypothesis belowLive
  | listItem _ inductionHypothesis => simpa [TypeExpr.usages] using inductionHypothesis true
  | @mapKey _ _ _ _ value _ inductionHypothesis =>
      obtain ⟨before, after, original, result⟩ := inductionHypothesis true
      refine ⟨before, after ++ value.usages true, ?_, ?_⟩
      · simp [TypeExpr.usages, original, Place.isLive]
      · simp [TypeExpr.usages, result, Place.isLive]
  | @mapValue _ _ key _ _ _ inductionHypothesis =>
      obtain ⟨before, after, original, result⟩ := inductionHypothesis true
      refine ⟨key.usages true ++ before, after, ?_, ?_⟩
      · simp [TypeExpr.usages, original]
      · simp [TypeExpr.usages, result]
  | @member _ _ earlier later _ _ _ inductionHypothesis =>
      obtain ⟨before, after, original, result⟩ := inductionHypothesis belowLive
      refine ⟨TypeExpr.usagesAll belowLive earlier ++ before,
        after ++ TypeExpr.usagesAll belowLive later, ?_, ?_⟩
      · simp [TypeExpr.usages, TypeExpr.usagesAll_append, TypeExpr.usagesAll, original]
      · simp [TypeExpr.usages, TypeExpr.usagesAll_append, TypeExpr.usagesAll, result]

theorem Definition.Exchanges.exists_usages {definition changed : Definition Mark}
    (exchanges : Definition.Exchanges old new place definition changed) :
    ∃ before after,
      definition.usages = before ++ old.usages place.isLive ++ after ∧
      changed.usages = before ++ new.usages place.isLive ++ after := by
  obtain @⟨_, _, earlier, later, _, field, type, inType⟩ := exchanges
  obtain ⟨before, after, original, result⟩ := inType.exists_usages false
  rw [Bool.false_or] at original result
  let inFields (fields : List (Field Mark)) : List (Usage Mark) :=
    fields.flatMap fun field => field.type.usages false
  refine ⟨inFields earlier ++ before, after ++ inFields later, ?_, ?_⟩
  · simp [Definition.usages, inFields, original]
  · simp [Definition.usages, inFields, result]

/-- An expression shows the same mark and scalar as before if the exchanged one does. -/
theorem TypeExpr.Exchanges.mark_and_scalar {whole changed : TypeExpr Mark}
    (exchanges : old.Exchanges new place whole changed)
    (same : new.mark = old.mark ∧ new.scalar? = old.scalar?) :
    changed.mark = whole.mark ∧ changed.scalar? = whole.scalar? := by
  cases exchanges with
  | here => exact same
  | _ => exact ⟨rfl, rfl⟩

/-- The problems of a type stay the same if those of the exchanged expression do. In a key its mark
and its scalar matter too. -/
theorem TypeExpr.Exchanges.problems_eq {declared : List String} {whole changed : TypeExpr Mark}
    (exchanges : old.Exchanges new place whole changed)
    (same : new.problems declared = old.problems declared)
    (inKey : place = .key → new.mark = old.mark ∧ new.scalar? = old.scalar?) :
    changed.problems declared = whole.problems declared := by
  induction exchanges with
  | here => exact same
  | arrayItem _ inductionHypothesis => exact inductionHypothesis inKey
  | @listItem inner _ _ _ _ inductionHypothesis =>
      exact inductionHypothesis fun isKey => inKey (by rw [isKey]; rfl)
  | mapKey exchanges inductionHypothesis =>
      have keyed := inKey rfl
      have problems := inductionHypothesis fun _ => keyed
      obtain ⟨mark, scalar⟩ := exchanges.mark_and_scalar keyed
      simp only [TypeExpr.problems, TypeExpr.keyProblems, mark, scalar, problems]
  | @mapValue inner _ _ _ _ _ inductionHypothesis =>
      have problems := inductionHypothesis fun isKey => inKey (by rw [isKey]; rfl)
      simp only [TypeExpr.problems, problems]
  | member _ inductionHypothesis =>
      have problems := inductionHypothesis inKey
      simp only [TypeExpr.problems, TypeExpr.problemsAll_append, TypeExpr.problemsAll, problems]

theorem Field.repeatedProblems_congr {type : String} {fields others : List (Field Mark)}
    (same : fields.map Field.name = others.map Field.name) (seen : List String) :
    Field.repeatedProblems type seen fields = Field.repeatedProblems type seen others := by
  induction fields generalizing others seen with
  | nil =>
      cases others with
      | nil => rfl
      | cons _ _ => cases same
  | cons field rest inductionHypothesis =>
      cases others with
      | nil => cases same
      | cons other rest =>
          obtain ⟨name, names⟩ := List.cons.inj same
          rw [Field.repeatedProblems, Field.repeatedProblems, name, inductionHypothesis names]

namespace Definition.Exchanges

variable {definition changed : Definition Mark}

theorem name_eq (exchanges : Definition.Exchanges old new place definition changed) :
    changed.name = definition.name := by
  cases exchanges
  rfl

/-- Only the type of a field is changed, and checking names does not look at it. -/
theorem nameProblems_eq (exchanges : Definition.Exchanges old new place definition changed)
    (seen : List String) : changed.nameProblems seen = definition.nameProblems seen := by
  obtain @⟨_, name, earlier, later, _, field, type, -⟩ := exchanges
  have fields : Field.repeatedProblems name.text [] (earlier ++ { field with type } :: later) =
      Field.repeatedProblems name.text [] (earlier ++ field :: later) :=
    Field.repeatedProblems_congr (by simp) []
  rw [Definition.nameProblems, fields, Definition.nameProblems]

end Definition.Exchanges

theorem Definition.allNameProblems_exchange {definition changed : Definition Mark}
    (exchanges : Definition.Exchanges old new place definition changed)
    (before after : List (Definition Mark)) (seen : List String) :
    Definition.allNameProblems seen (before ++ changed :: after) =
      Definition.allNameProblems seen (before ++ definition :: after) := by
  induction before generalizing seen with
  | nil =>
      rw [List.nil_append, List.nil_append, Definition.allNameProblems,
        Definition.allNameProblems, exchanges.nameProblems_eq, exchanges.name_eq]
  | cons first rest inductionHypothesis =>
      rw [List.cons_append, List.cons_append, Definition.allNameProblems,
        Definition.allNameProblems, inductionHypothesis]

namespace Document.Exchange

variable (exchange : Document.Exchange old new place)

theorem declaredNames_result : exchange.result.declaredNames = exchange.original.declaredNames := by
  simp [Document.declaredNames, result, original, exchange.exchanges.name_eq]

/-- An exchange declares what was declared before. -/
theorem declares_result (name : String) :
    exchange.result.declares name = exchange.original.declares name := by
  rw [Bool.eq_iff_iff, ← Document.mem_declaredNames, ← Document.mem_declaredNames,
    declaredNames_result]

/-- A name stands for the definition that it stood for, or for what that has been changed into. -/
theorem find?_result (name : String) :
    exchange.result.find? name = exchange.original.find? name ∨
      exchange.definition.name.text = name ∧
        exchange.original.find? name = some exchange.definition ∧
        exchange.result.find? name = some exchange.changed := by
  simp only [Document.find?, result, original, List.find?_append, List.find?_cons,
    exchange.exchanges.name_eq]
  cases exchange.before.find? fun definition => definition.name.text = name with
  | some _ => exact Or.inl rfl
  | none =>
      by_cases same : exchange.definition.name.text = name
      · exact Or.inr (by simp [same])
      · exact Or.inl (by simp [same])

/-- The changed definition is found if no definition before it has its name. -/
theorem find?_changed
    (first : ∀ other ∈ exchange.before, other.name.text ≠ exchange.definition.name.text) :
    exchange.result.find? exchange.definition.name.text = some exchange.changed := by
  have unfound : (exchange.before.find? fun other =>
      other.name.text = exchange.definition.name.text) = none := by
    simpa [List.find?_eq_none] using first
  rw [Document.find?, result, List.find?_append, unfound, Option.none_or, List.find?_cons,
    exchange.exchanges.name_eq, decide_eq_true rfl]

/-- A cycle is reported at the same place as before. -/
theorem cycleProblem?_result (members : List String) :
    exchange.result.cycleProblem? members = exchange.original.cycleProblem? members := by
  cases members with
  | nil => rfl
  | cons first rest =>
      change (exchange.result.find? first).bind _ = (exchange.original.find? first).bind _
      rcases exchange.find?_result first with same | ⟨_, found, changed⟩
      · rw [same]
      · rw [found, changed, Option.bind_some, Option.bind_some, exchange.exchanges.name_eq]

theorem typeProblems_result (same : ∀ declared, new.problems declared = old.problems declared)
    (inKey : place = .key → new.mark = old.mark ∧ new.scalar? = old.scalar?) :
    exchange.result.typeProblems = exchange.original.typeProblems := by
  obtain ⟨mark, before, definition, changed, after, exchanges⟩ := exchange
  rw [Document.typeProblems, Document.typeProblems, declaredNames_result]
  obtain @⟨_, _, earlier, later, _, field, type, inType⟩ := exchanges
  simp [Document.fieldTypes, result, original, inType.problems_eq (same _) inKey]

/-- What is reported before the cycles stays the same. -/
theorem problems_result (same : ∀ declared, new.problems declared = old.problems declared)
    (inKey : place = .key → new.mark = old.mark ∧ new.scalar? = old.scalar?) :
    ∃ problems, exchange.original.problems = problems ++ exchange.original.cycleProblems ∧
      exchange.result.problems = problems ++ exchange.result.cycleProblems := by
  refine ⟨_, rfl, ?_⟩
  have names : Definition.allNameProblems [] exchange.result.definitions =
      Definition.allNameProblems [] exchange.original.definitions :=
    Definition.allNameProblems_exchange exchange.exchanges exchange.before exchange.after []
  have root : exchange.result.rootProblems = exchange.original.rootProblems := by
    rw [Document.rootProblems, declares_result]
    rfl
  rw [Document.problems, names, root, exchange.typeProblems_result same inKey]

/-- A reference leads on as before unless it stands in the exchanged expression. -/
theorem leads_result {isLive : Bool} {source target : String}
    (leads : exchange.original.Leads isLive source target) :
    exchange.result.Leads isLive source target ∨
      exchange.result.find? source = some exchange.changed ∧
        ∃ usage ∈ old.usages place.isLive, usage.isLive = isLive ∧ usage.target = target := by
  obtain ⟨definition, found, ⟨usage, present, live, resolved⟩, declared⟩ :=
    (exchange.original.leads_iff_usages isLive source target).1 leads
  rw [← exchange.declares_result] at declared
  rcases exchange.find?_result source with same | ⟨_, original, changed⟩
  · refine Or.inl ((exchange.result.leads_iff_usages isLive source target).2 ?_)
    exact ⟨definition, same ▸ found, ⟨usage, present, live, resolved⟩, declared⟩
  · obtain ⟨before, after, usages, changedUsages⟩ := exchange.exchanges.exists_usages
    obtain rfl := Option.some.inj (original.symm.trans found)
    rw [usages, List.mem_append, List.mem_append] at present
    by_cases inside : usage ∈ old.usages place.isLive
    · exact Or.inr ⟨changed, usage, inside, live, resolved⟩
    · refine Or.inl ((exchange.result.leads_iff_usages isLive source target).2 ?_)
      refine ⟨exchange.changed, changed, ⟨usage, ?_, live, resolved⟩, declared⟩
      rw [changedUsages, List.mem_append, List.mem_append]
      rcases present with (earlier | exchanged) | later
      · exact Or.inl (Or.inl earlier)
      · exact absurd exchanged inside
      · exact Or.inr later

/-- A reference of the exchanged definition that stands in the new expression leads on. -/
theorem leads_new {source : String} {usage : Usage Mark}
    (found : exchange.result.find? source = some exchange.changed)
    (present : usage ∈ new.usages place.isLive)
    (declared : exchange.original.declares usage.target = true) :
    exchange.result.Leads usage.isLive source usage.target := by
  obtain ⟨before, after, -, usages⟩ := exchange.exchanges.exists_usages
  rw [← exchange.declares_result] at declared
  refine (exchange.result.leads_iff_usages _ _ _).2
    ⟨exchange.changed, found, ⟨usage, ?_, rfl, rfl⟩, declared⟩
  rw [usages]
  exact List.mem_append_left _ (List.mem_append_right _ present)

/-- A reference that leads on did so before unless it stands in the new expression. -/
theorem leads_original {isLive : Bool} {source target : String}
    (leads : exchange.result.Leads isLive source target) :
    exchange.original.Leads isLive source target ∨
      exchange.original.find? source = some exchange.definition ∧
        ∃ usage ∈ new.usages place.isLive, usage.isLive = isLive ∧ usage.target = target :=
  exchange.reverse.leads_result leads

end Document.Exchange

end StorageSchema
