/-
This file says where a reference stands in a definition and to which definition it leads, without
walking through the types.
-/
import StorageSchema.Check.ProblemList

namespace StorageSchema

variable {Mark : Type}

/-- An expression contains itself and what stands inside it, and some of that stands below a live
list or a live map. -/
inductive TypeExpr.Contains (whole : TypeExpr Mark) : Bool → TypeExpr Mark → Prop where
  | whole : Contains whole false whole
  | arrayItem {belowLive : Bool} {mark : Mark} {item : TypeExpr Mark} :
      Contains whole belowLive (.array mark item) → Contains whole belowLive item
  | listItem {belowLive : Bool} {mark : Mark} {item : TypeExpr Mark} :
      Contains whole belowLive (.liveList mark item) → Contains whole true item
  | mapKey {belowLive : Bool} {mark : Mark} {key value : TypeExpr Mark} :
      Contains whole belowLive (.liveMap mark key value) → Contains whole true key
  | mapValue {belowLive : Bool} {mark : Mark} {key value : TypeExpr Mark} :
      Contains whole belowLive (.liveMap mark key value) → Contains whole true value
  | member {belowLive : Bool} {mark : Mark} {members : List (TypeExpr Mark)}
      {part : TypeExpr Mark} :
      Contains whole belowLive (.union mark members) → part ∈ members →
        Contains whole belowLive part

/-- A definition uses a reference that stands in one of its fields. The use is live if the reference
names a live object or stands below a live wrapper. -/
def Definition.Uses (definition : Definition Mark) (reference : Reference Mark) (isLive : Bool) :
    Prop :=
  ∃ field ∈ definition.fields, ∃ belowLive : Bool,
    field.type.Contains belowLive (.reference reference) ∧
      isLive = (belowLive || reference.asLiveObject)

/-- The definition of one name leads to that of another by a reference to it. -/
def Document.Leads (document : Document Mark) (isLive : Bool) (source target : String) : Prop :=
  ∃ definition reference, document.find? source = some definition ∧
    definition.Uses reference isLive ∧ reference.name.text = target ∧
    document.declares target = true

theorem TypeExpr.mem_usagesAll_iff (usage : Usage Mark) (belowLive : Bool)
    (members : List (TypeExpr Mark)) :
    usage ∈ TypeExpr.usagesAll belowLive members ↔
      ∃ member ∈ members, usage ∈ member.usages belowLive := by
  induction members with
  | nil => simp [TypeExpr.usagesAll]
  | cons member rest inductionHypothesis => simp [TypeExpr.usagesAll, inductionHypothesis]

mutual

/-- The references that are found inside a part are contained in the whole. -/
theorem TypeExpr.contains_of_mem_usages {whole : TypeExpr Mark} {usage : Usage Mark} :
    (part : TypeExpr Mark) → (belowLive : Bool) → whole.Contains belowLive part →
      usage ∈ part.usages belowLive →
      ∃ below : Bool, whole.Contains below (.reference usage.reference) ∧
        usage.isLive = (below || usage.reference.asLiveObject)
  | .reference named, belowLive, contained, present => by
      obtain rfl : usage = ⟨named, belowLive || named.asLiveObject⟩ := by
        simpa [TypeExpr.usages] using present
      exact ⟨belowLive, contained, rfl⟩
  | .array _ item, belowLive, contained, present => by
      rw [TypeExpr.usages] at present
      exact TypeExpr.contains_of_mem_usages item belowLive contained.arrayItem present
  | .liveList _ item, _, contained, present => by
      rw [TypeExpr.usages] at present
      exact TypeExpr.contains_of_mem_usages item true contained.listItem present
  | .liveMap _ key value, _, contained, present => by
      rw [TypeExpr.usages] at present
      rcases List.mem_append.1 present with inKey | inValue
      · exact TypeExpr.contains_of_mem_usages key true contained.mapKey inKey
      · exact TypeExpr.contains_of_mem_usages value true contained.mapValue inValue
  | .union _ members, belowLive, contained, present => by
      rw [TypeExpr.usages] at present
      exact TypeExpr.contains_of_mem_usagesAll members belowLive
        (fun _ isMember => contained.member isMember) present
  | .scalar .., _, _, present | .string .., _, _, present | .number .., _, _, present
  | .boolean .., _, _, present => by
      simp [TypeExpr.usages] at present

theorem TypeExpr.contains_of_mem_usagesAll {whole : TypeExpr Mark} {usage : Usage Mark} :
    (members : List (TypeExpr Mark)) → (belowLive : Bool) →
      (∀ member ∈ members, whole.Contains belowLive member) →
      usage ∈ TypeExpr.usagesAll belowLive members →
      ∃ below : Bool, whole.Contains below (.reference usage.reference) ∧
        usage.isLive = (below || usage.reference.asLiveObject)
  | [], _, _, present => by
      simp [TypeExpr.usagesAll] at present
  | member :: rest, belowLive, contained, present => by
      rw [TypeExpr.usagesAll] at present
      rcases List.mem_append.1 present with inMember | inRest
      · exact TypeExpr.contains_of_mem_usages member belowLive (contained member (by simp))
          inMember
      · exact TypeExpr.contains_of_mem_usagesAll rest belowLive
          (fun other isOther => contained other (List.mem_cons_of_mem member isOther)) inRest

end

/-- The references inside a contained part are found in the whole. -/
theorem TypeExpr.Contains.mem_usages {whole part : TypeExpr Mark} {belowLive : Bool}
    {usage : Usage Mark} (contained : whole.Contains belowLive part)
    (present : usage ∈ part.usages belowLive) : usage ∈ whole.usages false := by
  induction contained with
  | whole => exact present
  | arrayItem _ inductionHypothesis | listItem _ inductionHypothesis =>
      exact inductionHypothesis (by simpa [TypeExpr.usages] using present)
  | mapKey _ inductionHypothesis =>
      exact inductionHypothesis (by simpa [TypeExpr.usages] using Or.inl present)
  | mapValue _ inductionHypothesis =>
      exact inductionHypothesis (by simpa [TypeExpr.usages] using Or.inr present)
  | @member belowLive mark members part _ isMember inductionHypothesis =>
      apply inductionHypothesis
      rw [TypeExpr.usages]
      exact (TypeExpr.mem_usagesAll_iff usage belowLive members).2 ⟨part, isMember, present⟩

/-- The walk through the types finds exactly the references that a definition uses. -/
theorem Definition.mem_usages_iff (definition : Definition Mark) (usage : Usage Mark) :
    usage ∈ definition.usages ↔ definition.Uses usage.reference usage.isLive := by
  rw [Definition.usages, List.mem_flatMap]
  constructor
  · intro found
    obtain ⟨field, isField, present⟩ := found
    obtain ⟨belowLive, contained, live⟩ :=
      TypeExpr.contains_of_mem_usages field.type false .whole present
    exact ⟨field, isField, belowLive, contained, live⟩
  · intro uses
    obtain ⟨field, isField, belowLive, contained, live⟩ := uses
    refine ⟨field, isField, contained.mem_usages ?_⟩
    rw [TypeExpr.usages, ← live]
    exact List.mem_singleton.2 rfl

theorem Document.find?_eq_some {document : Document Mark} {name : String}
    {definition : Definition Mark} (found : document.find? name = some definition) :
    definition ∈ document.definitions ∧ definition.name.text = name := by
  rw [Document.find?] at found
  exact ⟨List.mem_of_find?_eq_some found, by simpa using List.find?_some found⟩

theorem Document.declares_of_find? {document : Document Mark} {name : String}
    {definition : Definition Mark} (found : document.find? name = some definition) :
    document.declares name = true := by
  rw [Document.declares, found, Option.isSome_some]

theorem Document.declares_iff (document : Document Mark) (name : String) :
    document.declares name = true ↔
      ∃ definition ∈ document.definitions, definition.name.text = name := by
  simp [Document.declares, Document.find?, List.find?_isSome]

theorem Document.mem_declaredNames (document : Document Mark) (name : String) :
    name ∈ document.declaredNames ↔ document.declares name = true := by
  rw [document.declares_iff, Document.declaredNames, List.mem_map]

/-- The definition of a name leads to the declared names that its usages have as targets. -/
theorem Document.leads_iff_usages (document : Document Mark) (isLive : Bool)
    (source target : String) :
    document.Leads isLive source target ↔
      ∃ definition, document.find? source = some definition ∧
        (∃ usage ∈ definition.usages, usage.isLive = isLive ∧ usage.target = target) ∧
        document.declares target = true := by
  constructor
  · intro leads
    obtain ⟨definition, reference, found, uses, resolved, declared⟩ := leads
    have present := (definition.mem_usages_iff ⟨reference, isLive⟩).2 uses
    exact ⟨definition, found, ⟨_, present, rfl, resolved⟩, declared⟩
  · intro follows
    obtain ⟨definition, found, ⟨usage, present, rfl, resolved⟩, declared⟩ := follows
    have uses := (definition.mem_usages_iff usage).1 present
    exact ⟨definition, usage.reference, found, uses, resolved, declared⟩

instance (document : Document Mark) (isLive : Bool) (source target : String) :
    Decidable (document.Leads isLive source target) :=
  decidable_of_iff
    ((∃ definition ∈ document.find? source, ∃ usage ∈ definition.usages,
      usage.isLive = isLive ∧ usage.target = target) ∧ document.declares target = true) (by
    rw [Document.leads_iff_usages]
    simp only [Option.mem_def, ← and_assoc, exists_and_right])

theorem Document.Leads.declares_source {document : Document Mark} {isLive : Bool}
    {source target : String} (leads : document.Leads isLive source target) :
    document.declares source = true := by
  obtain ⟨definition, _, found, -⟩ := leads
  exact Document.declares_of_find? found

theorem Document.Leads.declares_target {document : Document Mark} {isLive : Bool}
    {source target : String} (leads : document.Leads isLive source target) :
    document.declares target = true := by
  obtain ⟨_, _, -, -, -, declared⟩ := leads
  exact declared

end StorageSchema
