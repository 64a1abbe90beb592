/-
This file proves that the sweep classifies definitions by the chains of references from the root,
in whatever order it goes on.
-/
import StorageSchema.Proofs.Check.Acceptance
import StorageSchema.Proofs.References
import StorageSchema.Proofs.Sweep

namespace StorageSchema

variable {Mark : Type}

/-- A chain of references begins at the root and never comes back to it. The chain is live if one of
its steps is. -/
inductive Document.Chain (document : Document Mark) : Bool → String → Prop where
  | first {isLive : Bool} {target : String} (step : document.Leads isLive rootName target)
      (other : target ≠ rootName) : Chain document isLive target
  | next {before isLive : Bool} {source target : String} (chain : Chain document before source)
      (step : document.Leads isLive source target) (other : target ≠ rootName) :
      Chain document (before || isLive) target

/-- An arrival is above another at the same definition, unless only the other is live. -/
def Arrival.IsAbove (first second : Arrival) : Prop :=
  first.name = second.name ∧ (second.isLive = true → first.isLive = true)

theorem Arrival.isCoveredBy_iff (log : List Arrival) (arrival : Arrival) :
    Arrival.isCoveredBy log arrival = true ↔ ∃ earlier ∈ log, earlier.IsAbove arrival := by
  simp only [Arrival.isCoveredBy, Arrival.IsAbove, List.any_eq_true, Bool.and_eq_true,
    Bool.or_eq_true, decide_eq_true_eq, Bool.not_eq_true']
  constructor
  · intro covered
    obtain ⟨earlier, present, same, live | plain⟩ := covered
    · exact ⟨earlier, present, same, fun _ => live⟩
    · exact ⟨earlier, present, same, fun live => by simp [plain] at live⟩
  · intro covered
    obtain ⟨earlier, present, same, implies⟩ := covered
    cases plain : arrival.isLive with
    | false => exact ⟨earlier, present, same, Or.inr rfl⟩
    | true => exact ⟨earlier, present, same, Or.inl (implies plain)⟩

/-- The departures from an arrival follow the references of its definition. -/
theorem Document.mem_departures_iff (document : Document Mark) (arrival next : Arrival) :
    next ∈ document.departures arrival ↔
      ∃ isLive : Bool, document.Leads isLive arrival.name next.name ∧ next.name ≠ rootName ∧
        next.isLive = (arrival.isLive || isLive) := by
  simp only [Document.leads_iff_usages, Document.departures]
  cases found : document.find? arrival.name with
  | none => simp
  | some definition =>
      simp only [List.mem_filterMap, Document.follow?, Option.some.injEq, exists_eq_left']
      constructor
      · intro followed
        obtain ⟨usage, present, follows⟩ := followed
        split at follows
        · next allowed =>
            obtain rfl := Option.some.inj follows
            exact ⟨usage.isLive, ⟨⟨usage, present, rfl, rfl⟩, allowed.2⟩, allowed.1, rfl⟩
        · simp at follows
      · intro leads
        obtain ⟨isLive, ⟨⟨usage, present, rfl, resolved⟩, declared⟩, other, live⟩ := leads
        refine ⟨usage, present, ?_⟩
        rw [if_pos ⟨resolved ▸ other, resolved ▸ declared⟩, resolved, ← live]

theorem Document.departures_fits (document : Document Mark) :
    Sweep.Fits Arrival.isCoveredBy document.departures Arrival.IsAbove := by
  constructor
  · exact Arrival.isCoveredBy_iff
  · intro arrival
    exact ⟨rfl, id⟩
  · intro first second third firstAbove secondAbove
    exact ⟨firstAbove.1.trans secondAbove.1, firstAbove.2 ∘ secondAbove.2⟩
  · intro first second isAbove target isTarget
    obtain ⟨isLive, leads, other, live⟩ := (document.mem_departures_iff second target).1 isTarget
    refine ⟨⟨target.name, first.isLive || isLive⟩, ?_, rfl, ?_⟩
    · exact (document.mem_departures_iff first _).2 ⟨isLive, isAbove.1 ▸ leads, other, rfl⟩
    · intro targetLive
      rw [live, Bool.or_eq_true] at targetLive
      rw [Bool.or_eq_true]
      exact targetLive.imp_left isAbove.2

/-- The sweep begins with this arrival alone. -/
def Arrival.atRoot : Arrival := ⟨rootName, false⟩

/-- Apart from the root, the sweep reaches what chains lead to. -/
theorem Document.reached_iff (document : Document Mark) (arrival : Arrival) :
    Sweep.Reached document.departures [Arrival.atRoot] arrival ↔
      arrival = Arrival.atRoot ∨ document.Chain arrival.isLive arrival.name := by
  constructor
  · intro reached
    obtain ⟨seed, isSeed, path⟩ := reached
    obtain rfl := List.mem_singleton.1 isSeed
    induction path with
    | refl => exact Or.inl rfl
    | @tail middle last _ isTarget inductionHypothesis =>
        obtain ⟨isLive, leads, other, live⟩ :=
          (document.mem_departures_iff middle last).1 isTarget
        rw [live]
        rcases inductionHypothesis with rfl | chain
        · exact Or.inr (.first leads other)
        · exact Or.inr (.next chain leads other)
  · rcases arrival with ⟨name, live⟩
    intro found
    rcases found with equal | chain
    · exact ⟨Arrival.atRoot, by simp, equal ▸ .refl⟩
    · refine ⟨Arrival.atRoot, by simp, ?_⟩
      change document.Chain live name at chain
      induction chain with
      | @first isLive target step other =>
          exact .single ((document.mem_departures_iff Arrival.atRoot ⟨target, isLive⟩).2
            ⟨isLive, step, other, rfl⟩)
      | @next before isLive source target _ step other inductionHypothesis =>
          exact inductionHypothesis.tail
            ((document.mem_departures_iff ⟨source, before⟩ ⟨target, before || isLive⟩).2
              ⟨isLive, step, other, rfl⟩)

theorem Document.Chain.declares {document : Document Mark} {isLive : Bool} {name : String}
    (chain : document.Chain isLive name) : document.declares name = true := by
  cases chain with
  | first step _ => exact step.declares_target
  | next _ step _ => exact step.declares_target

/-- The root is entered once, and every other definition at most twice. -/
theorem Document.reached_bounded (document : Document Mark) (log : List Arrival)
    (distinct : log.Nodup)
    (reached : ∀ arrival ∈ log,
      Sweep.Reached document.departures [Arrival.atRoot] arrival) :
    log.length ≤ 2 * document.definitions.length + 1 := by
  let arrivals (definition : Definition Mark) : List Arrival :=
    [⟨definition.name.text, false⟩, ⟨definition.name.text, true⟩]
  have within : log ⊆ Arrival.atRoot :: document.definitions.flatMap arrivals := by
    intro arrival present
    rcases (document.reached_iff arrival).1 (reached arrival present) with equal | chain
    · exact List.mem_cons.2 (Or.inl equal)
    · obtain ⟨definition, declared, named⟩ :=
        (document.declares_iff arrival.name).1 chain.declares
      refine List.mem_cons_of_mem _ (List.mem_flatMap.2 ⟨definition, declared, ?_⟩)
      rcases arrival with ⟨name, isLive⟩
      cases isLive <;> simp [arrivals, named]
  have shorter := (List.subperm_of_subset distinct within).length_le
  have counted : (document.definitions.flatMap arrivals).length =
      document.definitions.length * 2 := by
    simp [List.length_flatMap, arrivals]
  rw [List.length_cons, counted] at shorter
  omega

/-- A finished sweep from the root has the live arrivals that live chains lead to, whatever the
order of its steps. -/
theorem Document.mem_entered_iff_chain (document : Document Mark) {sweep : Sweep Arrival}
    (invariant : Sweep.Invariant Arrival.isCoveredBy document.departures [Arrival.atRoot] sweep)
    (finished : sweep.pending = []) (name : String) :
    (⟨name, true⟩ : Arrival) ∈ sweep.entered ↔ document.Chain true name := by
  constructor
  · intro present
    rcases (document.reached_iff _).1 (invariant.reached _ present) with equal | chain
    · simp [Arrival.atRoot] at equal
    · exact chain
  · intro chain
    have reached := (document.reached_iff ⟨name, true⟩).2 (Or.inr chain)
    have covered := invariant.covers_of_reached document.departures_fits finished reached
    obtain ⟨⟨other, isLive⟩, present, same, implies⟩ :=
      (Arrival.isCoveredBy_iff _ _).1 covered
    obtain rfl : other = name := same
    obtain rfl : isLive = true := implies rfl
    exact present

theorem Document.sweep_finished (document : Document Mark) :
    Sweep.Invariant Arrival.isCoveredBy document.departures [Arrival.atRoot] document.sweep ∧
      document.sweep.pending = [] :=
  Sweep.run_seeds document.departures_fits document.reached_bounded

/-- The live names are those that live chains lead to. -/
theorem Document.mem_liveNames_iff (document : Document Mark) (name : String) :
    name ∈ document.liveNames ↔ document.Chain true name := by
  obtain ⟨invariant, finished⟩ := document.sweep_finished
  rw [← document.mem_entered_iff_chain invariant finished name, Document.liveNames]
  simp only [List.mem_map, List.mem_filter]
  constructor
  · intro found
    obtain ⟨⟨other, isLive⟩, ⟨present, live⟩, rfl⟩ := found
    obtain rfl : isLive = true := live
    exact present
  · intro present
    exact ⟨⟨name, true⟩, ⟨present, rfl⟩, rfl⟩

/-- A definition is static if it is not the root and no live chain leads to it. -/
theorem Definition.isStatic_iff (document : Document Mark) (definition : Definition Mark) :
    definition.isStatic document.liveNames = true ↔
      definition.name.text ≠ rootName ∧ ¬ document.Chain true definition.name.text := by
  rw [← document.mem_liveNames_iff]
  simp [Definition.isStatic]

/-- The definitions of an accepted document are those other than the root, in their order. -/
theorem Document.definitions_of_check {document : Document Mark} {schema : Schema Mark}
    (accepted : document.check = .ok schema) :
    schema.definitions.map ClassifiedDefinition.definition =
      document.definitions.filter fun definition => definition.name.text != rootName := by
  obtain ⟨root, -, -, rfl⟩ := (document.check_eq_ok_iff schema).1 accepted
  simp [Document.classified, Function.comp_def]

theorem Document.root_of_check {document : Document Mark} {schema : Schema Mark}
    (accepted : document.check = .ok schema) :
    schema.root.name = rootName ∧ schema.root.isStatic = false := by
  obtain ⟨root, found, -, rfl⟩ := (document.check_eq_ok_iff schema).1 accepted
  exact ⟨(Document.find?_eq_some found).2, rfl⟩

/-- The definitions of an accepted document are live if live chains lead to them. -/
theorem Document.isStatic_eq_false_iff_of_check {document : Document Mark} {schema : Schema Mark}
    (accepted : document.check = .ok schema) {classified : ClassifiedDefinition Mark}
    (present : classified ∈ schema.definitions) :
    classified.isStatic = false ↔ document.Chain true classified.name := by
  obtain ⟨root, -, -, rfl⟩ := (document.check_eq_ok_iff schema).1 accepted
  obtain ⟨definition, isOther, rfl⟩ := List.mem_map.1 present
  have other : definition.name.text ≠ rootName := by simpa using (List.mem_filter.1 isOther).2
  have static := Definition.isStatic_iff document definition
  rw [← Bool.not_eq_true, static]
  simp [other, ClassifiedDefinition.name]

/-- In an accepted document, a definition other than the root is live if and only if a live chain of
references leads to it, it is static if no chain does, and every sweep that goes on in any order
until nothing is pending finds the same. -/
theorem Document.classification_exact (document : Document Mark) (schema : Schema Mark)
    (accepted : document.check = .ok schema) :
    (schema.root.name = rootName ∧ schema.root.isStatic = false) ∧
    schema.definitions.map ClassifiedDefinition.definition =
      document.definitions.filter (fun definition => definition.name.text != rootName) ∧
    ∀ classified ∈ schema.definitions,
      (classified.isStatic = false ↔ document.Chain true classified.name) ∧
      ((∀ isLive, ¬ document.Chain isLive classified.name) → classified.isStatic = true) ∧
      ∀ final : Sweep Arrival,
        Relation.ReflTransGen (Sweep.Advance Arrival.isCoveredBy document.departures)
          (Sweep.empty.enter Arrival.isCoveredBy ⟨rootName, false⟩) final →
        final.pending = [] →
        (classified.isStatic = false ↔ ⟨classified.name, true⟩ ∈ final.entered) := by
  refine ⟨Document.root_of_check accepted, Document.definitions_of_check accepted, ?_⟩
  intro classified present
  have liveIff := Document.isStatic_eq_false_iff_of_check accepted present
  refine ⟨liveIff, ?_, ?_⟩
  · intro unreached
    rw [← Bool.not_eq_false, liveIff]
    exact unreached true
  · intro final advances finished
    have start : Sweep.Invariant Arrival.isCoveredBy document.departures [Arrival.atRoot]
        (Sweep.empty.enter Arrival.isCoveredBy ⟨rootName, false⟩) :=
      Sweep.invariant_seeds document.departures_fits
    have invariant := Sweep.invariant_of_advances document.departures_fits advances start
    rw [liveIff, document.mem_entered_iff_chain invariant finished classified.name]

/-- Here plain references reach `C` before live ones do, and no live ones reach `A`. -/
theorem Document.classification_of_upgrade :
    ∃ document,
      Document.ofText false "type Storage \x7ba: A, b: LiveList<B>\x7d type A \x7bc: C\x7d
        type B \x7bc: C[]\x7d type C \x7bb: B | Storage\x7d type D \x7ba: LiveObject<A>\x7d" =
        .ok document ∧
      ∃ schema, document.check = .ok schema ∧
        schema.classes = [("A", true), ("B", false), ("C", false), ("D", true)] ∧
        document.Chain true "C" ∧ ¬ document.Chain true "A" := by
  apply Document.exists_of_text Document.classes?
    (some [("A", true), ("B", false), ("C", false), ("D", true)])
  · decide +kernel
  · intro document _ computed
    obtain ⟨schema, accepted, classes⟩ := Document.exists_schema computed
    have every := (Document.classification_exact document schema accepted).2.2
    obtain ⟨last, lastPresent, lastNamed, lastLive⟩ :=
      Schema.exists_of_mem_classes (show ("C", false) ∈ schema.classes by simp [classes])
    obtain ⟨first, firstPresent, firstNamed, firstStatic⟩ :=
      Schema.exists_of_mem_classes (show ("A", true) ∈ schema.classes by simp [classes])
    refine ⟨schema, accepted, classes, ?_, ?_⟩
    · rw [← lastNamed]
      exact (every last lastPresent).1.1 lastLive
    · intro chain
      rw [← firstNamed, ← (every first firstPresent).1, firstStatic] at chain
      exact absurd chain (by decide)

end StorageSchema
