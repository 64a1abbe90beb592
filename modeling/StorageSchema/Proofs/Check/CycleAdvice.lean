/-
This file shows that the advice given for a cycle works. If one plain reference of the cycle is made
live then the cycle is gone, and nothing new is reported.
-/
import StorageSchema.Proofs.Check.Answer
import StorageSchema.Proofs.Check.Exchange
import StorageSchema.Proofs.Check.MoreLive

namespace StorageSchema

open Relation (ReflTransGen TransGen)

variable {Mark : Type}

/-- This reference is to the same type as a live object. -/
def Reference.asLive (reference : Reference Mark) : Reference Mark :=
  { reference with asLiveObject := true }

/-- One definition refers to another by a plain reference or a live one. -/
def Document.Refers (document : Document Mark) (source target : String) : Prop :=
  ∃ isLive, document.Leads isLive source target

/-- The advice for a reported cycle that can be reached from the root is followed by an exchange in
the definition that one of its members stands for. A plain reference to a member is made live
there. -/
structure Document.FollowsAdvice {reference : Reference Mark}
    (exchange : Document.Exchange (.reference reference) (.reference reference.asLive) .plain)
    (members : List String) : Prop where
  reported : ∃ problem ∈ exchange.original.reported, problem.fault = .staticCycle members
  reachable : ∃ member ∈ members, ReflTransGen exchange.original.Refers rootName member
  source : exchange.definition.name.text ∈ members
  first : ∀ other ∈ exchange.before, other.name.text ≠ exchange.definition.name.text
  target : reference.name.text ∈ members
  plain : reference.asLiveObject = false

theorem Document.mem_staticCycles_of_reported {document : Document Mark} {problem : Problem Mark}
    {members : List String} (present : problem ∈ document.reported)
    (fault : problem.fault = .staticCycle members) : members ∈ document.staticCycles := by
  have isCycle : problem ∈ document.reported.filter Problem.isStaticCycle :=
    List.mem_filter.2 ⟨present, by rw [Problem.isStaticCycle, fault]⟩
  rw [Document.filter_isStaticCycle, Document.cycleProblems, List.mem_ite_nil_right] at isCycle
  obtain ⟨-, listed⟩ := isCycle
  obtain ⟨others, cycle, stated⟩ := List.mem_filterMap.1 listed
  obtain ⟨first, definition, -, -, shown⟩ := document.exists_cycleProblem cycle
  rw [shown] at stated
  obtain rfl := Option.some.inj stated
  obtain rfl : others = members := Fault.staticCycle.inj fault
  exact cycle

theorem Document.mem_nodes_staticGraph_iff (document : Document Mark) (name : String) :
    name ∈ document.staticGraph.nodes ↔ document.IsStatic name := by
  rw [← document.mem_staticNames_iff, Graph.nodes, Document.staticGraph,
    Definition.plainGraph, List.map_map]
  rfl

/-- What can be reached from the root is at the end of a chain. -/
theorem Document.exists_chain {document : Document Mark} {name : String}
    (reachable : ReflTransGen document.Refers rootName name) (other : name ≠ rootName) :
    ∃ isLive, document.Chain isLive name := by
  induction reachable with
  | refl => exact absurd rfl other
  | @tail middle last _ step inductionHypothesis =>
      obtain ⟨isLive, leads⟩ := step
      by_cases atRoot : middle = rootName
      · exact ⟨isLive, .first (atRoot ▸ leads) other⟩
      · obtain ⟨before, chain⟩ := inductionHypothesis atRoot
        exact ⟨before || isLive, .next chain leads other⟩

namespace Document.FollowsAdvice

variable {reference : Reference Mark} {members : List String}
  {exchange : Document.Exchange (.reference reference) (.reference reference.asLive) .plain}

theorem component (advice : FollowsAdvice exchange members) :
    CyclicComponent exchange.original.firstNames exchange.original.PlainEdge members := by
  obtain ⟨problem, present, fault⟩ := advice.reported
  exact (exchange.original.mem_staticCycles_iff members).1
    (Document.mem_staticCycles_of_reported present fault)

theorem isStatic (advice : FollowsAdvice exchange members) {member : String}
    (isMember : member ∈ members) : exchange.original.IsStatic member :=
  .of_loop (advice.component.loop exchange.original.nodup_firstNames isMember)

/-- The members lead to each other by plain references. -/
theorem path (advice : FollowsAdvice exchange members) {member other : String}
    (isMember : member ∈ members) (isOther : other ∈ members) :
    ReflTransGen exchange.original.PlainEdge member other :=
  ((advice.component.strong member isMember other).1 isOther).1

/-- The definition that is changed leads live to a member now. -/
theorem leads_live (advice : FollowsAdvice exchange members) {source : String}
    (found : exchange.result.find? source = some exchange.changed) :
    exchange.result.Leads true source reference.name.text := by
  have present : (⟨reference.asLive, true⟩ : Usage Mark) ∈
      (TypeExpr.reference reference.asLive).usages Place.plain.isLive := List.mem_singleton.2 rfl
  exact exchange.leads_new found present (advice.isStatic advice.target).1

/-- Each reference leads on as before, and the changed one leads live to a member. -/
theorem leads_result (advice : FollowsAdvice exchange members) {isLive : Bool}
    {source target : String} (leads : exchange.original.Leads isLive source target) :
    exchange.result.Leads isLive source target ∨
      target ∈ members ∧ exchange.result.Leads true source target := by
  rcases exchange.leads_result leads with kept | ⟨found, usage, present, -, resolved⟩
  · exact Or.inl kept
  · obtain rfl := List.mem_singleton.1 present
    obtain rfl : reference.name.text = target := resolved
    exact Or.inr ⟨advice.target, advice.leads_live found⟩

/-- No reference leads on plain that did not do so before. -/
theorem leads_plain {source target : String}
    (leads : exchange.result.Leads false source target) :
    exchange.original.Leads false source target := by
  rcases exchange.leads_original leads with kept | ⟨_, usage, present, plain, -⟩
  · exact kept
  · obtain rfl := List.mem_singleton.1 present
    cases plain

/-- No reference is lost, and those that are changed have become live. -/
theorem moreLive (advice : FollowsAdvice exchange members) :
    exchange.original.MoreLive exchange.result := by
  refine ⟨exchange.declares_result, ?_, fun _ _ => leads_plain⟩
  intro isLive source target leads
  rcases advice.leads_result leads with kept | ⟨-, live⟩
  · exact ⟨isLive, id, kept⟩
  · exact ⟨true, fun _ => rfl, live⟩

/-- A live chain leads to the member that the changed reference names. -/
theorem chain_target (advice : FollowsAdvice exchange members) :
    exchange.result.Chain true reference.name.text := by
  obtain ⟨member, isMember, reachable⟩ := advice.reachable
  have inside : ReflTransGen exchange.original.Refers member exchange.definition.name.text :=
    ReflTransGen.mono (fun _ _ edge => ⟨false, edge.2.2⟩) _ _ (advice.path isMember advice.source)
  obtain ⟨isLive, chain⟩ := Document.exists_chain (reachable.trans inside)
    (advice.isStatic advice.source).2.1
  obtain ⟨nowLive, -, chain⟩ := advice.moreLive.chain chain
  have step := advice.leads_live (exchange.find?_changed advice.first)
  have goesOn : exchange.result.Chain (nowLive || true) reference.name.text :=
    .next chain step (advice.isStatic advice.target).2.1
  rwa [Bool.or_true] at goesOn

/-- From there live chains lead to all members, since they go on along the references of the
cycle. -/
theorem chain_member (advice : FollowsAdvice exchange members) {member : String}
    (isMember : member ∈ members) : exchange.result.Chain true member := by
  have path := advice.path advice.target isMember
  clear isMember
  induction path with
  | refl => exact advice.chain_target
  | tail _ edge inductionHypothesis =>
      rcases advice.leads_result edge.2.2 with kept | ⟨-, live⟩
      · exact .next inductionHypothesis kept edge.2.1.2.1
      · exact .next inductionHypothesis live edge.2.1.2.1

/-- Of the plain edges those are left that lead to a definition that is still static. -/
theorem plainEdge_result_iff (advice : FollowsAdvice exchange members) (source target : String) :
    exchange.result.PlainEdge source target ↔
      exchange.original.PlainEdge source target ∧ exchange.result.IsStatic target := by
  constructor
  · intro edge
    obtain ⟨sourceStatic, targetStatic, leads⟩ := edge
    exact ⟨⟨advice.moreLive.isStatic sourceStatic, advice.moreLive.isStatic targetStatic,
      leads_plain leads⟩, targetStatic⟩
  · intro edge
    obtain ⟨⟨sourceStatic, _, leads⟩, targetStatic⟩ := edge
    rcases advice.leads_result leads with kept | ⟨isMember, -⟩
    · have aside : exchange.result.LeadsAside source target :=
        ⟨kept, sourceStatic.2.1, targetStatic.2.1⟩
      exact ⟨targetStatic.of_leadsAside aside, targetStatic, kept⟩
    · exact absurd (advice.chain_member isMember) targetStatic.2.2

/-- The other cycles are reported as before, unless their members have become live. -/
theorem staticCycles_sublist (advice : FollowsAdvice exchange members) :
    exchange.result.staticCycles.Sublist exchange.original.staticCycles := by
  rw [exchange.result.staticCycles_eq, exchange.original.staticCycles_eq]
  apply Graph.cycles_sublist exchange.original.nodup_nodes_staticGraph
  · rw [Document.nodes_staticGraph, Document.nodes_staticGraph, Document.firstNames,
      exchange.declaredNames_result]
    apply List.monotone_filter_right
    intro name static
    simp only [Bool.and_eq_true, bne_iff_ne, Bool.not_eq_true', ← Bool.not_eq_true,
      List.contains_iff_mem, Document.mem_liveNames_iff] at static ⊢
    exact ⟨static.1, fun chain => static.2 (advice.moreLive.live_chain chain)⟩
  · intro source target
    rw [Document.edge_staticGraph_iff, Document.edge_staticGraph_iff,
      Document.mem_nodes_staticGraph_iff]
    exact advice.plainEdge_result_iff source target

theorem cycleProblems_sublist (advice : FollowsAdvice exchange members) :
    exchange.result.cycleProblems.Sublist exchange.original.cycleProblems := by
  rw [Document.cycleProblems, Document.cycleProblems, exchange.declares_result,
    funext exchange.cycleProblem?_result]
  split
  · exact advice.staticCycles_sublist.filterMap _
  · exact .slnil

/-- Nothing new is reported, and the rest is in the same order. -/
theorem reported_sublist (advice : FollowsAdvice exchange members) :
    exchange.result.reported.Sublist exchange.original.reported := by
  obtain ⟨earlier, original, result⟩ := exchange.problems_result (fun _ => rfl) (by simp)
  rw [Document.reported_eq, Document.reported_eq, original, result]
  exact advice.cycleProblems_sublist.append_left earlier

end Document.FollowsAdvice

/-- A live chain to a definition other than the root makes it live in the schema. -/
theorem Document.mem_classes_of_chain {document : Document Mark} {schema : Schema Mark}
    {name : String} (accepted : document.check = .ok schema) (chain : document.Chain true name)
    (other : name ≠ rootName) : (name, false) ∈ schema.classes := by
  obtain ⟨definition, declared, named⟩ := (document.declares_iff name).1 chain.declares
  have listed : definition ∈ schema.definitions.map ClassifiedDefinition.definition := by
    rw [Document.definitions_of_check accepted, List.mem_filter]
    exact ⟨declared, by simpa [named] using other⟩
  obtain ⟨classified, present, rfl⟩ := List.mem_map.1 listed
  obtain rfl : classified.name = name := named
  have live := (Document.isStatic_eq_false_iff_of_check accepted present).2 chain
  exact List.mem_map.2 ⟨classified, present, by rw [live]⟩

theorem Document.reported_of_check {review : Review} {document : Document Span}
    {failure : Failure} (clear : review.pending = [])
    (failed : (review.check document).1 = .error failure) :
    failure.diagnostics = document.reported.map Problem.diagnostic := by
  rw [(Review.diagnostics_of_check_eq_error failed).1, clear, List.nil_append]

/-- If the advice for a reported cycle is followed then all its members are live, no cycle that is
reported names one of them, and checking accepts the changed document or reports a part of what it
reported before, in the same order. -/
theorem Review.cycle_advice_works (text : String) {reference : Reference Span}
    (exchange : Document.Exchange (.reference reference) (.reference reference.asLive) .plain)
    (members : List String) (advice : Document.FollowsAdvice exchange members) :
    (∀ member ∈ members, ∃ definition, exchange.result.find? member = some definition ∧
      definition.isStatic exchange.result.liveNames = false) ∧
    (∀ problem ∈ exchange.result.reported, ∀ others, problem.fault = .staticCycle others →
      others.Disjoint members) ∧
    ∃ failure, ((Review.ofText text).check exchange.original).1 = .error failure ∧
      match ((Review.ofText text).check exchange.result).1 with
      | .ok schema => ∀ member ∈ members, (member, false) ∈ schema.classes
      | .error other =>
          other.diagnostics = exchange.result.reported.map Problem.diagnostic ∧
          other.diagnostics.Sublist failure.diagnostics := by
  refine ⟨?_, ?_, ?_⟩
  · intro member isMember
    have declared := (advice.isStatic isMember).1
    rw [← exchange.declares_result] at declared
    obtain ⟨definition, found⟩ := Option.isSome_iff_exists.1 declared
    refine ⟨definition, found, ?_⟩
    obtain rfl := (Document.find?_eq_some found).2
    rw [← Bool.not_eq_true, Definition.isStatic_iff]
    intro static
    exact static.2 (advice.chain_member isMember)
  · intro problem present others fault name inOthers inMembers
    have cycle := Document.mem_staticCycles_of_reported present fault
    have component := (exchange.result.mem_staticCycles_iff others).1 cycle
    have static := Document.IsStatic.of_loop
      (component.loop exchange.result.nodup_firstNames inOthers)
    exact static.2.2 (advice.chain_member inMembers)
  · cases checked : ((Review.ofText text).check exchange.original).1 with
    | ok schema =>
        obtain ⟨problem, present, -⟩ := advice.reported
        rw [Document.reported, ((Review.check_eq_ok_iff _ _ _).1 checked).2] at present
        cases present
    | error failure =>
        refine ⟨failure, rfl, ?_⟩
        cases rechecked : ((Review.ofText text).check exchange.result).1 with
        | ok schema =>
            have accepted := ((Review.check_eq_ok_iff _ _ _).1 rechecked).2
            intro member isMember
            exact Document.mem_classes_of_chain accepted (advice.chain_member isMember)
              (advice.isStatic isMember).2.1
        | error other =>
            have reported := Document.reported_of_check rfl checked
            have shown := Document.reported_of_check rfl rechecked
            refine ⟨shown, ?_⟩
            rw [shown, reported]
            exact advice.reported_sublist.map Problem.diagnostic

/-- Here the cycle of `A` and `B` is broken in `A`, and the one of `D` is still reported. -/
theorem Review.cycle_advice_works_of_two :
    ∃ (reference : Reference Span)
      (exchange : Document.Exchange (.reference reference) (.reference reference.asLive) .plain),
      (Document.ofText false
        "type Storage \x7ba:A\x7dtype A\x7bb:B[]\x7dtype B\x7ba:A\x7dtype D\x7bd:D\x7d").toOption =
          some exchange.original ∧
      Document.FollowsAdvice exchange ["A", "B"] ∧
      (∀ problem ∈ exchange.result.reported, ∀ others, problem.fault = .staticCycle others →
        others.Disjoint ["A", "B"]) ∧
      exchange.result.reported.map Problem.fault = [.staticCycle ["D"]] := by
  let reference : Reference Span := ⟨⟨27, 28⟩, ⟨⟨27, 28⟩, "B"⟩, false⟩
  let field (start stop : Nat) (name : String) (type : TypeExpr Span) : Field Span :=
    ⟨⟨start, stop⟩, ⟨⟨start, start + 1⟩, name⟩, false, type, none, none⟩
  let plain (start : Nat) (name : String) : TypeExpr Span :=
    .reference ⟨⟨start, start + 1⟩, ⟨⟨start, start + 1⟩, name⟩, false⟩
  let exchange : Document.Exchange (.reference reference) (.reference reference.asLive) .plain :=
    ⟨⟨0, 53⟩,
      [⟨⟨0, 18⟩, ⟨⟨5, 12⟩, "Storage"⟩, [field 14 17 "a" (plain 16 "A")], none⟩], _, _,
      [⟨⟨31, 42⟩, ⟨⟨36, 37⟩, "B"⟩, [field 38 41 "a" (plain 40 "A")], none⟩,
        ⟨⟨42, 53⟩, ⟨⟨47, 48⟩, "D"⟩, [field 49 52 "d" (plain 51 "D")], none⟩],
      @Definition.Exchanges.field Span _ _ _ ⟨18, 31⟩ ⟨⟨23, 24⟩, "A"⟩ [] [] none
        (field 25 30 "b" (.array ⟨27, 30⟩ (.reference reference))) _ (.arrayItem .here)⟩
  have read : (Document.ofText false
      "type Storage \x7ba:A\x7dtype A\x7bb:B[]\x7dtype B\x7ba:A\x7dtype D\x7bd:D\x7d").toOption =
        some exchange.original := by
    decide +kernel
  have advice : Document.FollowsAdvice exchange ["A", "B"] := by
    constructor
    · exact ⟨⟨⟨23, 24⟩, .staticCycle ["A", "B"]⟩, by decide +kernel, rfl⟩
    · exact ⟨"A", by decide, .single ⟨false, by decide +kernel⟩⟩
    · decide +kernel
    · decide +kernel
    · decide +kernel
    · rfl
  have works := Review.cycle_advice_works
    "type Storage \x7ba:A\x7dtype A\x7bb:B[]\x7dtype B\x7ba:A\x7dtype D\x7bd:D\x7d" exchange ["A", "B"] advice
  have reported : exchange.result.reported.map Problem.fault = [.staticCycle ["D"]] := by
    decide +kernel
  exact ⟨reference, exchange, read, advice, works.2.1, reported⟩

end StorageSchema
