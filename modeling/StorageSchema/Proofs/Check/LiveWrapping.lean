/-
This file shows that an accepted document stays accepted if more of it is made live, and that all
its live definitions stay live.
-/
import StorageSchema.Proofs.Check.CycleAdvice

namespace StorageSchema

variable {Mark : Type}

/-! ### One change -/

/-- An expression is made live if it is a reference that is to a live object now, or if it is put
into a live list. The keys of maps are not put into lists. -/
inductive TypeExpr.MadeLive (place : Place) : TypeExpr Mark → TypeExpr Mark → Prop where
  | object (reference : Reference Mark) :
      MadeLive place (.reference reference) (.reference reference.asLive)
  | list {type : TypeExpr Mark} (mark : Mark) : place ≠ .key →
      MadeLive place type (.liveList mark type)

/-- A usage that is below a live wrapper is live. -/
def Usage.enliven (usage : Usage Mark) : Usage Mark := { usage with isLive := true }

mutual

/-- Below a live wrapper the same references are used, and all of them are live. -/
theorem TypeExpr.usages_true (belowLive : Bool) : (type : TypeExpr Mark) →
    type.usages true = (type.usages belowLive).map Usage.enliven
  | .scalar _ _ | .string _ _ | .number _ _ | .boolean _ _ => rfl
  | .reference named => by simp [TypeExpr.usages, Usage.enliven]
  | .array _ item => TypeExpr.usages_true belowLive item
  | .liveList _ item => TypeExpr.usages_true true item
  | .liveMap _ key value => by
      have inKey := TypeExpr.usages_true true key
      have inValue := TypeExpr.usages_true true value
      rw [TypeExpr.usages, TypeExpr.usages, List.map_append, ← inKey, ← inValue]
  | .union _ members => TypeExpr.usagesAll_true belowLive members

theorem TypeExpr.usagesAll_true (belowLive : Bool) : (members : List (TypeExpr Mark)) →
    TypeExpr.usagesAll true members = (TypeExpr.usagesAll belowLive members).map Usage.enliven
  | [] => rfl
  | member :: rest => by
      have inMember := TypeExpr.usages_true belowLive member
      have inRest := TypeExpr.usagesAll_true belowLive rest
      rw [TypeExpr.usagesAll, TypeExpr.usagesAll, List.map_append, ← inMember, ← inRest]

end

namespace TypeExpr.MadeLive

variable {place : Place} {old new : TypeExpr Mark}

/-- Each reference is there still, and it is live if it was. -/
theorem exists_new (madeLive : old.MadeLive place new) {belowLive : Bool} {usage : Usage Mark}
    (present : usage ∈ old.usages belowLive) :
    ∃ now ∈ new.usages belowLive, now.target = usage.target ∧
      (usage.isLive = true → now.isLive = true) := by
  cases madeLive with
  | object reference =>
      obtain rfl := List.mem_singleton.1 present
      refine ⟨⟨reference.asLive, true⟩, ?_, rfl, fun _ => rfl⟩
      simp [TypeExpr.usages, Reference.asLive]
  | list mark outside =>
      refine ⟨usage.enliven, ?_, rfl, fun _ => rfl⟩
      rw [TypeExpr.usages, old.usages_true belowLive]
      exact List.mem_map_of_mem present

/-- Each reference that is plain now was plain before. -/
theorem exists_plain (madeLive : old.MadeLive place new) {belowLive : Bool} {usage : Usage Mark}
    (present : usage ∈ new.usages belowLive) (plain : usage.isLive = false) :
    ∃ before ∈ old.usages belowLive, before.target = usage.target ∧ before.isLive = false := by
  cases madeLive with
  | object reference =>
      obtain rfl := List.mem_singleton.1 present
      simp [Reference.asLive] at plain
  | list mark outside =>
      rw [TypeExpr.usages, old.usages_true belowLive] at present
      obtain ⟨before, _, rfl⟩ := List.mem_map.1 present
      cases plain

theorem problems_eq (madeLive : old.MadeLive place new) (declared : List String) :
    new.problems declared = old.problems declared := by
  cases madeLive <;> rfl

theorem mark_and_scalar (madeLive : old.MadeLive place new) (inKey : place = .key) :
    new.mark = old.mark ∧ new.scalar? = old.scalar? := by
  cases madeLive with
  | object reference => exact ⟨rfl, rfl⟩
  | list mark outside => exact absurd inKey outside

end TypeExpr.MadeLive

/-! ### Acceptance -/

section Exchange

variable {place : Place} {old new : TypeExpr Mark}

/-- A document is more live once one of its expressions is made live. -/
theorem TypeExpr.MadeLive.moreLive (madeLive : old.MadeLive place new)
    (exchange : Document.Exchange old new place) :
    exchange.original.MoreLive exchange.result := by
  constructor
  · exact exchange.declares_result
  · intro isLive source target leads
    rcases exchange.leads_result leads with kept | ⟨found, usage, present, rfl, rfl⟩
    · exact ⟨isLive, id, kept⟩
    · obtain ⟨now, isNew, target, implies⟩ := madeLive.exists_new present
      have declared := leads.declares_target
      rw [← target] at declared ⊢
      exact ⟨now.isLive, implies, exchange.leads_new found isNew declared⟩
  · intro source target leads
    rcases exchange.leads_original leads with kept | ⟨found, usage, present, plain, rfl⟩
    · exact kept
    · obtain ⟨before, wasOld, target, wasPlain⟩ := madeLive.exists_plain present plain
      have declared := leads.declares_target
      rw [← target] at declared ⊢
      rw [← wasPlain]
      exact exchange.reverse.leads_new found wasOld declared

/-- An accepted document has no problems after the change, since only cycles depend on what is live
in it. -/
theorem TypeExpr.MadeLive.exists_accepted (madeLive : old.MadeLive place new)
    (exchange : Document.Exchange old new place) {schema : Schema Mark}
    (accepted : exchange.original.check = .ok schema) :
    ∃ other, exchange.result.check = .ok other := by
  have noLoop := Document.no_loop_of_check accepted
  obtain ⟨root, found, none, -⟩ := (exchange.original.check_eq_ok_iff schema).1 accepted
  have declared := Document.declares_of_find? found
  rw [← exchange.declares_result] at declared
  obtain ⟨newRoot, newFound⟩ := Option.isSome_iff_exists.1 declared
  refine ⟨_, (exchange.result.check_eq_ok_iff _).2 ⟨newRoot, newFound, ?_, rfl⟩⟩
  obtain ⟨earlier, original, result⟩ :=
    exchange.problems_result madeLive.problems_eq madeLive.mark_and_scalar
  have noneEarlier : earlier = [] := (List.append_eq_nil_iff.1 (original ▸ none)).1
  have noCycles := (madeLive.moreLive exchange).staticCycles_eq_nil noLoop
  rw [result, noneEarlier, Document.cycleProblems, noCycles]
  simp

/-- The definitions keep their order and their names. -/
theorem Document.Exchange.forall₂_name (exchange : Document.Exchange old new place) :
    List.Forall₂ (fun before after : Definition Mark => after.name = before.name)
      exchange.original.definitions exchange.result.definitions := by
  have same (definitions : List (Definition Mark)) :
      List.Forall₂ (fun before after : Definition Mark => after.name = before.name)
        definitions definitions := List.forall₂_same.2 fun _ _ => rfl
  exact List.rel_append (same exchange.before)
    (.cons exchange.exchanges.name_eq (same exchange.after))

/-- The definitions that are live in a schema are live in that of the document that is more live. -/
theorem TypeExpr.MadeLive.forall₂_classified (madeLive : old.MadeLive place new)
    (exchange : Document.Exchange old new place) {schema other : Schema Mark}
    (accepted : exchange.original.check = .ok schema)
    (recheck : exchange.result.check = .ok other) :
    List.Forall₂ (fun before after => after.name = before.name ∧
      (before.isStatic = false → after.isStatic = false)) schema.all other.all := by
  have moreLive := madeLive.moreLive exchange
  obtain ⟨root, found, -, rfl⟩ := (exchange.original.check_eq_ok_iff schema).1 accepted
  obtain ⟨newRoot, newFound, -, rfl⟩ := (exchange.result.check_eq_ok_iff other).1 recheck
  have rootNamed : newRoot.name.text = root.name.text :=
    (Document.find?_eq_some newFound).2.trans (Document.find?_eq_some found).2.symm
  refine .cons ⟨rootNamed, fun _ => rfl⟩ ?_
  rw [Document.classified, Document.classified, List.forall₂_map_left_iff,
    List.forall₂_map_right_iff]
  have others := List.rel_filter
    (p := fun definition : Definition Mark => definition.name.text != rootName)
    (q := fun definition : Definition Mark => definition.name.text != rootName)
    (fun _ _ same => by simp [same]) exchange.forall₂_name
  refine others.imp ?_
  intro before after same
  refine ⟨congrArg Name.text same, ?_⟩
  simp only [← Bool.not_eq_true, Definition.isStatic_iff, same]
  intro live static
  exact live ⟨static.1, fun chain => static.2 (moreLive.live_chain chain)⟩

end Exchange

/-- If one reference of an accepted document is made a live object, or one of its expressions that
is not in the key of a live map is put into a live list, then the document is accepted still and has
the same definitions, and those that were live are live. -/
theorem Review.more_live_accepted (review : Review) {place : Place} {old new : TypeExpr Span}
    (exchange : Document.Exchange old new place) (madeLive : old.MadeLive place new)
    (schema : Schema Span) (accepted : (review.check exchange.original).1 = .ok schema) :
    ∃ other, (review.check exchange.result).1 = .ok other ∧
      List.Forall₂ (fun before after => after.name = before.name ∧
        (before.isStatic = false → after.isStatic = false)) schema.all other.all := by
  obtain ⟨clear, checked⟩ := (review.check_eq_ok_iff _ _).1 accepted
  obtain ⟨other, recheck⟩ := madeLive.exists_accepted exchange checked
  refine ⟨other, (review.check_eq_ok_iff _ _).2 ⟨clear, recheck⟩, ?_⟩
  exact madeLive.forall₂_classified exchange checked recheck

/-- Here the items of an array are put into live lists, and their type `B` becomes live beside
`D`. -/
theorem Review.more_live_accepted_of_item :
    ∃ (old new : TypeExpr Span) (exchange : Document.Exchange old new .plain),
      (Document.ofText false
        "type Storage \x7ba:A,d:LiveObject<D>\x7dtype A \x7bb:B[]\x7dtype B \x7b\x7dtype D \x7b\x7d").toOption =
          some exchange.original ∧
      ∃ schema other, exchange.original.check = .ok schema ∧ exchange.result.check = .ok other ∧
        List.Forall₂ (fun before after => after.name = before.name ∧
          (before.isStatic = false → after.isStatic = false)) schema.all other.all ∧
        schema.classes = [("A", true), ("B", true), ("D", false)] ∧
        other.classes = [("A", true), ("B", false), ("D", false)] := by
  let field (start stop : Nat) (name : String) (type : TypeExpr Span) : Field Span :=
    ⟨⟨start, stop⟩, ⟨⟨start, start + 1⟩, name⟩, false, type, none, none⟩
  let empty (start : Nat) (name : String) : Definition Span :=
    ⟨⟨start, start + 9⟩, ⟨⟨start + 5, start + 6⟩, name⟩, [], none⟩
  let plain (start : Nat) (name : String) : TypeExpr Span :=
    .reference ⟨⟨start, start + 1⟩, ⟨⟨start, start + 1⟩, name⟩, false⟩
  let live : TypeExpr Span := .reference ⟨⟨20, 33⟩, ⟨⟨31, 32⟩, "D"⟩, true⟩
  let item := plain 44 "B"
  let exchange : Document.Exchange item (.liveList ⟨44, 45⟩ item) .plain :=
    ⟨⟨0, 66⟩,
      [⟨⟨0, 34⟩, ⟨⟨5, 12⟩, "Storage"⟩, [field 14 18 "a" (plain 16 "A"), field 18 33 "d" live],
        none⟩], _, _,
      [empty 48 "B", empty 57 "D"],
      @Definition.Exchanges.field Span _ _ _ ⟨34, 48⟩ ⟨⟨39, 40⟩, "A"⟩ [] [] none
        (field 42 47 "b" (.array ⟨44, 47⟩ item)) _ (.arrayItem .here)⟩
  have read : (Document.ofText false
      "type Storage \x7ba:A,d:LiveObject<D>\x7dtype A \x7bb:B[]\x7dtype B \x7b\x7dtype D \x7b\x7d").toOption =
        some exchange.original := by
    decide +kernel
  have before : exchange.original.classes? = some [("A", true), ("B", true), ("D", false)] := by
    decide +kernel
  have after : exchange.result.classes? = some [("A", true), ("B", false), ("D", false)] := by
    decide +kernel
  obtain ⟨schema, accepted, classes⟩ := Document.exists_schema before
  obtain ⟨expected, rechecked, newClasses⟩ := Document.exists_schema after
  have madeLive : item.MadeLive .plain (.liveList ⟨44, 45⟩ item) := by
    apply TypeExpr.MadeLive.list
    decide
  obtain ⟨other, result, stays⟩ := Review.more_live_accepted (.ofText "") exchange madeLive schema
    ((Review.check_eq_ok_iff _ _ _).2 ⟨rfl, accepted⟩)
  have newAccepted := ((Review.check_eq_ok_iff _ _ _).1 result).2
  obtain rfl : other = expected := Except.ok.inj (newAccepted.symm.trans rechecked)
  exact ⟨_, _, exchange, read, schema, other, accepted, newAccepted, stays, classes, newClasses⟩

end StorageSchema
