/-
This file shows where the marks of a draft lie. What has been read of a definition, a field or a
type reaches from its first lexeme up to the last lexeme that has been read.
-/
import Mathlib.Order.Nat
import StorageSchema.Proofs.Draft.Step

namespace StorageSchema

variable {legacy : Bool}

/-- A span lies between two offsets. -/
structure Span.Within (low high : Nat) (span : Span) : Prop where
  low_le : low ≤ span.start
  placed : span.start ≤ span.stop
  le_high : span.stop ≤ high

theorem Span.Within.mono {low high higher : Nat} {span : Span} (within : span.Within low high)
    (above : high ≤ higher) : span.Within low higher :=
  ⟨within.low_le, within.placed, within.le_high.trans above⟩

/-- What begins early and what comes later make a span from the one to the other. -/
theorem Span.Within.union_later {low high : Nat} {span later : Span}
    (within : span.Within low high) (after : high ≤ later.start) (placed : later.start ≤ later.stop) :
    (span ∪ later).start = span.start ∧ (span ∪ later).stop = later.stop := by
  have bounds := within.le_high
  have own := within.placed
  rw [Span.union_eq own placed]
  exact ⟨Nat.min_eq_left (by omega), Nat.max_eq_right (by omega)⟩

theorem Span.Within.union {low high : Nat} {first second : Span} (left : first.Within low high)
    (right : second.Within low high) :
    (first ∪ second).Within low high ∧ first.stop ≤ (first ∪ second).stop ∧
      second.stop ≤ (first ∪ second).stop := by
  rcases left with ⟨_, leftPlaced, _⟩
  rcases right with ⟨_, rightPlaced, _⟩
  rw [Span.union_eq leftPlaced rightPlaced]
  refine ⟨⟨?_, ?_, ?_⟩, ?_, ?_⟩ <;> simp only <;> omega

/-- The union of many spans reaches as far as each of them. -/
theorem Span.Within.foldl_union {low high : Nat} {start : Span} {members : List (TypeExpr Span)}
    (first : start.Within low high) (rest : ∀ member ∈ members, member.mark.Within low high) :
    (members.foldl (fun mark member => mark ∪ member.mark) start).Within low high ∧
      ∀ stop ∈ start.stop :: members.map (·.mark.stop),
        stop ≤ (members.foldl (fun mark member => mark ∪ member.mark) start).stop := by
  induction members generalizing start with
  | nil => exact ⟨first, by simp⟩
  | cons member others inductionHypothesis =>
      obtain ⟨own, later⟩ := List.forall_mem_cons.1 rest
      obtain ⟨within, startBelow, memberBelow⟩ := first.union own
      obtain ⟨result, above⟩ := inductionHypothesis within later
      obtain ⟨joint, othersBelow⟩ := List.forall_mem_cons.1 above
      refine ⟨result, List.forall_mem_cons.2 ⟨startBelow.trans joint, ?_⟩⟩
      exact List.forall_mem_cons.2 ⟨memberBelow.trans joint, othersBelow⟩

/-- This is the keyword of the wrapper that has been opened. -/
def Enclosure.keyword : Enclosure Span → Span
  | .list keyword | .mapKey keyword | .mapValue keyword _ => keyword

/-- The marks of what surrounds an item lie between two offsets. -/
structure Surroundings.Placed (low stop : Nat) (around : Surroundings Span) : Prop where
  members : ∀ member ∈ around.members, member.mark.Within low stop
  keywords : ∀ layer ∈ around.layers, layer.enclosure.keyword.Within low stop
  outer : ∀ layer ∈ around.layers, ∀ member ∈ layer.members, member.mark.Within low stop

/-- The mark of what has been read of an item lies between two offsets, and a complete item reaches
up to where it has been read. -/
def TypeDraft.Placed (low stop : Nat) : TypeDraft Span → Prop
  | .empty => True
  | .complete item => item.mark.Within low stop ∧ item.mark.stop = stop
  | .bracket item => item.mark.Within low stop
  | .wrapper keyword _ | .object keyword | .namedObject keyword _ => keyword.Within low stop

theorem Surroundings.Placed.mono {low stop later : Nat} {around : Surroundings Span}
    (placed : around.Placed low stop) (above : stop ≤ later) : around.Placed low later :=
  ⟨fun member present => (placed.members member present).mono above,
    fun layer present => (placed.keywords layer present).mono above,
    fun layer inside member present => (placed.outer layer inside member present).mono above⟩

theorem Surroundings.Placed.outermost (low stop : Nat) :
    Surroundings.outermost.Placed low stop :=
  ⟨List.forall_mem_nil _, List.forall_mem_nil _, List.forall_mem_nil _⟩

theorem Surroundings.Placed.enclose {low stop : Nat} {around : Surroundings Span}
    {enclosure : Enclosure Span} (placed : around.Placed low stop)
    (keyword : enclosure.keyword.Within low stop) : (around.enclose enclosure).Placed low stop := by
  refine ⟨List.forall_mem_nil _, ?_, ?_⟩
  · exact List.forall_mem_cons.2 ⟨keyword, placed.keywords⟩
  · exact List.forall_mem_cons.2 ⟨placed.members, placed.outer⟩

theorem Surroundings.Placed.leave {low stop : Nat} {inner members : List (TypeExpr Span)}
    {enclosure : Enclosure Span} {layers : List (Layer Span)}
    (placed : Surroundings.Placed low stop ⟨inner, ⟨enclosure, members⟩ :: layers⟩) :
    Surroundings.Placed low stop ⟨members, layers⟩ ∧ enclosure.keyword.Within low stop := by
  obtain ⟨keyword, keywords⟩ := List.forall_mem_cons.1 placed.keywords
  obtain ⟨own, outer⟩ := List.forall_mem_cons.1 placed.outer
  exact ⟨⟨own, keywords, outer⟩, keyword⟩

/-- The type that a complete item ends reaches up to where it has been read. -/
theorem Surroundings.Placed.finish {low stop : Nat} {around : Surroundings Span}
    {item : TypeExpr Span} (placed : around.Placed low stop)
    (complete : TypeDraft.Placed low stop (.complete item)) :
    TypeDraft.Placed low stop (.complete (around.finish item)) := by
  obtain ⟨itemWithin, itemStop⟩ := complete
  have all : ∀ member ∈ (item :: around.members).reverse, member.mark.Within low stop := by
    simp only [List.mem_reverse]
    exact List.forall_mem_cons.2 ⟨itemWithin, placed.members⟩
  have last : item ∈ (item :: around.members).reverse := by simp
  rw [Surroundings.finish]
  generalize (item :: around.members).reverse = listed at all last
  rcases listed with _ | ⟨first, _ | ⟨second, rest⟩⟩
  · exact ⟨itemWithin, itemStop⟩
  · exact ⟨itemWithin, itemStop⟩
  · obtain ⟨firstWithin, others⟩ := List.forall_mem_cons.1 all
    obtain ⟨within, reaches⟩ := firstWithin.foldl_union others
    refine ⟨within, Nat.le_antisymm within.le_high ?_⟩
    rw [← itemStop]
    exact reaches _ (List.mem_map_of_mem (f := fun member : TypeExpr Span => member.mark.stop) last)

/-- Each step of a type keeps the marks in their place. -/
theorem TypeDraft.Step.placed {low stop : Nat} {lexeme : Lexeme Span}
    {state next : Surroundings Span × TypeDraft Span}
    (step : TypeDraft.Step legacy lexeme state next) (around : state.1.Placed low stop)
    (draft : state.2.Placed low stop) (below : low ≤ stop) (after : stop ≤ lexeme.mark.start)
    (solid : lexeme.mark.start ≤ lexeme.mark.stop) :
    next.1.Placed low lexeme.mark.stop ∧ next.2.Placed low lexeme.mark.stop := by
  have later := after.trans solid
  have own : lexeme.mark.Within low lexeme.mark.stop := ⟨below.trans after, solid, Nat.le_refl _⟩
  have moved := around.mono later
  have complete : ∀ {mark : Span}, mark.Within low stop →
      (mark ∪ lexeme.mark).Within low lexeme.mark.stop ∧
        (mark ∪ lexeme.mark).stop = lexeme.mark.stop := by
    intro mark within
    obtain ⟨starts, stops⟩ := within.union_later after solid
    exact ⟨((within.mono later).union own).1, stops⟩
  cases step with
  | string _ | number _ | boolean _ _ | scalar _ _ | reference _ _ => exact ⟨moved, own, rfl⟩
  | wrapper _ _ => exact ⟨moved, own⟩
  | openBracket _ => exact ⟨moved, draft.1.mono later⟩
  | closeBracket _ => exact ⟨moved, complete draft⟩
  | bar _ =>
      refine ⟨⟨?_, moved.keywords, moved.outer⟩, trivial⟩
      exact List.forall_mem_cons.2 ⟨draft.1.mono later, moved.members⟩
  | @openAngle around keyword kind _ =>
      have opened : keyword.Within low lexeme.mark.stop := Span.Within.mono draft later
      cases kind with
      | liveObject => exact ⟨moved, opened⟩
      | liveList => exact ⟨moved.enclose opened, trivial⟩
      | liveMap => exact ⟨moved.enclose opened, trivial⟩
  | closeList _ | closeMap _ =>
      obtain ⟨outer, keyword⟩ := around.leave
      exact ⟨outer.mono later, complete keyword⟩
  | comma _ =>
      obtain ⟨outer, keyword⟩ := moved.leave
      exact ⟨outer.enclose keyword, trivial⟩
  | objectName _ _ => exact ⟨moved, Span.Within.mono draft later⟩
  | closeObject _ => exact ⟨moved, complete draft⟩

/-- A stage has read up to an offset, and its marks lie before that. -/
def Stage.Placed (stop : Nat) : Stage Span → Prop
  | .outside => True
  | .keyword mark _ | .heading mark _ _ => mark.Within 0 stop
  | .body opened => opened.keyword.Within 0 stop
  | .label opened named | .optionalLabel opened named =>
      opened.keyword.Within 0 stop ∧ named.name.mark.Within 0 stop
  | .type opened named around draft =>
      opened.keyword.Within 0 stop ∧ named.name.mark.Within 0 stop ∧
        around.Placed named.name.mark.start stop ∧ draft.Placed named.name.mark.start stop
  | .comma opened field => opened.keyword.Within 0 stop ∧ field.mark.stop = stop

/-- A field reaches from its name to the end of its type. -/
theorem Label.placed_field {stop : Nat} {named : Label Span} {around : Surroundings Span}
    {item : TypeExpr Span} (name : named.name.mark.Within 0 stop)
    (placed : around.Placed named.name.mark.start stop)
    (complete : TypeDraft.Placed named.name.mark.start stop (.complete item)) :
    (named.field (around.finish item)).mark.Within 0 stop ∧
      (named.field (around.finish item)).mark.start = named.name.mark.start ∧
      (named.field (around.finish item)).mark.stop = stop := by
  obtain ⟨within, stops⟩ := placed.finish complete
  have nameStops := name.le_high
  have typeStarts := within.low_le
  have both := name.union ⟨Nat.zero_le _, within.placed, within.le_high⟩
  refine ⟨both.1, ?_⟩
  change (named.name.mark ∪ (around.finish item).mark).start = _ ∧
    (named.name.mark ∪ (around.finish item).mark).stop = _
  rw [Span.union_eq name.placed within.placed]
  exact ⟨Nat.min_eq_left typeStarts, by simp only; omega⟩

theorem Stage.Placed.between {stop : Nat} {stage : Stage Span} {opened : OpenDefinition Span}
    {lexeme : Lexeme Span} (placed : stage.Placed stop) (between : stage.Between lexeme opened) :
    opened.keyword.Within 0 stop := by
  cases between with
  | body => exact placed
  | comma => exact placed.1
  | type => exact placed.1

/-- Each step of a document keeps the marks in their place. -/
theorem Draft.Step.placed {stop : Nat} {lexeme : Lexeme Span} {draft next : Draft Span}
    (step : Draft.Step legacy lexeme draft next) (placed : draft.stage.Placed stop)
    (after : stop ≤ lexeme.mark.start) (solid : lexeme.mark.start ≤ lexeme.mark.stop) :
    next.stage.Placed lexeme.mark.stop := by
  have later := after.trans solid
  have own : lexeme.mark.Within 0 lexeme.mark.stop := ⟨Nat.zero_le _, solid, Nat.le_refl _⟩
  cases step with
  | keyword _ _ => exact own
  | typeName _ => exact Span.Within.mono placed later
  | openBrace _ => exact Span.Within.mono placed later
  | closeBrace _ _ => trivial
  | fieldName _ between => exact ⟨(placed.between between).mono later, own⟩
  | question _ => exact ⟨placed.1.mono later, placed.2.mono later⟩
  | colon _ | optionalColon _ =>
      exact ⟨placed.1.mono later, placed.2.mono later, .outermost _ _, trivial⟩
  | type part =>
      obtain ⟨keyword, name, around, typeDraft⟩ := placed
      have below := name.placed.trans name.le_high
      obtain ⟨nextAround, nextDraft⟩ := part.placed around typeDraft below after solid
      exact ⟨keyword.mono later, name.mono later, nextAround, nextDraft⟩
  | comma _ =>
      obtain ⟨keyword, name, around, typeDraft⟩ := placed
      obtain ⟨field, -, -⟩ := Label.placed_field name around typeDraft
      exact ⟨keyword.mono later, (field.union_later after solid).2⟩

end StorageSchema
