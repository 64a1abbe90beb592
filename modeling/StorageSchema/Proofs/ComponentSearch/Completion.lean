/-
This file shows that a node which is finished without a lowered low link has exactly its strong
component above it on the stack.
-/
import StorageSchema.Proofs.ComponentSearch.Invariant

namespace StorageSchema

open Relation (ReflTransGen)

namespace ComponentSearch

/-- The components found so far are strong, have no nodes in common, and hold what has been seen and
is not stacked. -/
structure Found (edges : Array (List Nat)) (search : ComponentSearch) : Prop where
  strong : ∀ component ∈ search.components, StrongComponent edges component
  disjoint : search.components.Pairwise List.Disjoint
  mem_iff : ∀ node, (∃ component ∈ search.components, node ∈ component) ↔
    search.IsSeen node ∧ node ∉ search.stack

theorem found_empty (edges : Array (List Nat)) : Found edges (empty edges.size) where
  strong := by simp [empty]
  disjoint := by simp [empty]
  mem_iff node := by
    have unseen := not_isSeen_empty edges.size node
    simp [unseen, show (empty edges.size).components = [] from rfl]

variable {edges : Array (List Nat)} {search : ComponentSearch} {rest : List (Nat × Nat)}
  {node place : Nat} {targets : List Nat}

/-- What comes after the same item is a part too, if the item is not there before. -/
theorem sublist_of_sublist_append {node : Nat} {above left nodes : List Nat} (absent : node ∉ above)
    (ordered : (node :: nodes).Sublist (above ++ node :: left)) : nodes.Sublist left := by
  induction above with
  | nil => exact ordered.of_cons_cons
  | cons top others inductionHypothesis =>
      have different : node ≠ top := fun same => absent (same ▸ List.mem_cons_self)
      apply inductionHypothesis
      · exact fun present => absent (List.mem_cons_of_mem top present)
      · exact List.Sublist.of_cons_of_ne different ordered

/-- What has been seen and is not stacked leads to nothing else. -/
theorem Invariant.closed_of_leads {path : List (Nat × Nat)} {pending : Option Nat}
    (invariant : Invariant edges search path pending) {first second : Nat}
    (leads : ReflTransGen (NumberedEdge edges) first second)
    (seen : search.IsSeen first ∧ first ∉ search.stack) :
    search.IsSeen second ∧ second ∉ search.stack := by
  induction leads with
  | refl => exact seen
  | tail _ edge inductionHypothesis =>
      exact invariant.closed _ _ inductionHypothesis.1 inductionHypothesis.2 edge

section Root

variable (invariant : Invariant edges search ((node, place) :: rest) none)
  (listed : edges[node]? = some targets) (isLast : targets[place]? = none)
  (isRoot : search.low node = search.order node)
include invariant listed isLast

/-- All edges of the stacked nodes from the last one on have been followed. -/
theorem Invariant.followed_of_above {other target : Nat}
    (above : search.order node ≤ search.order other) (edge : NumberedEdge edges other target) :
    Followed edges ((node, place) :: rest) other target := by
  obtain ⟨others, found, isTarget⟩ := edge
  obtain ⟨spot, chosen⟩ := List.mem_iff_getElem?.1 isTarget
  apply Followed.of_left listed isLast
  refine ⟨others, spot, found, chosen, ?_⟩
  intro next onPath
  have less : search.order other < search.order node :=
    invariant.order_lt_head (List.mem_map_of_mem onPath)
  omega

include isRoot

theorem Invariant.above_of_edge {other target : Nat} (isStacked : other ∈ search.stack)
    (above : search.order node ≤ search.order other) (edge : NumberedEdge edges other target) :
    (target ∈ search.stack ∧ search.order node ≤ search.order target) ∨
      (search.IsSeen target ∧ target ∉ search.stack) := by
  have followed := invariant.followed_of_above listed isLast above edge
  have seen : search.IsSeen target :=
    (invariant.followed other target (invariant.stacked other isStacked) followed).resolve_right
      nofun
  by_cases targetStacked : target ∈ search.stack
  · left
    refine ⟨targetStacked, ?_⟩
    obtain ⟨lower, onPath, notBelow, bound⟩ := invariant.low_bounds node List.mem_cons_self other
      isStacked above target targetStacked followed
    -- Nothing on the path is above its last node, so the bound is the low link of that node.
    rcases List.mem_cons.1 onPath with rfl | earlier
    · rwa [isRoot] at bound
    · have less := invariant.order_lt_head earlier
      omega
  · exact .inr ⟨seen, targetStacked⟩

theorem Invariant.above_of_leads {other target : Nat} (isStacked : other ∈ search.stack)
    (above : search.order node ≤ search.order other)
    (leads : ReflTransGen (NumberedEdge edges) other target) :
    (target ∈ search.stack ∧ search.order node ≤ search.order target) ∨
      (search.IsSeen target ∧ target ∉ search.stack) := by
  induction leads with
  | refl => exact .inl ⟨isStacked, above⟩
  | tail _ edge inductionHypothesis =>
      rcases inductionHypothesis with further | outside
      · exact invariant.above_of_edge listed isLast isRoot further.1 further.2 edge
      · exact .inr (invariant.closed _ _ outside.1 outside.2 edge)

/-- The low links lead down to the last node from all that is above it. -/
theorem Invariant.leads_to_root (order : Nat) :
    ∀ other ∈ search.stack, search.order node ≤ search.order other → search.order other = order →
      ReflTransGen (NumberedEdge edges) other node := by
  induction order using Nat.strongRecOn with
  | ind order inductionHypothesis =>
      intro other isStacked above equal
      by_cases same : other = node
      · rw [same]
      · have absent : other ∉ ((node, place) :: rest).map Prod.fst := by
          intro onPath
          have notLess := invariant.order_le_head onPath
          exact same (invariant.order_injective isStacked invariant.head_stacked
            (Nat.le_antisymm notLess above))
        have less := invariant.low_lt other isStacked absent
        obtain ⟨next, nextStacked, nextOrder, leads⟩ := invariant.low_leads other isStacked
        rcases invariant.above_of_leads listed isLast isRoot isStacked above leads with
          further | outside
        · have down := inductionHypothesis (search.order next) (by omega) next nextStacked
            further.2 rfl
          exact leads.trans down
        · exact absurd nextStacked outside.2

variable {above left : List Nat} (stack : search.stack = above ++ node :: left)
include stack

omit listed isLast isRoot in
theorem Invariant.order_lt_of_left {other : Nat} (isLeft : other ∈ left) :
    search.order other < search.order node := by
  have descending := invariant.descending
  rw [stack] at descending
  exact List.rel_of_pairwise_cons (List.pairwise_append.1 descending).2.1 isLeft

omit listed isLast isRoot in
/-- The nodes that come off the stack are those from the last node on. -/
theorem Invariant.mem_popped_iff (other : Nat) :
    other ∈ above ++ [node] ↔ other ∈ search.stack ∧ search.order node ≤ search.order other := by
  have descending := invariant.descending
  rw [stack] at descending ⊢
  obtain ⟨-, -, higher⟩ := List.pairwise_append.1 descending
  simp only [List.mem_append, List.mem_cons, List.not_mem_nil, or_false]
  constructor
  · intro popped
    rcases popped with isAbove | rfl
    · exact ⟨.inl isAbove, Nat.le_of_lt (higher other isAbove node List.mem_cons_self)⟩
    · exact ⟨.inr (.inl rfl), Nat.le_refl _⟩
  · intro present
    obtain ⟨isAbove | same | isLeft, notLess⟩ := present
    · exact .inl isAbove
    · exact .inr same
    · have less := invariant.order_lt_of_left stack isLeft
      omega

omit listed isLast isRoot in
theorem Invariant.mem_left_iff (other : Nat) :
    other ∈ left ↔ other ∈ search.stack ∧ search.order other < search.order node := by
  constructor
  · intro isLeft
    refine ⟨?_, invariant.order_lt_of_left stack isLeft⟩
    rw [stack]
    exact List.mem_append_right _ (List.mem_cons_of_mem _ isLeft)
  · intro present
    have notPopped : other ∉ above ++ [node] := by
      rw [invariant.mem_popped_iff stack]
      omega
    have divided := present.1
    rw [stack, ← List.singleton_append, ← List.append_assoc] at divided
    exact (List.mem_append.1 divided).resolve_left notPopped

theorem Invariant.strongComponent_popped : StrongComponent edges (above ++ [node]) := by
  have popped_iff := invariant.mem_popped_iff stack
  constructor
  · simp
  · have distinct : search.stack.Nodup := by
      apply invariant.descending.imp
      rintro later _ less rfl
      exact Nat.lt_irrefl _ less
    rw [stack, ← List.singleton_append, ← List.append_assoc] at distinct
    exact (List.nodup_append.1 distinct).1
  · intro first firstPopped second
    obtain ⟨firstStacked, firstAbove⟩ := (popped_iff _).1 firstPopped
    have down := invariant.leads_to_root listed isLast isRoot _ first firstStacked firstAbove rfl
    have up {other : Nat} (popped : other ∈ above ++ [node]) :
        ReflTransGen (NumberedEdge edges) node other :=
      invariant.leads node List.mem_cons_self other ((popped_iff _).1 popped).1
        ((popped_iff _).1 popped).2
    constructor
    · intro secondPopped
      obtain ⟨secondStacked, secondAbove⟩ := (popped_iff _).1 secondPopped
      have back :=
        invariant.leads_to_root listed isLast isRoot _ second secondStacked secondAbove rfl
      exact ⟨down.trans (up secondPopped), back.trans (up firstPopped)⟩
    · intro both
      rcases invariant.above_of_leads listed isLast isRoot firstStacked firstAbove both.1 with
        further | outside
      · exact (popped_iff _).2 further
      · exact absurd firstStacked (invariant.closed_of_leads both.2 outside).2

omit listed isLast isRoot in
/-- Only what is left on the stack stays marked. -/
theorem Invariant.onStack_completed_iff (other : Nat) :
    (search.completed (above ++ [node]) left).onStack[other]? = some true ↔ other ∈ left := by
  have popped_iff := invariant.mem_popped_iff stack other
  have inside : ∀ popped ∈ above ++ [node], popped < search.onStack.size := by
    intro popped present
    rw [invariant.fits.onStack]
    exact invariant.lt_size ((invariant.mem_popped_iff stack popped).1 present).1
  rw [completed, getElem?_unmarked inside, invariant.mem_left_iff stack]
  by_cases popped : other ∈ above ++ [node]
  · have notLess := (popped_iff.1 popped).2
    simp only [popped, if_true, Option.some.injEq, Bool.false_eq_true, false_iff, not_and]
    intro _
    omega
  · rw [if_neg popped, invariant.onStack_iff]
    rw [popped_iff, not_and] at popped
    constructor
    · intro present
      exact ⟨present, Nat.lt_of_not_le (popped present)⟩
    · intro present
      exact present.1

omit listed isLast isRoot in
theorem Invariant.sublist_left : (rest.map Prod.fst).Sublist left := by
  have ordered := invariant.sublist
  rw [List.map_cons, stack] at ordered
  apply sublist_of_sublist_append _ ordered
  intro isAbove
  have descending := invariant.descending
  rw [stack] at descending
  exact Nat.lt_irrefl _
    ((List.pairwise_append.1 descending).2.2 node isAbove node List.mem_cons_self)

/-- The nodes of the component lead to each other or to what had been taken off the stack before. -/
theorem Invariant.closed_left {first second : Nat} (seen : search.IsSeen first)
    (absent : first ∉ left) (edge : NumberedEdge edges first second) :
    search.IsSeen second ∧ second ∉ left := by
  have left_iff := invariant.mem_left_iff stack
  have outside (closed : search.IsSeen second ∧ second ∉ search.stack) :
      search.IsSeen second ∧ second ∉ left :=
    ⟨closed.1, fun isLeft => closed.2 ((left_iff _).1 isLeft).1⟩
  by_cases firstStacked : first ∈ search.stack
  · have firstAbove : search.order node ≤ search.order first :=
      Nat.le_of_not_lt fun less => absent ((left_iff _).2 ⟨firstStacked, less⟩)
    rcases invariant.above_of_edge listed isLast isRoot firstStacked firstAbove edge with
      further | closed
    · refine ⟨invariant.stacked second further.1, ?_⟩
      rw [left_iff]
      omega
    · exact outside closed
  · exact outside (invariant.closed first second seen firstStacked edge)

/-- The rest of the path goes on without the component. -/
theorem Invariant.complete :
    Invariant edges (search.completed (above ++ [node]) left) rest none := by
  have left_iff := invariant.mem_left_iff stack
  have stacked {other : Nat} (isLeft : other ∈ left) : other ∈ search.stack :=
    ((left_iff _).1 isLeft).1
  have kept {upper : Nat} (onPath : upper ∈ ((node, place) :: rest).map Prod.fst) :
      upper = node ∨ upper ∈ rest.map Prod.fst := List.mem_cons.1 onPath
  constructor
  case fits => exact fits_completed invariant.fits _ _
  case onStack_iff => exact invariant.onStack_completed_iff stack
  case stacked => exact fun other isLeft => invariant.stacked other (stacked isLeft)
  case order_lt => exact invariant.order_lt
  case descending =>
    have descending := invariant.descending
    rw [stack] at descending
    exact (List.pairwise_append.1 descending).2.1.of_cons
  case sublist => exact invariant.sublist_left stack
  case rooted =>
    intro other isLeft
    obtain ⟨upper, onPath, notAbove⟩ := invariant.rooted other (stacked isLeft)
    have less := ((left_iff _).1 isLeft).2
    rcases kept onPath with rfl | earlier
    · change search.order upper ≤ search.order other at notAbove
      omega
    · exact ⟨upper, earlier, notAbove⟩
  case followed =>
    exact fun first second seen edge =>
      invariant.followed first second seen (edge.of_left listed isLast)
  case closed =>
    exact fun first second seen absent edge =>
      invariant.closed_left listed isLast isRoot stack seen absent edge
  case leads =>
    exact fun upper onPath other isLeft =>
      invariant.leads upper (List.mem_cons_of_mem _ onPath) other (stacked isLeft)
  case low_le => exact fun other isLeft => invariant.low_le other (stacked isLeft)
  case low_lt =>
    intro other isLeft absent
    have less := ((left_iff _).1 isLeft).2
    apply invariant.low_lt other (stacked isLeft)
    intro onPath
    rcases kept onPath with rfl | earlier
    · exact Nat.lt_irrefl _ less
    · exact absent earlier
  case low_leads =>
    intro other isLeft
    obtain ⟨next, nextStacked, equal, leads⟩ := invariant.low_leads other (stacked isLeft)
    have notAbove := invariant.low_le other (stacked isLeft)
    have less := ((left_iff _).1 isLeft).2
    exact ⟨next, (left_iff _).2 ⟨nextStacked, by omega⟩, equal, leads⟩
  case low_bounds =>
    intro upper onPath other isLeft notAbove next nextLeft edge
    obtain ⟨lower, lowerOnPath, notBelow, bound⟩ := invariant.low_bounds upper
      (List.mem_cons_of_mem _ onPath) other (stacked isLeft) notAbove next (stacked nextLeft)
      (edge.of_left listed isLast)
    have less := ((left_iff _).1 nextLeft).2
    rcases kept lowerOnPath with rfl | earlier
    · rw [isRoot] at bound
      omega
    · exact ⟨lower, earlier, notBelow, bound⟩

/-- The component is found, and nothing else has been taken off the stack. -/
theorem Invariant.found_completed (found : Found edges search) :
    Found edges (search.completed (above ++ [node]) left) := by
  have left_iff := invariant.mem_left_iff stack
  have popped_iff := invariant.mem_popped_iff stack
  constructor
  · intro component present
    rcases List.mem_append.1 present with earlier | new
    · exact found.strong component earlier
    · rw [List.mem_singleton.1 new]
      exact invariant.strongComponent_popped listed isLast isRoot stack
  · apply List.pairwise_append.2
    refine ⟨found.disjoint, List.pairwise_singleton _ _, ?_⟩
    intro component earlier new isNew other inside popped
    rw [List.mem_singleton.1 isNew, popped_iff] at popped
    exact ((found.mem_iff other).1 ⟨component, earlier, inside⟩).2 popped.1
  · intro other
    change (∃ component ∈ search.components ++ [above ++ [node]], other ∈ component) ↔
      search.IsSeen other ∧ other ∉ left
    simp only [List.mem_append (s := search.components), List.mem_singleton, or_and_right,
      exists_or, exists_eq_left, found.mem_iff, popped_iff, left_iff, not_and, Nat.not_lt]
    constructor
    · rintro (closed | popped)
      · exact ⟨closed.1, fun present => absurd present closed.2⟩
      · exact ⟨invariant.stacked other popped.1, fun _ => popped.2⟩
    · intro seen
      by_cases present : other ∈ search.stack
      · exact .inr ⟨present, seen.2 present⟩
      · exact .inl ⟨seen.1, present⟩

end Root

end ComponentSearch

end StorageSchema
