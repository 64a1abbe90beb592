/-
This file states what holds between the rounds of a search for components, and shows that it is kept
where a node is discovered, an edge is followed, a low link is lowered, or a node is left that stays
on the stack.
-/
import Mathlib.Data.List.Nodup
import Mathlib.Logic.Relation
import StorageSchema.Proofs.ComponentSearch.State

namespace StorageSchema

open Relation (ReflTransGen)

/-- An edge leads from a number to one of its targets. -/
def NumberedEdge (edges : Array (List Nat)) (node target : Nat) : Prop :=
  ∃ targets, edges[node]? = some targets ∧ target ∈ targets

/-- A strong component holds exactly the nodes that one of its nodes leads to and is led to by. -/
structure StrongComponent (edges : Array (List Nat)) (component : List Nat) : Prop where
  nonempty : component ≠ []
  nodup : component.Nodup
  strong : ∀ node ∈ component, ∀ other, other ∈ component ↔
    ReflTransGen (NumberedEdge edges) node other ∧ ReflTransGen (NumberedEdge edges) other node

namespace ComponentSearch

/-- An edge has been followed if its node is not on the path, or is there at a later place. -/
def Followed (edges : Array (List Nat)) (path : List (Nat × Nat)) (node target : Nat) : Prop :=
  ∃ targets place, edges[node]? = some targets ∧ targets[place]? = some target ∧
    ∀ next, (node, next) ∈ path → place < next

/-- This holds of a search on its way along a path, which has its last node first. The path is part
of the stack, and its first node is the lowest there. What has been seen and taken off the stack
leads nowhere else. The low link of a stacked node is the index of one that it leads to, and it is
its own index only on the path. No followed edge leads from a stacked node to an index that is less
than all low links from there on. A single target may be pending, which is not seen yet. -/
structure Invariant (edges : Array (List Nat)) (search : ComponentSearch)
    (path : List (Nat × Nat)) (pending : Option Nat) : Prop where
  fits : search.Fits edges.size
  onStack_iff : ∀ node, search.onStack[node]? = some true ↔ node ∈ search.stack
  stacked : ∀ node ∈ search.stack, search.IsSeen node
  order_lt : ∀ node, search.IsSeen node → search.order node < search.nextIndex
  descending : search.stack.Pairwise fun later earlier => search.order earlier < search.order later
  sublist : (path.map Prod.fst).Sublist search.stack
  rooted : ∀ node ∈ search.stack, ∃ upper ∈ path.map Prod.fst,
    search.order upper ≤ search.order node
  followed : ∀ node target, search.IsSeen node → Followed edges path node target →
    search.IsSeen target ∨ pending = some target
  closed : ∀ node target, search.IsSeen node → node ∉ search.stack →
    NumberedEdge edges node target → search.IsSeen target ∧ target ∉ search.stack
  leads : ∀ upper ∈ path.map Prod.fst, ∀ node ∈ search.stack,
    search.order upper ≤ search.order node → ReflTransGen (NumberedEdge edges) upper node
  low_le : ∀ node ∈ search.stack, search.low node ≤ search.order node
  low_lt : ∀ node ∈ search.stack, node ∉ path.map Prod.fst → search.low node < search.order node
  low_leads : ∀ node ∈ search.stack, ∃ other ∈ search.stack,
    search.order other = search.low node ∧ ReflTransGen (NumberedEdge edges) node other
  low_bounds : ∀ upper ∈ path.map Prod.fst, ∀ node ∈ search.stack,
    search.order upper ≤ search.order node → ∀ target ∈ search.stack,
    Followed edges path node target → ∃ lower ∈ path.map Prod.fst,
      search.order upper ≤ search.order lower ∧ search.low lower ≤ search.order target

variable {edges : Array (List Nat)} {search : ComponentSearch} {path rest : List (Nat × Nat)}
  {pending : Option Nat} {node target place : Nat}

/-- Nothing has been seen in the beginning. -/
theorem invariant_empty (edges : Array (List Nat)) :
    Invariant edges (empty edges.size) [] none where
  fits := fits_empty edges.size
  onStack_iff node := by simp [empty, Array.getElem?_replicate]
  stacked := by simp [empty]
  order_lt node seen := absurd seen (not_isSeen_empty _ node)
  descending := by simp [empty]
  sublist := by simp
  rooted := by simp [empty]
  followed node _ seen := absurd seen (not_isSeen_empty _ node)
  closed node _ seen := absurd seen (not_isSeen_empty _ node)
  leads := by simp
  low_le := by simp [empty]
  low_lt := by simp [empty]
  low_leads := by simp [empty]
  low_bounds := by simp

namespace Invariant

variable (invariant : Invariant edges search path pending)
include invariant

theorem order_injective {first second : Nat} (firstStacked : first ∈ search.stack)
    (secondStacked : second ∈ search.stack) (same : search.order first = search.order second) :
    first = second := by
  have distinct : (search.stack.map search.order).Nodup := by
    rw [List.Nodup, List.pairwise_map]
    exact invariant.descending.imp fun less => (Nat.ne_of_lt less).symm
  exact List.inj_on_of_nodup_map distinct firstStacked secondStacked same

theorem mem_stack (onPath : node ∈ path.map Prod.fst) : node ∈ search.stack :=
  invariant.sublist.subset onPath

theorem lt_size (isStacked : node ∈ search.stack) : node < edges.size :=
  (invariant.stacked node isStacked).lt invariant.fits

theorem order_lt_nextIndex (isStacked : node ∈ search.stack) :
    search.order node < search.nextIndex :=
  invariant.order_lt node (invariant.stacked node isStacked)

/-- Any target may be pending if none has to be. -/
theorem weaken (nothing : pending = none) (target : Nat) :
    Invariant edges search path (some target) where
  __ := invariant
  followed node next seen edge := by
    rcases invariant.followed node next seen edge with known | isPending
    · exact .inl known
    · rw [nothing] at isPending
      cases isPending

/-- A target that is seen is not pending. -/
theorem resolve (isPending : pending = some target) (seen : search.IsSeen target) :
    Invariant edges search path none where
  __ := invariant
  followed node next seenNode edge := by
    rcases invariant.followed node next seenNode edge with known | isNext
    · exact .inl known
    · obtain rfl : target = next := Option.some.inj (isPending.symm.trans isNext)
      exact .inl seen

end Invariant

/-- The last node of the path has the greatest index on it. -/
theorem Invariant.order_lt_head
    (invariant : Invariant edges search ((node, place) :: rest) pending) {upper : Nat}
    (earlier : upper ∈ rest.map Prod.fst) : search.order upper < search.order node :=
  List.rel_of_pairwise_cons (invariant.descending.sublist invariant.sublist) earlier

theorem Invariant.head_stacked
    (invariant : Invariant edges search ((node, place) :: rest) pending) :
    node ∈ search.stack :=
  invariant.mem_stack List.mem_cons_self

theorem Invariant.order_le_head
    (invariant : Invariant edges search ((node, place) :: rest) pending) {upper : Nat}
    (onPath : upper ∈ ((node, place) :: rest).map Prod.fst) :
    search.order upper ≤ search.order node := by
  rcases List.mem_cons.1 onPath with rfl | earlier
  · exact Nat.le_refl _
  · exact Nat.le_of_lt (invariant.order_lt_head earlier)

/-! ### Following an edge -/

/-- One step along the edges of a node follows a single edge more. -/
theorem Followed.of_step {targets : List Nat} (listed : edges[node]? = some targets)
    (next : targets[place]? = some target) {first second : Nat}
    (edge : Followed edges ((node, place + 1) :: rest) first second) :
    Followed edges ((node, place) :: rest) first second ∨ first = node ∧ second = target := by
  obtain ⟨others, spot, found, chosen, bound⟩ := edge
  by_cases isStep : first = node ∧ spot = place
  · right
    obtain ⟨rfl, rfl⟩ := isStep
    obtain rfl : targets = others := Option.some.inj (listed.symm.trans found)
    exact ⟨rfl, Option.some.inj (chosen.symm.trans next)⟩
  · left
    refine ⟨others, spot, found, chosen, ?_⟩
    intro after onPath
    rcases List.mem_cons.1 onPath with same | earlier
    · obtain ⟨rfl, rfl⟩ := Prod.mk.inj same
      have before := bound (after + 1) List.mem_cons_self
      have different : spot ≠ after := fun equal => isStep ⟨rfl, equal⟩
      omega
    · exact bound after (List.mem_cons_of_mem _ earlier)

/-- An edge that is followed may lead to a node that is not seen yet, and the low link must be no
greater than the index of a stacked one. -/
theorem Invariant.follow (invariant : Invariant edges search ((node, place) :: rest) none)
    {targets : List Nat} (listed : edges[node]? = some targets)
    (next : targets[place]? = some target)
    (isBound : target ∈ search.stack → search.low node ≤ search.order target) :
    Invariant edges search ((node, place + 1) :: rest) (some target) where
  __ := invariant
  followed first second seen edge := by
    rcases edge.of_step listed next with earlier | ⟨-, rfl⟩
    · exact .inl ((invariant.followed first second seen earlier).resolve_right nofun)
    · exact .inr rfl
  low_bounds upper onPath lower isStacked above other otherStacked edge := by
    rcases edge.of_step listed next with earlier | ⟨-, rfl⟩
    · exact invariant.low_bounds upper onPath lower isStacked above other otherStacked earlier
    · exact ⟨node, List.mem_cons_self, invariant.order_le_head onPath, isBound otherStacked⟩

/-! ### Lowering a low link -/

/-- A low link may be lowered to the index of a stacked node that its own node leads to. -/
theorem Invariant.lower (invariant : Invariant edges search path pending)
    (isStacked : node ∈ search.stack) (targetStacked : target ∈ search.stack)
    (leads : ReflTransGen (NumberedEdge edges) node target) :
    Invariant edges (search.lowered node (search.order target)) path pending := by
  have inside := invariant.lt_size isStacked
  have low_eq := low_lowered invariant.fits inside (search.order target)
  have low_le (other : Nat) :
      (search.lowered node (search.order target)).low other ≤ search.low other := by
    rw [low_eq]
    split
    · next same => exact same ▸ Nat.min_le_left _ _
    · exact Nat.le_refl _
  exact {
    __ := invariant
    fits := fits_lowered invariant.fits node _
    low_le := fun other present => Nat.le_trans (low_le other) (invariant.low_le other present)
    low_lt := fun other present absent =>
      Nat.lt_of_le_of_lt (low_le other) (invariant.low_lt other present absent)
    low_leads := by
      intro other present
      rw [low_eq]
      split
      · next same =>
          subst same
          rcases Nat.le_total (search.low node) (search.order target) with less | greater
          · rw [Nat.min_eq_left less]
            exact invariant.low_leads node present
          · rw [Nat.min_eq_right greater]
            exact ⟨target, targetStacked, rfl, leads⟩
      · exact invariant.low_leads other present
    low_bounds := by
      intro upper onPath other present above next nextStacked edge
      obtain ⟨lower, lowerOnPath, notAbove, bound⟩ :=
        invariant.low_bounds upper onPath other present above next nextStacked edge
      exact ⟨lower, lowerOnPath, notAbove, Nat.le_trans (low_le lower) bound⟩ }

/-! ### Discovering a node -/

/-- A node that has just been discovered has no followed edges. -/
theorem Followed.of_discovered {first second : Nat}
    (edge : Followed edges ((node, 0) :: path) first second) :
    first ≠ node ∧ Followed edges path first second := by
  obtain ⟨targets, spot, found, chosen, bound⟩ := edge
  refine ⟨?_, targets, spot, found, chosen, ?_⟩
  · rintro rfl
    exact Nat.not_lt_zero spot (bound 0 List.mem_cons_self)
  · intro next onPath
    exact bound next (List.mem_cons_of_mem _ onPath)

theorem ne_of_isSeen (unseen : ¬ search.IsSeen node) {other : Nat} (seen : search.IsSeen other) :
    node ≠ other := by
  rintro rfl
  exact unseen seen

section Discovered

variable (invariant : Invariant edges search path (some node)) (inside : node < edges.size)
  (unseen : ¬ search.IsSeen node)
include invariant inside

theorem Invariant.order_discovered_self :
    (search.discovered node).order node = search.nextIndex := by
  rw [order_discovered invariant.fits inside, if_pos rfl]

theorem Invariant.low_discovered_self :
    (search.discovered node).low node = (search.discovered node).order node := by
  rw [low_discovered invariant.fits inside, if_pos rfl, invariant.order_discovered_self inside]

include unseen

theorem Invariant.order_discovered_of_isSeen {other : Nat} (seen : search.IsSeen other) :
    (search.discovered node).order other = search.order other := by
  rw [order_discovered invariant.fits inside, if_neg (ne_of_isSeen unseen seen)]

theorem Invariant.order_discovered_of_mem {other : Nat} (present : other ∈ search.stack) :
    (search.discovered node).order other = search.order other :=
  invariant.order_discovered_of_isSeen inside unseen (invariant.stacked other present)

theorem Invariant.low_discovered_of_mem {other : Nat} (present : other ∈ search.stack) :
    (search.discovered node).low other = search.low other := by
  rw [low_discovered invariant.fits inside,
    if_neg (ne_of_isSeen unseen (invariant.stacked other present))]

/-- The discovered node is above all that were stacked before. -/
theorem Invariant.order_lt_discovered {other : Nat} (present : other ∈ search.stack) :
    (search.discovered node).order other < (search.discovered node).order node := by
  rw [invariant.order_discovered_of_mem inside unseen present,
    invariant.order_discovered_self inside]
  exact invariant.order_lt_nextIndex present

theorem Invariant.closed_discovered {first second : Nat}
    (seen : (search.discovered node).IsSeen first)
    (absent : first ∉ (search.discovered node).stack) (edge : NumberedEdge edges first second) :
    (search.discovered node).IsSeen second ∧ second ∉ (search.discovered node).stack := by
  have different : node ≠ first := fun same => absent (same ▸ List.mem_cons_self)
  have firstSeen :=
    ((isSeen_discovered_iff invariant.fits inside first).1 seen).resolve_left different
  have notStacked : first ∉ search.stack :=
    fun present => absent (List.mem_cons_of_mem node present)
  obtain ⟨secondSeen, secondAbsent⟩ := invariant.closed first second firstSeen notStacked edge
  refine ⟨(isSeen_discovered_iff invariant.fits inside second).2 (.inr secondSeen), ?_⟩
  rw [discovered, List.mem_cons, not_or]
  exact ⟨(ne_of_isSeen unseen secondSeen).symm, secondAbsent⟩

/-- Every node of the path leads to its end and on to the discovered node. -/
theorem Invariant.leads_discovered (entered : ∀ entry ∈ path.head?, NumberedEdge edges entry.1 node)
    {upper other : Nat} (onPath : upper ∈ ((node, 0) :: path).map Prod.fst)
    (present : other ∈ (search.discovered node).stack)
    (notAbove : (search.discovered node).order upper ≤ (search.discovered node).order other) :
    ReflTransGen (NumberedEdge edges) upper other := by
  rcases List.mem_cons.1 onPath with rfl | upperEarlier
  · rcases List.mem_cons.1 present with rfl | earlier
    · exact .refl
    · exact absurd notAbove (Nat.not_le.2 (invariant.order_lt_discovered inside unseen earlier))
  · rcases List.mem_cons.1 present with rfl | earlier
    · cases path with
      | nil => cases upperEarlier
      | cons entry rest =>
          have toEnd := invariant.leads upper upperEarlier entry.1 invariant.head_stacked
            (invariant.order_le_head upperEarlier)
          exact toEnd.tail (entered entry rfl)
    · rw [invariant.order_discovered_of_mem inside unseen (invariant.mem_stack upperEarlier),
        invariant.order_discovered_of_mem inside unseen earlier] at notAbove
      exact invariant.leads upper upperEarlier other earlier notAbove

/-- The discovered node bounds the low links where a followed edge leads to it. -/
theorem Invariant.low_bounds_discovered {upper other next : Nat}
    (onPath : upper ∈ ((node, 0) :: path).map Prod.fst)
    (present : other ∈ (search.discovered node).stack)
    (notAbove : (search.discovered node).order upper ≤ (search.discovered node).order other)
    (nextPresent : next ∈ (search.discovered node).stack)
    (edge : Followed edges ((node, 0) :: path) other next) :
    ∃ lower ∈ ((node, 0) :: path).map Prod.fst,
      (search.discovered node).order upper ≤ (search.discovered node).order lower ∧
      (search.discovered node).low lower ≤ (search.discovered node).order next := by
  obtain ⟨different, earlierEdge⟩ := edge.of_discovered
  have earlier := (List.mem_cons.1 present).resolve_left different
  rcases List.mem_cons.1 onPath with rfl | upperEarlier
  · exact absurd notAbove (Nat.not_le.2 (invariant.order_lt_discovered inside unseen earlier))
  · have upperStacked := invariant.mem_stack upperEarlier
    rcases List.mem_cons.1 nextPresent with rfl | nextEarlier
    · refine ⟨next, List.mem_cons_self, ?_, ?_⟩
      · exact Nat.le_of_lt (invariant.order_lt_discovered inside unseen upperStacked)
      · exact Nat.le_of_eq (invariant.low_discovered_self inside)
    · rw [invariant.order_discovered_of_mem inside unseen upperStacked,
        invariant.order_discovered_of_mem inside unseen earlier] at notAbove
      obtain ⟨lower, lowerOnPath, above, bound⟩ := invariant.low_bounds upper upperEarlier
        other earlier notAbove next nextEarlier earlierEdge
      have lowerStacked := invariant.mem_stack lowerOnPath
      refine ⟨lower, List.mem_cons_of_mem _ lowerOnPath, ?_, ?_⟩
      · rwa [invariant.order_discovered_of_mem inside unseen upperStacked,
          invariant.order_discovered_of_mem inside unseen lowerStacked]
      · rwa [invariant.order_discovered_of_mem inside unseen nextEarlier,
          invariant.low_discovered_of_mem inside unseen lowerStacked]

/-- The pending node is discovered as the new end of the path. -/
theorem Invariant.discover (entered : ∀ entry ∈ path.head?, NumberedEdge edges entry.1 node) :
    Invariant edges (search.discovered node) ((node, 0) :: path) none := by
  have order_eq {other : Nat} (present : other ∈ search.stack) :=
    invariant.order_discovered_of_mem inside unseen present
  have low_eq {other : Nat} (present : other ∈ search.stack) :=
    invariant.low_discovered_of_mem inside unseen present
  have seen_iff := isSeen_discovered_iff invariant.fits inside
  have low_node := invariant.low_discovered_self inside
  constructor
  case fits => exact fits_discovered invariant.fits node
  case onStack_iff =>
    intro other
    rw [onStack_discovered invariant.fits inside]
    change _ ↔ other ∈ node :: search.stack
    by_cases same : node = other
    · simp [same]
    · simp [same, Ne.symm same, invariant.onStack_iff]
  case stacked =>
    intro other present
    rw [seen_iff]
    rcases List.mem_cons.1 present with rfl | earlier
    · exact .inl rfl
    · exact .inr (invariant.stacked other earlier)
  case order_lt =>
    intro other seen
    change _ < search.nextIndex + 1
    rcases (seen_iff other).1 seen with rfl | earlier
    · rw [invariant.order_discovered_self inside]
      exact Nat.lt_succ_self _
    · rw [invariant.order_discovered_of_isSeen inside unseen earlier]
      exact Nat.lt_succ_of_lt (invariant.order_lt other earlier)
  case descending =>
    apply List.Pairwise.cons
    · exact fun other present => invariant.order_lt_discovered inside unseen present
    · refine invariant.descending.imp_of_mem ?_
      intro later earlier laterPresent earlierPresent less
      rwa [order_eq laterPresent, order_eq earlierPresent]
  case sublist => exact invariant.sublist.cons_cons node
  case rooted =>
    intro other present
    rcases List.mem_cons.1 present with rfl | earlier
    · exact ⟨other, List.mem_cons_self, Nat.le_refl _⟩
    · obtain ⟨upper, onPath, notAbove⟩ := invariant.rooted other earlier
      refine ⟨upper, List.mem_cons_of_mem _ onPath, ?_⟩
      rwa [order_eq earlier, order_eq (invariant.mem_stack onPath)]
  case followed =>
    intro first second seen edge
    obtain ⟨different, earlier⟩ := edge.of_discovered
    have firstSeen := ((seen_iff first).1 seen).resolve_left different.symm
    rw [seen_iff]
    rcases invariant.followed first second firstSeen earlier with known | isNode
    · exact .inl (.inr known)
    · exact .inl (.inl (Option.some.inj isNode))
  case closed =>
    exact fun first second seen absent edge =>
      invariant.closed_discovered inside unseen seen absent edge
  case leads =>
    exact fun upper onPath other present notAbove =>
      invariant.leads_discovered inside unseen entered onPath present notAbove
  case low_le =>
    intro other present
    rcases List.mem_cons.1 present with rfl | earlier
    · exact Nat.le_of_eq low_node
    · rw [order_eq earlier, low_eq earlier]
      exact invariant.low_le other earlier
  case low_lt =>
    intro other present absent
    have different : other ≠ node := fun same => absent (same ▸ List.mem_cons_self)
    have earlier := (List.mem_cons.1 present).resolve_left different
    rw [order_eq earlier, low_eq earlier]
    exact invariant.low_lt other earlier fun onPath => absent (List.mem_cons_of_mem _ onPath)
  case low_leads =>
    intro other present
    rcases List.mem_cons.1 present with rfl | earlier
    · exact ⟨other, List.mem_cons_self, low_node.symm, .refl⟩
    · obtain ⟨next, nextStacked, equal, leads⟩ := invariant.low_leads other earlier
      refine ⟨next, List.mem_cons_of_mem _ nextStacked, ?_, leads⟩
      rw [order_eq nextStacked, low_eq earlier, equal]
  case low_bounds =>
    exact fun upper onPath other present notAbove next nextPresent edge =>
      invariant.low_bounds_discovered inside unseen onPath present notAbove nextPresent edge

end Discovered

/-! ### Leaving a node that stays on the stack -/

/-- All edges of a node have been followed if no target stands at its place. -/
theorem Followed.of_left {targets : List Nat} (listed : edges[node]? = some targets)
    (isLast : targets[place]? = none) {first second : Nat}
    (edge : Followed edges rest first second) :
    Followed edges ((node, place) :: rest) first second := by
  obtain ⟨others, spot, found, chosen, bound⟩ := edge
  refine ⟨others, spot, found, chosen, ?_⟩
  intro after onPath
  rcases List.mem_cons.1 onPath with same | earlier
  · obtain ⟨rfl, rfl⟩ := Prod.mk.inj same
    obtain rfl : targets = others := Option.some.inj (listed.symm.trans found)
    have inside : spot < targets.length := (List.getElem?_eq_some_iff.1 chosen).1
    exact Nat.lt_of_lt_of_le inside (List.getElem?_eq_none_iff.1 isLast)
  · exact bound after earlier

/-- A node with a lowered low link is left to the node before it on the path, which has been lowered
as far. -/
theorem Invariant.leave {parent spot : Nat}
    (invariant : Invariant edges search ((node, place) :: (parent, spot) :: rest) none)
    {targets : List Nat} (listed : edges[node]? = some targets)
    (isLast : targets[place]? = none) (isLow : search.low node < search.order node)
    (passed : search.low parent ≤ search.low node) :
    Invariant edges search ((parent, spot) :: rest) none := by
  have parentLess : search.order parent < search.order node :=
    invariant.order_lt_head List.mem_cons_self
  have kept {upper : Nat}
      (onPath : upper ∈ ((node, place) :: (parent, spot) :: rest).map Prod.fst) :
      upper = node ∨ upper ∈ ((parent, spot) :: rest).map Prod.fst := List.mem_cons.1 onPath
  exact {
    __ := invariant
    sublist := (List.sublist_cons_self node _).trans invariant.sublist
    rooted := by
      intro other present
      obtain ⟨upper, onPath, notAbove⟩ := invariant.rooted other present
      rcases kept onPath with rfl | earlier
      · exact ⟨parent, List.mem_cons_self, Nat.le_trans (Nat.le_of_lt parentLess) notAbove⟩
      · exact ⟨upper, earlier, notAbove⟩
    followed := fun first second seen edge =>
      invariant.followed first second seen (edge.of_left listed isLast)
    leads := fun upper onPath => invariant.leads upper (List.mem_cons_of_mem _ onPath)
    low_lt := by
      intro other present absent
      by_cases same : other = node
      · exact same ▸ isLow
      · exact invariant.low_lt other present fun onPath => (kept onPath).elim same absent
    low_bounds := by
      intro upper onPath other present notAbove next nextStacked edge
      obtain ⟨lower, lowerOnPath, above, bound⟩ := invariant.low_bounds upper
        (List.mem_cons_of_mem _ onPath) other present notAbove next nextStacked
        (edge.of_left listed isLast)
      rcases kept lowerOnPath with rfl | earlier
      · refine ⟨parent, List.mem_cons_self, ?_, Nat.le_trans passed bound⟩
        rcases List.mem_cons.1 onPath with rfl | upperEarlier
        · exact Nat.le_refl _
        · have ordered := invariant.descending.sublist invariant.sublist
          exact Nat.le_of_lt (List.rel_of_pairwise_cons ordered.of_cons upperEarlier)
      · exact ⟨lower, earlier, above, bound⟩ }

end ComponentSearch

end StorageSchema
