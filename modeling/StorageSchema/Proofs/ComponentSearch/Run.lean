/-
This file shows that a search for components takes a round for each node and edge, looks up nothing
that is not there, and finds the strong components of the graph.
-/
import Mathlib.Algebra.BigOperators.Group.Finset.Basic
import Mathlib.Algebra.Order.BigOperators.Group.Finset
import StorageSchema.Proofs.ComponentSearch.Completion

namespace StorageSchema

open Relation (ReflTransGen)
open Finset (range)

namespace ComponentSearch

variable {edges : Array (List Nat)} {search : ComponentSearch} {path rest : List (Nat × Nat)}
  {pending : Option Nat} {node place : Nat}

/-! ### The cost of a search -/

instance (search : ComponentSearch) (node : Nat) : Decidable (search.IsSeen node) :=
  decidable_of_iff (search.index[node]?.join.isSome) (by
    rw [IsSeen, Option.isSome_iff_exists]
    simp only [Option.join_eq_some_iff])

/-- A node has so many edges. -/
def degree (edges : Array (List Nat)) (node : Nat) : Nat := (edges[node]?.getD []).length

/-- A node on the path costs a round for each edge that is left, and one to be finished. -/
def pathCost (edges : Array (List Nat)) (path : List (Nat × Nat)) : Nat :=
  path.foldr (fun entry rounds => degree edges entry.1 - entry.2 + 1 + rounds) 0

theorem pathCost_cons (edges : Array (List Nat)) (entry : Nat × Nat) (path : List (Nat × Nat)) :
    pathCost edges (entry :: path) =
      degree edges entry.1 - entry.2 + 1 + pathCost edges path :=
  rfl

/-- A node that has not been seen costs a round for each edge, and one to be finished. -/
def unseenCost (edges : Array (List Nat)) (search : ComponentSearch) : Nat :=
  ∑ node ∈ range edges.size, if search.IsSeen node then 0 else degree edges node + 1

/-- The cost of a search is the number of rounds that it needs at most. -/
def cost (edges : Array (List Nat)) (search : ComponentSearch) (path : List (Nat × Nat)) : Nat :=
  pathCost edges path + unseenCost edges search

theorem roundBound_eq (edges : Array (List Nat)) :
    roundBound edges = ∑ node ∈ range edges.size, (degree edges node + 1) := by
  obtain ⟨lists⟩ := edges
  change lists.foldr _ 0 = ∑ node ∈ range lists.length, _
  induction lists with
  | nil => rfl
  | cons first others inductionHypothesis =>
      have later (node : Nat) :
          degree ⟨first :: others⟩ (node + 1) = degree ⟨others⟩ node := by
        simp [degree]
      have now : degree ⟨first :: others⟩ 0 = first.length := by simp [degree]
      rw [List.length_cons, Finset.sum_range_succ', now]
      simp only [later]
      rw [← inductionHypothesis, List.foldr_cons]
      exact Nat.add_comm _ _

theorem unseenCost_le (edges : Array (List Nat)) (search : ComponentSearch) :
    unseenCost edges search ≤ roundBound edges := by
  rw [roundBound_eq]
  apply Finset.sum_le_sum
  intro node _
  split
  · exact Nat.zero_le _
  · exact Nat.le_refl _

theorem unseenCost_congr {other : ComponentSearch} (same : ∀ node, other.IsSeen node ↔
    search.IsSeen node) : unseenCost edges other = unseenCost edges search := by
  unfold unseenCost
  simp only [same]

/-- The cost of a node is put on the path when it is discovered. -/
theorem cost_discovered (fits : search.Fits edges.size) (inside : node < edges.size)
    (unseen : ¬ search.IsSeen node) (path : List (Nat × Nat)) :
    cost edges (search.discovered node) ((node, 0) :: path) = cost edges search path := by
  have seen_iff := isSeen_discovered_iff fits inside
  have isNode : node ∈ range edges.size := Finset.mem_range.2 inside
  have others : ∀ other ∈ (range edges.size).erase node,
      (if (search.discovered node).IsSeen other then 0 else degree edges other + 1) =
        if search.IsSeen other then 0 else degree edges other + 1 := by
    intro other present
    have different : node ≠ other := (Finset.ne_of_mem_erase present).symm
    simp only [seen_iff, different, false_or]
  have after := Finset.add_sum_erase (range edges.size)
    (fun other => if (search.discovered node).IsSeen other then 0 else degree edges other + 1)
    isNode
  have before := Finset.add_sum_erase (range edges.size)
    (fun other => if search.IsSeen other then 0 else degree edges other + 1) isNode
  rw [Finset.sum_congr rfl others] at after
  simp only [(seen_iff node).2 (.inl rfl), if_true, unseen, if_false] at after before
  have added :
      pathCost edges ((node, 0) :: path) = degree edges node + 1 + pathCost edges path :=
    pathCost_cons edges (node, 0) path
  rw [cost, cost, unseenCost, unseenCost, ← after, ← before, added]
  omega

/-! ### Rounds -/

/-- The work does not matter to what holds along a path. -/
theorem Invariant.setWork (invariant : Invariant edges search path pending)
    (work : List (Nat × Nat)) : Invariant edges { search with work := work } path pending :=
  { invariant with fits := { invariant.fits with } }

theorem Found.setWork (found : Found edges search) (work : List (Nat × Nat)) :
    Found edges { search with work := work } :=
  { found with }

/-- The work may have a node on top of the path that is entered next. -/
def Enters (edges : Array (List Nat)) (search : ComponentSearch) (path : List (Nat × Nat))
    (node : Nat) : Prop :=
  search.work = (node, 0) :: path ∧ Invariant edges search path (some node) ∧
    ¬ search.IsSeen node ∧ node < edges.size ∧
    ∀ entry ∈ path.head?, NumberedEdge edges entry.1 node

/-- Between two rounds the work is a path on which each node has been begun, or it enters a node
from there. -/
structure Between (edges : Array (List Nat)) (search : ComponentSearch)
    (path : List (Nat × Nat)) : Prop where
  found : Found edges search
  begun : ∀ entry ∈ path, 0 < entry.2
  work : search.work = path ∧ Invariant edges search path none ∨
    ∃ node, Enters edges search path node

/-- In the middle of a round the last node of the path has been begun and taken off the work. -/
structure Begun (edges : Array (List Nat)) (search : ComponentSearch) (node place : Nat)
    (rest : List (Nat × Nat)) : Prop where
  found : Found edges search
  begun : ∀ entry ∈ rest, 0 < entry.2
  work : search.work = rest
  invariant : Invariant edges search ((node, place) :: rest) none

theorem Found.discovered (found : Found edges search) (fits : search.Fits edges.size)
    (inside : node < edges.size) (unseen : ¬ search.IsSeen node) :
    Found edges (search.discovered node) where
  strong := found.strong
  disjoint := found.disjoint
  mem_iff other := by
    change (∃ component ∈ search.components, other ∈ component) ↔
      (search.discovered node).IsSeen other ∧ other ∉ node :: search.stack
    rw [found.mem_iff, isSeen_discovered_iff fits inside, List.mem_cons, not_or]
    constructor
    · intro closed
      exact ⟨.inr closed.1, (ne_of_isSeen unseen closed.1).symm, closed.2⟩
    · rintro ⟨rfl | seen, different, absent⟩
      · exact absurd rfl different
      · exact ⟨seen, absent⟩

/-- A round begins with the node on top of the work. -/
theorem Between.begin (between : Between edges search path)
    (work : search.work = (node, place) :: rest) :
    ∃ next, begin? { search with work := rest } node place = some next ∧
      Begun edges next node place rest ∧
      cost edges next ((node, place) :: rest) = cost edges search path ∧
      next.IsSeen node ∧ ∀ other, search.IsSeen other → next.IsSeen other := by
  rcases between.work with ⟨onPath, invariant⟩ | ⟨top, onTop, invariant, unseen, inside, entered⟩
  · obtain rfl := onPath.symm.trans work
    have positive : 0 < place := between.begun (node, place) List.mem_cons_self
    refine ⟨{ search with work := rest }, ?_, ?_, rfl, ?_, fun other seen => seen⟩
    · rw [begin?, if_neg (Nat.ne_of_gt positive)]
    · exact ⟨between.found.setWork rest,
        fun entry present => between.begun entry (List.mem_cons_of_mem _ present), rfl,
        invariant.setWork rest⟩
    · exact invariant.stacked node invariant.head_stacked
  · obtain ⟨same, rfl⟩ := List.cons.inj (onTop.symm.trans work)
    obtain ⟨rfl, rfl⟩ := Prod.mk.inj same
    have fits := (invariant.setWork path).fits
    refine ⟨ComponentSearch.discovered { search with work := path } top, ?_, ?_, ?_, ?_, ?_⟩
    · rw [begin?, if_pos rfl]
      exact discover?_eq fits inside
    · exact ⟨(between.found.setWork path).discovered fits inside unseen, between.begun, rfl,
        (invariant.setWork path).discover inside unseen entered⟩
    · exact cost_discovered fits inside unseen path
    · exact (isSeen_discovered_iff fits inside top).2 (.inl rfl)
    · intro other seen
      exact (isSeen_discovered_iff fits inside other).2 (.inr seen)

/-- All edges lead to nodes that are listed. -/
def EdgesInside (edges : Array (List Nat)) : Prop :=
  ∀ node target, NumberedEdge edges node target → target < edges.size

section Advance

variable {targets : List Nat} {target : Nat}

theorem pathCost_step (listed : edges[node]? = some targets)
    (next : targets[place]? = some target) (rest : List (Nat × Nat)) :
    pathCost edges ((node, place + 1) :: rest) < pathCost edges ((node, place) :: rest) := by
  have inside : place < targets.length := (List.getElem?_eq_some_iff.1 next).1
  have counted : degree edges node = targets.length := by rw [degree, listed]; rfl
  rw [pathCost_cons, pathCost_cons, counted]
  omega

theorem follow?_of_unseen (fits : search.Fits edges.size) (inside : target < edges.size)
    (unseen : ¬ search.IsSeen target) :
    follow? search node target = some { search with work := (target, 0) :: search.work } := by
  unfold follow?
  rw [(fits.not_isSeen_iff inside).1 unseen]
  rfl

theorem follow?_of_stacked (fits : search.Fits edges.size) (inside : node < edges.size)
    (seen : search.IsSeen target) (marked : search.onStack[target]? = some true) :
    follow? search node target = some (search.lowered node (search.order target)) := by
  unfold follow?
  rw [seen.index_eq]
  change (do if ← search.onStack[target]? then _ else _) = _
  rw [marked]
  exact lower?_eq fits inside _

theorem follow?_of_left (seen : search.IsSeen target)
    (unmarked : search.onStack[target]? = some false) : follow? search node target = some search := by
  unfold follow?
  rw [seen.index_eq]
  change (do if ← search.onStack[target]? then _ else _) = _
  rw [unmarked]
  rfl

/-- What is not on the stack is marked so. -/
theorem Invariant.unmarked (invariant : Invariant edges search path pending)
    (inside : target < edges.size) (absent : target ∉ search.stack) :
    search.onStack[target]? = some false := by
  have bound : target < search.onStack.size := invariant.fits.onStack ▸ inside
  have notMarked := mt (invariant.onStack_iff target).1 absent
  rw [Array.getElem?_eq_getElem bound] at notMarked ⊢
  simpa using notMarked

/-- An edge is followed on the path, or enters its target. -/
theorem Begun.follow (begun : Begun edges search node place rest) (inside : EdgesInside edges)
    (listed : edges[node]? = some targets) (next : targets[place]? = some target) :
    ∃ after, follow? { search with work := (node, place + 1) :: search.work } node target =
        some after ∧
      Between edges after ((node, place + 1) :: rest) ∧ (∀ entry ∈ rest, entry ∈ after.work) ∧
      ∀ other, after.IsSeen other ↔ search.IsSeen other := by
  have isEdge : NumberedEdge edges node target := ⟨targets, listed, List.mem_of_getElem? next⟩
  have targetInside := inside node target isEdge
  have invariant := begun.invariant
  have fits := (invariant.setWork ((node, place + 1) :: rest)).fits
  have positive : ∀ entry ∈ (node, place + 1) :: rest, 0 < entry.2 := by
    intro entry present
    rcases List.mem_cons.1 present with rfl | earlier
    · exact Nat.succ_pos place
    · exact begun.begun entry earlier
  have kept : ∀ entry ∈ rest, entry ∈ (node, place + 1) :: rest :=
    fun entry present => List.mem_cons_of_mem _ present
  rw [begun.work]
  by_cases seen : search.IsSeen target
  · by_cases isStacked : target ∈ search.stack
    · -- The low link is lowered before the edge counts as followed.
      have nodeInside := invariant.lt_size invariant.head_stacked
      have lowered := invariant.lower invariant.head_stacked isStacked (.single isEdge)
      have bound : (search.lowered node (search.order target)).low node ≤ search.order target := by
        rw [low_lowered invariant.fits nodeInside, if_pos rfl]
        exact Nat.min_le_right _ _
      have followed := (lowered.follow listed next fun _ => bound).resolve rfl seen
      have marked := (invariant.onStack_iff target).2 isStacked
      exact ⟨_, follow?_of_stacked fits nodeInside seen marked,
        ⟨{ begun.found with }, positive, .inl ⟨rfl, followed.setWork _⟩⟩, kept, fun _ => Iff.rfl⟩
    · have followed :=
        (invariant.follow listed next fun present => absurd present isStacked).resolve rfl seen
      exact ⟨_, follow?_of_left seen (invariant.unmarked targetInside isStacked),
        ⟨begun.found.setWork _, positive, .inl ⟨rfl, followed.setWork _⟩⟩, kept, fun _ => Iff.rfl⟩
  · have followed := invariant.follow listed next
      fun present => absurd (invariant.stacked target present) seen
    refine ⟨_, follow?_of_unseen fits targetInside seen, ⟨begun.found.setWork _, positive,
      .inr ⟨target, rfl, followed.setWork _, seen, targetInside, ?_⟩⟩, ?_, fun _ => Iff.rfl⟩
    · intro entry isHead
      obtain rfl := Option.some.inj isHead
      exact isEdge
    · exact fun entry present => List.mem_cons_of_mem _ (kept entry present)

/-- A low link that is passed on lowers that of the node before it on the path. -/
theorem passOn?_eq {parent spot : Nat} (fits : search.Fits edges.size)
    (work : search.work = (parent, spot) :: rest) (inside : node < edges.size)
    (parentInside : parent < edges.size) :
    search.passOn? node = some (search.lowered parent (search.low node)) := by
  unfold passOn?
  rw [work]
  change (search.lowlink[node]?).bind (search.lower? parent) = _
  rw [fits.lowlink_eq inside]
  exact lower?_eq fits parentInside _

theorem finish?_eq (fits : search.Fits edges.size) (seen : search.IsSeen node) :
    search.finish? node =
      (if search.low node = search.order node then search.complete? node else some search).bind
        fun closed => closed.passOn? node := by
  unfold finish?
  rw [fits.lowlink_eq (seen.lt fits), seen.index_eq]
  simp only [Option.bind_eq_bind, Option.bind_some, Option.some.injEq]
  split <;> rfl

/-- A root completes its component, and its low link changes nothing below. -/
theorem Begun.finish_root (begun : Begun edges search node place rest)
    (listed : edges[node]? = some targets) (isLast : targets[place]? = none)
    (isRoot : search.low node = search.order node) :
    ∃ after, search.finish? node = some after ∧ Between edges after rest ∧ after.work = rest ∧
      ∀ other, after.IsSeen other ↔ search.IsSeen other := by
  have invariant := begun.invariant
  have isStacked := invariant.head_stacked
  obtain ⟨above, left, stack, absent⟩ := List.eq_append_cons_of_mem isStacked
  have completed := invariant.complete listed isLast isRoot stack
  have found := invariant.found_completed listed isLast isRoot stack begun.found
  have popped : ∀ other ∈ above ++ [node], other < edges.size := by
    intro other present
    exact invariant.lt_size ((invariant.mem_popped_iff stack other).1 present).1
  refine ⟨search.completed (above ++ [node]) left, ?_,
    ⟨found, begun.begun, .inl ⟨begun.work, completed⟩⟩, begun.work, fun other => Iff.rfl⟩
  rw [finish?_eq invariant.fits (invariant.stacked node isStacked), if_pos isRoot,
    complete?_eq invariant.fits stack absent popped, Option.bind_some]
  cases rest with
  | nil =>
      unfold passOn?
      rw [show (search.completed (above ++ [node]) left).work = [] from begun.work]
  | cons parent others =>
      have parentStacked := invariant.mem_stack (List.mem_cons_of_mem _ List.mem_cons_self)
      have parentInside := invariant.lt_size parentStacked
      have notLess : search.low parent.1 ≤ search.low node := by
        have less := invariant.order_lt_head List.mem_cons_self
        have own := invariant.low_le parent.1 parentStacked
        omega
      rw [passOn?_eq completed.fits begun.work (invariant.lt_size isStacked) parentInside]
      exact congrArg some (lowered_eq_self completed.fits parentInside notLess)

/-- Another node leaves its low link to the node before it, which is there. -/
theorem Begun.finish_other (begun : Begun edges search node place rest)
    (listed : edges[node]? = some targets) (isLast : targets[place]? = none)
    (noRoot : search.low node ≠ search.order node) :
    ∃ after, search.finish? node = some after ∧ Between edges after rest ∧ after.work = rest ∧
      ∀ other, after.IsSeen other ↔ search.IsSeen other := by
  have invariant := begun.invariant
  have isStacked := invariant.head_stacked
  have isLow : search.low node < search.order node :=
    Nat.lt_of_le_of_ne (invariant.low_le node isStacked) noRoot
  obtain ⟨target, targetStacked, equal, leads⟩ := invariant.low_leads node isStacked
  cases rest with
  | nil =>
      obtain ⟨upper, onPath, notAbove⟩ := invariant.rooted target targetStacked
      obtain rfl := List.mem_singleton.1 onPath
      omega
  | cons parent others =>
      have parentOnPath : parent.1 ∈ ((node, place) :: parent :: others).map Prod.fst :=
        List.mem_cons_of_mem _ List.mem_cons_self
      have parentStacked := invariant.mem_stack parentOnPath
      have parentInside := invariant.lt_size parentStacked
      have parentLess := invariant.order_lt_head List.mem_cons_self
      have toNode := invariant.leads parent.1 parentOnPath node isStacked (Nat.le_of_lt parentLess)
      have lowered := invariant.lower parentStacked targetStacked (toNode.trans leads)
      rw [equal] at lowered
      have different : parent.1 ≠ node := by
        intro same
        rw [same] at parentLess
        exact Nat.lt_irrefl _ parentLess
      have low_eq := low_lowered invariant.fits parentInside (search.low node)
      have left := lowered.leave listed isLast (by
        rw [low_eq, if_neg different]
        exact isLow) (by
        rw [low_eq, low_eq, if_pos rfl, if_neg different]
        exact Nat.min_le_right _ _)
      refine ⟨search.lowered parent.1 (search.low node), ?_,
        ⟨{ begun.found with }, begun.begun, .inl ⟨begun.work, left⟩⟩, begun.work,
        fun other => Iff.rfl⟩
      rw [finish?_eq invariant.fits (invariant.stacked node isStacked), if_neg noRoot,
        Option.bind_some]
      exact passOn?_eq invariant.fits begun.work (invariant.lt_size isStacked) parentInside

/-- A round ends between two rounds, and takes from the cost of the search. -/
theorem Begun.advance (begun : Begun edges search node place rest) (inside : EdgesInside edges) :
    ∃ after left, search.advance? edges node place = some after ∧ Between edges after left ∧
      cost edges after left < cost edges search ((node, place) :: rest) ∧
      (∀ entry ∈ rest, entry ∈ after.work) ∧
      ∀ other, after.IsSeen other ↔ search.IsSeen other := by
  have isNode := begun.invariant.lt_size begun.invariant.head_stacked
  have listed : edges[node]? = some edges[node] := Array.getElem?_eq_getElem isNode
  unfold advance?
  rw [listed]
  simp only [Option.bind_eq_bind, Option.bind_some]
  cases next : edges[node][place]? with
  | some target =>
      obtain ⟨after, followed, between, kept, same⟩ := begun.follow inside listed next
      refine ⟨after, _, followed, between, ?_, kept, same⟩
      rw [cost, cost, unseenCost_congr same]
      exact Nat.add_lt_add_right (pathCost_step listed next rest) _
  | none =>
      have finished : ∃ after, search.finish? node = some after ∧ Between edges after rest ∧
          after.work = rest ∧ ∀ other, after.IsSeen other ↔ search.IsSeen other := by
        by_cases isRoot : search.low node = search.order node
        · exact begun.finish_root listed next isRoot
        · exact begun.finish_other listed next isRoot
      obtain ⟨after, finishes, between, work, same⟩ := finished
      refine ⟨after, rest, finishes, between, ?_, fun entry present => work ▸ present, same⟩
      rw [cost, cost, unseenCost_congr same, pathCost_cons]
      omega

end Advance

/-! ### Runs -/

/-- A search that has ended has seen the nodes of its work, and has nothing left on its stack. -/
structure Ended (edges : Array (List Nat)) (search after : ComponentSearch) : Prop where
  work : after.work = []
  found : Found edges after
  invariant : Invariant edges after [] none
  seen : ∀ node, search.IsSeen node → after.IsSeen node
  entered : ∀ entry ∈ search.work, after.IsSeen entry.1

/-- Without work a search has ended. -/
theorem Between.ended (between : Between edges search path) (work : search.work = []) :
    Ended edges search search := by
  rcases between.work with ⟨onPath, invariant⟩ | ⟨top, onTop, -⟩
  · obtain rfl := onPath.symm.trans work
    refine ⟨work, between.found, invariant, fun node seen => seen, ?_⟩
    rw [work]
    simp
  · cases work.symm.trans onTop

theorem run?_nil (rounds : Nat) (work : search.work = []) :
    run? edges rounds search = some search := by
  cases rounds <;> simp only [run?, work]

theorem run?_cons (rounds : Nat) (work : search.work = (node, place) :: rest) :
    run? edges (rounds + 1) search =
      (begin? { search with work := rest } node place).bind fun begun =>
        (begun.advance? edges node place).bind (run? edges rounds) := by
  rw [run?.eq_def]
  simp only [work, Option.bind_eq_bind]

/-- A search that is allowed the rounds that it costs comes to its end. -/
theorem Between.run (inside : EdgesInside edges) {rounds : Nat}
    (between : Between edges search path) (enough : cost edges search path ≤ rounds) :
    ∃ after, run? edges rounds search = some after ∧ Ended edges search after := by
  induction rounds generalizing search path with
  | zero =>
      cases work : search.work with
      | nil => 
          exact ⟨search, run?_nil 0 work, between.ended work⟩
      | cons entry rest =>
          obtain ⟨next, -, -, same, -⟩ := between.begin work
          rw [cost, pathCost_cons] at same
          omega
  | succ rounds inductionHypothesis =>
      cases work : search.work with
      | nil => exact ⟨search, run?_nil _ work, between.ended work⟩
      | cons entry rest =>
          obtain ⟨begun, begins, isBegun, same, nodeSeen, seen⟩ := between.begin work
          obtain ⟨next, left, advances, nextBetween, less, kept, nextSeen⟩ :=
            isBegun.advance inside
          obtain ⟨after, runs, ended⟩ := inductionHypothesis nextBetween (by omega)
          refine ⟨after, ?_, ended.work, ended.found, ended.invariant, ?_, ?_⟩
          · rw [run?_cons rounds work, begins, Option.bind_some, advances, Option.bind_some, runs]
          · intro node isSeen
            exact ended.seen node ((nextSeen node).2 (seen node isSeen))
          · intro other present
            rw [work] at present
            rcases List.mem_cons.1 present with rfl | earlier
            · exact ended.seen _ ((nextSeen _).2 nodeSeen)
            · exact ended.entered other (kept other earlier)

/-- Between two visits nothing is left to do. -/
structure Rests (edges : Array (List Nat)) (search : ComponentSearch) : Prop where
  work : search.work = []
  found : Found edges search
  invariant : Invariant edges search [] none

theorem Rests.stack_eq_nil (rests : Rests edges search) : search.stack = [] := by
  rw [List.eq_nil_iff_forall_not_mem]
  intro node isStacked
  obtain ⟨upper, onPath, -⟩ := rests.invariant.rooted node isStacked
  cases onPath

/-- A visit ends with the start seen, and with all that has been seen before. -/
theorem Rests.visit (rests : Rests edges search) (inside : EdgesInside edges) {start : Nat}
    (isNode : start < edges.size) :
    ∃ after, visit? edges search start = some after ∧ Rests edges after ∧ after.IsSeen start ∧
      ∀ node, search.IsSeen node → after.IsSeen node := by
  unfold visit?
  by_cases seen : search.IsSeen start
  · refine ⟨search, ?_, rests, seen, fun node isSeen => isSeen⟩
    rw [seen.index_eq]
    rfl
  · have enters : Between edges { search with work := (start, 0) :: search.work } [] := by
      refine ⟨rests.found.setWork _, by simp, .inr ⟨start, ?_, ?_, seen, isNode, by simp⟩⟩
      · change (start, 0) :: search.work = _
        rw [rests.work]
      · exact (rests.invariant.weaken rfl start).setWork _
    have enough : cost edges { search with work := (start, 0) :: search.work } [] ≤
        roundBound edges := by
      rw [cost, pathCost, List.foldr_nil, Nat.zero_add]
      exact unseenCost_le edges _
    obtain ⟨after, runs, ended⟩ := enters.run inside enough
    refine ⟨after, ?_, ⟨ended.work, ended.found, ended.invariant⟩, ?_, ended.seen⟩
    · rw [(rests.invariant.fits.not_isSeen_iff isNode).1 seen]
      exact runs
    · exact ended.entered (start, 0) List.mem_cons_self

/-- Visits to several nodes end with all of them seen. -/
theorem Rests.visitAll (inside : EdgesInside edges) (starts : List Nat)
    (areNodes : ∀ start ∈ starts, start < edges.size) (rests : Rests edges search) :
    ∃ after, starts.foldlM (visit? edges) search = some after ∧ Rests edges after ∧
      (∀ start ∈ starts, after.IsSeen start) ∧
      ∀ node, search.IsSeen node → after.IsSeen node := by
  induction starts generalizing search with
  | nil => exact ⟨search, rfl, rests, by simp, fun node seen => seen⟩
  | cons start others inductionHypothesis =>
      obtain ⟨next, visits, nextRests, startSeen, seen⟩ :=
        rests.visit inside (areNodes start List.mem_cons_self)
      obtain ⟨after, further, afterRests, othersSeen, afterSeen⟩ := inductionHypothesis
        (fun other present => areNodes other (List.mem_cons_of_mem start present)) nextRests
      refine ⟨after, ?_, afterRests, ?_, fun node isSeen => afterSeen node (seen node isSeen)⟩
      · rw [List.foldlM_cons, visits]
        exact further
      · intro other present
        rcases List.mem_cons.1 present with rfl | later
        · exact afterSeen other startSeen
        · exact othersSeen other later

end ComponentSearch

/-- The search finds every strong component of a graph once. -/
theorem exists_stronglyConnectedComponents {edges : Array (List Nat)}
    (inside : ComponentSearch.EdgesInside edges) :
    ∃ components, stronglyConnectedComponents? edges = some components ∧
      (∀ component ∈ components, StrongComponent edges component) ∧
      components.Pairwise List.Disjoint ∧
      ∀ node, (∃ component ∈ components, node ∈ component) ↔ node < edges.size := by
  have start : ComponentSearch.Rests edges (ComponentSearch.empty edges.size) :=
    ⟨rfl, ComponentSearch.found_empty edges, ComponentSearch.invariant_empty edges⟩
  obtain ⟨after, visits, rests, seen, -⟩ := start.visitAll inside (List.range edges.size)
    (by simp)
  refine ⟨after.components, ?_, rests.found.strong, rests.found.disjoint, ?_⟩
  · unfold stronglyConnectedComponents?
    rw [visits]
    rfl
  · intro node
    rw [rests.found.mem_iff, rests.stack_eq_nil]
    constructor
    · intro isSeen
      exact isSeen.1.lt rests.invariant.fits
    · intro isNode
      exact ⟨seen node (List.mem_range.2 isNode), List.not_mem_nil⟩

end StorageSchema
