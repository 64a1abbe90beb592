/-
This file says how each part of a search for components changes the tables of the search.
-/
import StorageSchema.ComponentSearch

namespace StorageSchema

theorem replace?_eq {Item : Type} {items : Array Item} {place : Nat} (inside : place < items.size)
    (item : Item) : replace? items place item = some (items.setIfInBounds place item) := by
  simp [replace?, Array.setIfInBounds, inside]

theorem getElem?_setIfInBounds_of_lt {Item : Type} {items : Array Item} {place : Nat}
    (inside : place < items.size) (item : Item) (other : Nat) :
    (items.setIfInBounds place item)[other]? =
      if place = other then some item else items[other]? := by
  rw [Array.getElem?_setIfInBounds, if_pos inside]

namespace ComponentSearch

variable {search : ComponentSearch} {count node other : Nat}

/-- A node is seen if it has an index. -/
def IsSeen (search : ComponentSearch) (node : Nat) : Prop :=
  ∃ number, search.index[node]? = some (some number)

/-- The order of a seen node is its index. -/
def order (search : ComponentSearch) (node : Nat) : Nat := search.index[node]?.join.getD 0

/-- The low link of a node is looked up. -/
def low (search : ComponentSearch) (node : Nat) : Nat := search.lowlink[node]?.getD 0

/-- A search fits a graph with so many nodes if every table has an entry for each of them. -/
structure Fits (search : ComponentSearch) (count : Nat) : Prop where
  index : search.index.size = count
  lowlink : search.lowlink.size = count
  onStack : search.onStack.size = count

theorem fits_empty (count : Nat) : (empty count).Fits count := by
  constructor <;> simp [empty]

theorem Fits.not_isSeen_iff (fits : search.Fits count) (inside : node < count) :
    ¬ search.IsSeen node ↔ search.index[node]? = some none := by
  have bound : node < search.index.size := fits.index ▸ inside
  rw [IsSeen, Array.getElem?_eq_getElem bound]
  cases search.index[node] <;> simp

theorem IsSeen.lt (seen : search.IsSeen node) (fits : search.Fits count) : node < count := by
  obtain ⟨number, found⟩ := seen
  rw [← fits.index]
  exact (Array.getElem?_eq_some_iff.1 found).1

theorem IsSeen.index_eq (seen : search.IsSeen node) :
    search.index[node]? = some (some (search.order node)) := by
  obtain ⟨number, found⟩ := seen
  simp [order, found]

theorem Fits.lowlink_eq (fits : search.Fits count) (inside : node < count) :
    search.lowlink[node]? = some (search.low node) := by
  have bound : node < search.lowlink.size := fits.lowlink ▸ inside
  simp [low, Array.getElem?_eq_getElem bound]

theorem not_isSeen_empty (count node : Nat) : ¬ (empty count).IsSeen node := by
  unfold IsSeen empty
  simp [Array.getElem?_replicate]

/-! ### A node that is discovered -/

/-- This is the search after the discovery of a node. -/
def discovered (search : ComponentSearch) (node : Nat) : ComponentSearch :=
  { search with
    nextIndex := search.nextIndex + 1
    index := search.index.setIfInBounds node (some search.nextIndex)
    lowlink := search.lowlink.setIfInBounds node search.nextIndex
    onStack := search.onStack.setIfInBounds node true
    stack := node :: search.stack }

section Discovered

variable (fits : search.Fits count) (inside : node < count)
include fits

theorem fits_discovered (node : Nat) : (search.discovered node).Fits count := by
  constructor
  · rw [discovered, Array.size_setIfInBounds, fits.index]
  · rw [discovered, Array.size_setIfInBounds, fits.lowlink]
  · rw [discovered, Array.size_setIfInBounds, fits.onStack]

include inside

theorem discover?_eq : search.discover? node = some (search.discovered node) := by
  unfold discover?
  rw [replace?_eq (fits.index ▸ inside), replace?_eq (fits.lowlink ▸ inside),
    replace?_eq (fits.onStack ▸ inside)]
  rfl

theorem index_discovered (other : Nat) : (search.discovered node).index[other]? =
    if node = other then some (some search.nextIndex) else search.index[other]? := by
  rw [discovered, getElem?_setIfInBounds_of_lt (fits.index ▸ inside)]

theorem order_discovered (other : Nat) : (search.discovered node).order other =
    if node = other then search.nextIndex else search.order other := by
  rw [order, index_discovered fits inside]
  split <;> rfl

theorem isSeen_discovered_iff (other : Nat) :
    (search.discovered node).IsSeen other ↔ node = other ∨ search.IsSeen other := by
  rw [IsSeen, index_discovered fits inside]
  by_cases same : node = other
  · simp [same]
  · simp [same, IsSeen]

theorem low_discovered (other : Nat) : (search.discovered node).low other =
    if node = other then search.nextIndex else search.low other := by
  rw [low, discovered, getElem?_setIfInBounds_of_lt (fits.lowlink ▸ inside)]
  split <;> rfl

theorem onStack_discovered (other : Nat) : (search.discovered node).onStack[other]? =
    if node = other then some true else search.onStack[other]? := by
  rw [discovered, getElem?_setIfInBounds_of_lt (fits.onStack ▸ inside)]

end Discovered

/-! ### A low link that is lowered -/

/-- This is the search with a low link made no greater than the bound. -/
def lowered (search : ComponentSearch) (node bound : Nat) : ComponentSearch :=
  { search with lowlink := search.lowlink.setIfInBounds node (min (search.low node) bound) }

section Lowered

variable (fits : search.Fits count) (inside : node < count)
include fits

theorem fits_lowered (node bound : Nat) : (search.lowered node bound).Fits count := by
  refine ⟨fits.index, ?_, fits.onStack⟩
  rw [lowered, Array.size_setIfInBounds, fits.lowlink]

include inside

theorem lower?_eq (bound : Nat) : search.lower? node bound = some (search.lowered node bound) := by
  unfold lower?
  rw [fits.lowlink_eq inside]
  change (replace? search.lowlink node (min (search.low node) bound)).bind _ = _
  rw [replace?_eq (fits.lowlink ▸ inside)]
  rfl

theorem low_lowered (bound other : Nat) : (search.lowered node bound).low other =
    if node = other then min (search.low node) bound else search.low other := by
  rw [low, lowered, getElem?_setIfInBounds_of_lt (fits.lowlink ▸ inside)]
  split <;> rfl

/-- A bound that is not smaller changes nothing. -/
theorem lowered_eq_self {bound : Nat} (notLess : search.low node ≤ bound) :
    search.lowered node bound = search := by
  have same : search.lowlink.setIfInBounds node (min (search.low node) bound) = search.lowlink := by
    apply Array.ext_getElem?
    intro place
    rw [getElem?_setIfInBounds_of_lt (fits.lowlink ▸ inside), Nat.min_eq_left notLess]
    split
    · next equal => rw [← equal, fits.lowlink_eq inside]
    · rfl
  rw [lowered, same]

end Lowered

/-! ### Nodes that are taken off the stack -/

/-- This is the table of stacked nodes without the given ones. -/
def unmarked (onStack : Array Bool) (nodes : List Nat) : Array Bool :=
  nodes.foldl (fun table node => table.setIfInBounds node false) onStack

theorem size_unmarked (nodes : List Nat) (onStack : Array Bool) :
    (unmarked onStack nodes).size = onStack.size := by
  induction nodes generalizing onStack with
  | nil => rfl
  | cons node rest inductionHypothesis =>
      exact (inductionHypothesis _).trans Array.size_setIfInBounds

theorem getElem?_unmarked {nodes : List Nat} {onStack : Array Bool}
    (inside : ∀ node ∈ nodes, node < onStack.size) (other : Nat) :
    (unmarked onStack nodes)[other]? =
      if other ∈ nodes then some false else onStack[other]? := by
  induction nodes generalizing onStack with
  | nil => simp [unmarked]
  | cons node rest inductionHypothesis =>
      change (unmarked (onStack.setIfInBounds node false) rest)[other]? = _
      rw [inductionHypothesis, getElem?_setIfInBounds_of_lt (inside node (by simp))]
      · by_cases later : other ∈ rest
        · simp [later]
        · simp [later, eq_comm (a := node)]
      · intro next present
        rw [Array.size_setIfInBounds]
        exact inside next (List.mem_cons_of_mem node present)

/-- The nodes above the given one come off with it, and nothing else does. -/
theorem popThrough?_eq {above left : List Nat} {onStack : Array Bool} (absent : node ∉ above)
    (inside : ∀ popped ∈ above ++ [node], popped < onStack.size) :
    popThrough? node (above ++ node :: left) onStack =
      some (above ++ [node], left, unmarked onStack (above ++ [node])) := by
  induction above generalizing onStack with
  | nil =>
      rw [List.nil_append, popThrough?, replace?_eq (inside node (by simp))]
      change (if node = node then _ else _) = _
      rw [if_pos rfl]
      rfl
  | cons top rest inductionHypothesis =>
      have different : top ≠ node := fun same => absent (by simp [same])
      rw [List.cons_append, popThrough?, replace?_eq (inside top (by simp))]
      change (if top = node then _ else _) = _
      rw [if_neg different, inductionHypothesis]
      · rfl
      · exact fun present => absent (List.mem_cons_of_mem top present)
      · intro popped present
        rw [Array.size_setIfInBounds]
        exact inside popped (List.mem_cons_of_mem top present)

/-- This is the search after a component has been completed. -/
def completed (search : ComponentSearch) (component left : List Nat) : ComponentSearch :=
  { search with
    onStack := unmarked search.onStack component
    stack := left
    components := search.components ++ [component] }

theorem complete?_eq (fits : search.Fits count) {above left : List Nat}
    (stacked : search.stack = above ++ node :: left) (absent : node ∉ above)
    (inside : ∀ popped ∈ above ++ [node], popped < count) :
    search.complete? node = some (search.completed (above ++ [node]) left) := by
  unfold complete?
  rw [stacked, popThrough?_eq absent (fits.onStack ▸ inside)]
  rfl

theorem fits_completed (fits : search.Fits count) (component left : List Nat) :
    (search.completed component left).Fits count := by
  refine ⟨fits.index, fits.lowlink, ?_⟩
  rw [completed, size_unmarked, fits.onStack]

end ComponentSearch

end StorageSchema
