/-
This file proves that a finished sweep has entered exactly what can be reached, whatever the order
of its steps, and that a run of enough steps is finished.
-/
import Mathlib.Data.List.Perm.Subperm
import Mathlib.Logic.Relation
import StorageSchema.Sweep

namespace StorageSchema

variable {Node : Type} {covers : List Node → Node → Bool} {targets : Node → List Node}
  {above : Node → Node → Prop} {seeds : List Node}

/-- A log covers a node if it has one above it, and a node leads on to nodes above those that the
nodes below it lead on to. -/
structure Sweep.Fits (covers : List Node → Node → Bool) (targets : Node → List Node)
    (above : Node → Node → Prop) : Prop where
  covers_iff : ∀ log node, covers log node = true ↔ ∃ earlier ∈ log, above earlier node
  refl : ∀ node, above node node
  trans : ∀ first second third, above first second → above second third → above first third
  follows : ∀ first second, above first second →
    ∀ target ∈ targets second, ∃ other ∈ targets first, above other target

/-- A node is reached if a seed leads to it in any number of steps. -/
def Sweep.Reached (targets : Node → List Node) (seeds : List Node) (node : Node) : Prop :=
  ∃ seed ∈ seeds, Relation.ReflTransGen (fun source target => target ∈ targets source) seed node

/-- A sweep may go on from any pending node, and it may enter the targets in any order. -/
inductive Sweep.Advance (covers : List Node → Node → Bool) (targets : Node → List Node) :
    Sweep Node → Sweep Node → Prop where
  | follow (entered before : List Node) (node : Node) (after order : List Node)
      (permuted : order.Perm (targets node)) :
      Advance covers targets ⟨entered, before ++ node :: after⟩
        (Sweep.enterAll covers ⟨entered, before ++ after⟩ order)

/-- The log has reached nodes only and every node once, it covers the seeds, and it covers the
targets of each of its nodes that is no longer pending. -/
structure Sweep.Invariant (covers : List Node → Node → Bool) (targets : Node → List Node)
    (seeds : List Node) (sweep : Sweep Node) : Prop where
  reached : ∀ node ∈ sweep.entered, Sweep.Reached targets seeds node
  distinct : sweep.entered.Nodup
  logged : ∀ node ∈ sweep.pending, node ∈ sweep.entered
  seeded : ∀ seed ∈ seeds, covers sweep.entered seed = true
  followed : ∀ node ∈ sweep.entered,
    node ∈ sweep.pending ∨ ∀ target ∈ targets node, covers sweep.entered target = true

theorem Sweep.Fits.covers_of_mem (fits : Sweep.Fits covers targets above) {log : List Node}
    {node : Node} (present : node ∈ log) : covers log node = true :=
  (fits.covers_iff log node).2 ⟨node, present, fits.refl node⟩

theorem Sweep.Fits.covers_append (fits : Sweep.Fits covers targets above) {log : List Node}
    {node : Node} (covered : covers log node = true) (fresh : List Node) :
    covers (fresh ++ log) node = true := by
  obtain ⟨earlier, present, isAbove⟩ := (fits.covers_iff log node).1 covered
  exact (fits.covers_iff _ node).2 ⟨earlier, List.mem_append_right fresh present, isAbove⟩

/-- What a sweep enters comes to its log and to what is pending alike, and then all is covered. -/
theorem Sweep.enterAll_spec (fits : Sweep.Fits covers targets above) (nodes : List Node)
    (sweep : Sweep Node) :
    ∃ fresh : List Node,
      Sweep.enterAll covers sweep nodes = ⟨fresh ++ sweep.entered, fresh ++ sweep.pending⟩ ∧
      (∀ node ∈ fresh, node ∈ nodes) ∧
      (sweep.entered.Nodup → (fresh ++ sweep.entered).Nodup) ∧
      ∀ node ∈ nodes, covers (fresh ++ sweep.entered) node = true := by
  induction nodes generalizing sweep with
  | nil => exact ⟨[], rfl, by simp, by simp, by simp⟩
  | cons first rest inductionHypothesis =>
      by_cases known : covers sweep.entered first = true
      · obtain ⟨fresh, equal, sub, distinct, covered⟩ := inductionHypothesis sweep
        refine ⟨fresh, ?_, ?_, distinct, ?_⟩
        · rw [← equal]
          simp [Sweep.enterAll, Sweep.enter, known]
        · intro node present
          exact List.mem_cons_of_mem first (sub node present)
        · intro node present
          rcases List.mem_cons.1 present with rfl | later
          · exact fits.covers_append known fresh
          · exact covered node later
      · obtain ⟨fresh, equal, sub, distinct, covered⟩ :=
          inductionHypothesis ⟨first :: sweep.entered, first :: sweep.pending⟩
        refine ⟨fresh ++ [first], ?_, ?_, ?_, ?_⟩
        · simp only [Sweep.enterAll, List.foldl_cons, Sweep.enter, known] at equal ⊢
          simpa using equal
        · intro node present
          rcases List.mem_append.1 present with later | same
          · exact List.mem_cons_of_mem first (sub node later)
          · exact List.mem_cons.2 (Or.inl (List.mem_singleton.1 same))
        · intro old
          have new : first ∉ sweep.entered := fun present => known (fits.covers_of_mem present)
          simpa using distinct (List.nodup_cons.2 ⟨new, old⟩)
        · intro node present
          rw [List.append_assoc, List.singleton_append]
          rcases List.mem_cons.1 present with rfl | later
          · exact fits.covers_of_mem (by simp)
          · exact covered node later

/-- The invariant holds when the seeds have been entered. -/
theorem Sweep.invariant_seeds (fits : Sweep.Fits covers targets above) :
    Sweep.Invariant covers targets seeds (Sweep.empty.enterAll covers seeds) := by
  obtain ⟨fresh, equal, sub, distinct, covered⟩ :=
    Sweep.enterAll_spec fits seeds (Sweep.empty : Sweep Node)
  rw [equal]
  simp only [Sweep.empty, List.append_nil] at distinct covered ⊢
  constructor
  · intro node present
    exact ⟨node, sub node present, .refl⟩
  · exact distinct List.nodup_nil
  · exact fun node present => present
  · exact covered
  · exact fun node present => Or.inl present

/-- The invariant is kept by a step in any order. -/
theorem Sweep.Advance.invariant (fits : Sweep.Fits covers targets above)
    {sweep next : Sweep Node} (advance : Sweep.Advance covers targets sweep next)
    (invariant : Sweep.Invariant covers targets seeds sweep) :
    Sweep.Invariant covers targets seeds next := by
  cases advance with
  | follow entered before node after order permuted =>
      obtain ⟨fresh, equal, sub, distinct, covered⟩ :=
        Sweep.enterAll_spec fits order ⟨entered, before ++ after⟩
      rw [equal]
      constructor
      · intro other present
        rcases List.mem_append.1 present with new | old
        · obtain ⟨seed, isSeed, path⟩ := invariant.reached node (invariant.logged node (by simp))
          exact ⟨seed, isSeed, path.tail (permuted.mem_iff.1 (sub other new))⟩
        · exact invariant.reached other old
      · exact distinct invariant.distinct
      · intro other present
        rcases List.mem_append.1 present with new | old
        · exact List.mem_append_left entered new
        · have waiting : other ∈ before ++ node :: after := by
            rcases List.mem_append.1 old with left | right <;> simp [*]
          exact List.mem_append_right fresh (invariant.logged other waiting)
      · intro seed isSeed
        exact fits.covers_append (invariant.seeded seed isSeed) fresh
      · intro other present
        rcases List.mem_append.1 present with new | old
        · exact Or.inl (List.mem_append_left _ new)
        · rcases invariant.followed other old with waiting | done
          · by_cases same : other = node
            · subst same
              exact Or.inr fun target isTarget =>
                covered target (permuted.mem_iff.2 isTarget)
            · exact Or.inl (by simpa [same] using Or.inr waiting)
          · exact Or.inr fun target isTarget =>
              fits.covers_append (done target isTarget) fresh

/-- The invariant is kept by any number of steps. -/
theorem Sweep.invariant_of_advances (fits : Sweep.Fits covers targets above)
    {sweep next : Sweep Node}
    (advances : Relation.ReflTransGen (Sweep.Advance covers targets) sweep next)
    (invariant : Sweep.Invariant covers targets seeds sweep) :
    Sweep.Invariant covers targets seeds next := by
  induction advances with
  | refl => exact invariant
  | tail _ advance inductionHypothesis => exact advance.invariant fits inductionHypothesis

/-- When nothing is pending, everything that is reached is covered. -/
theorem Sweep.Invariant.covers_of_reached (fits : Sweep.Fits covers targets above)
    {sweep : Sweep Node} (invariant : Sweep.Invariant covers targets seeds sweep)
    (finished : sweep.pending = []) {node : Node} (reached : Sweep.Reached targets seeds node) :
    covers sweep.entered node = true := by
  obtain ⟨seed, isSeed, path⟩ := reached
  induction path with
  | refl => exact invariant.seeded seed isSeed
  | @tail middle last _ isTarget inductionHypothesis =>
      obtain ⟨earlier, present, isAbove⟩ := (fits.covers_iff _ middle).1 inductionHypothesis
      obtain ⟨other, otherTarget, otherAbove⟩ :=
        fits.follows earlier middle isAbove last isTarget
      have done : ∀ target ∈ targets earlier, covers sweep.entered target = true := by
        simpa [finished] using invariant.followed earlier present
      obtain ⟨top, topPresent, topAbove⟩ :=
        (fits.covers_iff _ other).1 (done other otherTarget)
      exact (fits.covers_iff _ last).2
        ⟨top, topPresent, fits.trans top other last topAbove otherAbove⟩

/-- A step enters as many nodes as become pending, and one is no longer pending. -/
theorem Sweep.Advance.length_eq (fits : Sweep.Fits covers targets above)
    {sweep next : Sweep Node} (advance : Sweep.Advance covers targets sweep next) :
    next.entered.length + sweep.pending.length =
      sweep.entered.length + next.pending.length + 1 := by
  cases advance with
  | follow entered before node after order permuted =>
      obtain ⟨fresh, equal, -, -, -⟩ := Sweep.enterAll_spec fits order ⟨entered, before ++ after⟩
      rw [equal]
      simp only [List.length_append, List.length_cons]
      omega

/-- The step of a run goes on from the first pending node. -/
theorem Sweep.advance_step {sweep : Sweep Node} (unfinished : sweep.pending ≠ []) :
    Sweep.Advance covers targets sweep (sweep.step covers targets) := by
  rcases sweep with ⟨entered, _ | ⟨node, rest⟩⟩
  · exact absurd rfl unfinished
  · exact .follow entered [] node rest (targets node) (List.Perm.refl _)

/-- A run is a sequence of steps. -/
theorem Sweep.advances_run (steps : Nat) (sweep : Sweep Node) :
    Relation.ReflTransGen (Sweep.Advance covers targets) sweep
      (Sweep.run covers targets steps sweep) := by
  induction steps generalizing sweep with
  | zero => exact .refl
  | succ steps inductionHypothesis =>
      rw [Sweep.run]
      split
      · exact .refl
      · next unfinished =>
          have advance : Sweep.Advance covers targets sweep (sweep.step covers targets) :=
            Sweep.advance_step (by simpa using unfinished)
          exact .head advance (inductionHypothesis _)

/-- A run is finished after as many steps as there are nodes to enter. -/
theorem Sweep.run_finished (fits : Sweep.Fits covers targets above) {bound : Nat}
    (bounded : ∀ log : List Node, log.Nodup →
      (∀ node ∈ log, Sweep.Reached targets seeds node) → log.length ≤ bound)
    (steps : Nat) (sweep : Sweep Node)
    (invariant : Sweep.Invariant covers targets seeds sweep)
    (enough : bound + sweep.pending.length ≤ sweep.entered.length + steps) :
    (Sweep.run covers targets steps sweep).pending = [] := by
  induction steps generalizing sweep with
  | zero =>
      have within := bounded sweep.entered invariant.distinct invariant.reached
      exact List.length_eq_zero_iff.1 (by simp only [Sweep.run]; omega)
  | succ steps inductionHypothesis =>
      rw [Sweep.run]
      split
      · next finished => simpa using finished
      · next unfinished =>
          have advance : Sweep.Advance covers targets sweep (sweep.step covers targets) :=
            Sweep.advance_step (by simpa using unfinished)
          have counted := advance.length_eq fits
          exact inductionHypothesis _ (advance.invariant fits invariant) (by omega)

/-- A run from the seeds keeps the invariant and finishes. -/
theorem Sweep.run_seeds (fits : Sweep.Fits covers targets above) {bound : Nat}
    (bounded : ∀ log : List Node, log.Nodup →
      (∀ node ∈ log, Sweep.Reached targets seeds node) → log.length ≤ bound) :
    let final := Sweep.run covers targets bound (Sweep.empty.enterAll covers seeds)
    Sweep.Invariant covers targets seeds final ∧ final.pending = [] := by
  have start : Sweep.Invariant covers targets seeds (Sweep.empty.enterAll covers seeds) :=
    Sweep.invariant_seeds fits
  constructor
  · exact Sweep.invariant_of_advances fits (Sweep.advances_run bound _) start
  · apply Sweep.run_finished fits bounded bound _ start
    obtain ⟨fresh, equal, -, -, -⟩ :=
      Sweep.enterAll_spec fits seeds (Sweep.empty : Sweep Node)
    rw [equal]
    simp only [Sweep.empty, List.append_nil]
    omega

end StorageSchema
