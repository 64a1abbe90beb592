/-
This file shows that the sweep which classifies definitions ends. A definition is entered when it is
first reached and once more when it is raised from plain to live, and the sweep goes on in the same
way if a definition is visited with the flag that it has by then.
-/
import Mathlib.Logic.Function.Iterate
import StorageSchema.Check.Worklist
import StorageSchema.Proofs.Check.Classification

namespace StorageSchema

section Order

variable {Node : Type} {covers : List Node → Node → Bool} {targets : Node → List Node}
  {above : Node → Node → Prop}

/-- No node of the log has been covered by the nodes before it, and the nodes that are pending stand
in the order of the log. -/
structure Sweep.Ordered (above : Node → Node → Prop) (sweep : Sweep Node) : Prop where
  uncovered : sweep.entered.Pairwise fun later earlier => ¬ above earlier later
  stacked : sweep.pending.Sublist sweep.entered

theorem Sweep.Ordered.enter (fits : Sweep.Fits covers targets above) {sweep : Sweep Node}
    (ordered : sweep.Ordered above) (node : Node) :
    (sweep.enter covers node).Ordered above := by
  rw [Sweep.enter]
  split
  · exact ordered
  · next uncovered =>
      refine ⟨List.pairwise_cons.2 ⟨?_, ordered.uncovered⟩, ordered.stacked.cons_cons node⟩
      intro earlier present isAbove
      exact uncovered ((fits.covers_iff _ node).2 ⟨earlier, present, isAbove⟩)

theorem Sweep.Ordered.enterAll (fits : Sweep.Fits covers targets above) (nodes : List Node)
    {sweep : Sweep Node} (ordered : sweep.Ordered above) :
    (sweep.enterAll covers nodes).Ordered above := by
  induction nodes generalizing sweep with
  | nil => exact ordered
  | cons node rest inductionHypothesis => exact inductionHypothesis (ordered.enter fits node)

theorem Sweep.Ordered.step (fits : Sweep.Fits covers targets above) {sweep : Sweep Node}
    (ordered : sweep.Ordered above) : (sweep.step covers targets).Ordered above := by
  rcases sweep with ⟨entered, _ | ⟨node, rest⟩⟩
  · exact ordered
  · have popped : Sweep.Ordered above ⟨entered, rest⟩ :=
      ⟨ordered.uncovered, (List.sublist_cons_self node rest).trans ordered.stacked⟩
    exact popped.enterAll fits (targets node)

/-- The log only grows, at its front. -/
theorem Sweep.suffix_step (fits : Sweep.Fits covers targets above) (sweep : Sweep Node) :
    sweep.entered <:+ (sweep.step covers targets).entered := by
  rcases sweep with ⟨entered, _ | ⟨node, rest⟩⟩
  · exact List.suffix_rfl
  · obtain ⟨fresh, equal, -⟩ := Sweep.enterAll_spec fits (targets node) ⟨entered, rest⟩
    change entered <:+ (Sweep.enterAll covers ⟨entered, rest⟩ (targets node)).entered
    rw [equal]
    exact List.suffix_append fresh entered

/-- Nothing changes when covered nodes are entered. -/
theorem Sweep.enterAll_of_covered {sweep : Sweep Node} {nodes : List Node}
    (covered : ∀ node ∈ nodes, covers sweep.entered node = true) :
    sweep.enterAll covers nodes = sweep := by
  induction nodes with
  | nil => rfl
  | cons node rest inductionHypothesis =>
      rw [Sweep.enterAll, List.foldl_cons, Sweep.enter, if_pos (covered node (by simp))]
      exact inductionHypothesis fun other present => covered other (by simp [present])

theorem Sweep.step_of_finished {sweep : Sweep Node} (finished : sweep.pending = []) :
    sweep.step covers targets = sweep := by
  rw [Sweep.step, finished]

/-- A run takes its steps one after another, and a finished sweep stays as it is. -/
theorem Sweep.run_eq_iterate (steps : Nat) (sweep : Sweep Node) :
    Sweep.run covers targets steps sweep = (Sweep.step covers targets)^[steps] sweep := by
  induction steps generalizing sweep with
  | zero => rfl
  | succ steps inductionHypothesis =>
      rw [Sweep.run, Function.iterate_succ_apply]
      split
      · next finished =>
          have kept : sweep.step covers targets = sweep :=
            Sweep.step_of_finished (List.isEmpty_iff.1 finished)
          rw [kept, Function.iterate_fixed kept]
      · exact inductionHypothesis _

end Order

/-- The flags of a name tell which arrivals at it have been entered, latest first. -/
def Arrival.flags (log : List Arrival) (name : String) : List Bool :=
  (log.filter fun arrival => arrival.name = name).map Arrival.isLive

/-- A flag is given after others only if it is raised. -/
theorem Arrival.pairwise_flags {log : List Arrival}
    (uncovered : log.Pairwise fun later earlier => ¬ earlier.IsAbove later) (name : String) :
    (Arrival.flags log name).Pairwise fun later earlier => later = true ∧ earlier = false := by
  rw [Arrival.flags, List.pairwise_map]
  refine (uncovered.filter _).imp_of_mem ?_
  intro later earlier laterPresent earlierPresent notAbove
  have laterNamed : later.name = name := by simpa using (List.mem_filter.1 laterPresent).2
  have earlierNamed : earlier.name = name := by simpa using (List.mem_filter.1 earlierPresent).2
  simpa [Arrival.IsAbove, laterNamed, earlierNamed] using notAbove

/-- A name has no flag, or a single one, or a plain one that has been raised. -/
theorem Arrival.flags_mem {log : List Arrival}
    (uncovered : log.Pairwise fun later earlier => ¬ earlier.IsAbove later) (name : String) :
    Arrival.flags log name ∈ [[], [false], [true], [true, false]] := by
  have raised := Arrival.pairwise_flags uncovered name
  generalize Arrival.flags log name = flags at raised ⊢
  rcases flags with _ | ⟨first, _ | ⟨second, _ | ⟨third, rest⟩⟩⟩
  · simp
  · cases first <;> simp
  · obtain ⟨rfl, rfl⟩ := (List.pairwise_cons.1 raised).1 second (by simp)
    simp
  · obtain ⟨afterFirst, afterSecond⟩ := List.pairwise_cons.1 raised
    have plain : second = false := (afterFirst second (by simp)).2
    have live : second = true := ((List.pairwise_cons.1 afterSecond).1 third (by simp)).1
    exact absurd live (by simp [plain])

theorem Arrival.isCoveredBy_eq_any (log : List Arrival) (arrival : Arrival) :
    Arrival.isCoveredBy log arrival =
      (Arrival.flags log arrival.name).any fun flag => flag || !arrival.isLive := by
  simp [Arrival.isCoveredBy, Arrival.flags, List.any_filter]

variable {Mark : Type}

/-- This is the visit of a name whose flag is there. -/
def Document.visit (document : Document Mark) (worklist : Worklist) : Worklist :=
  match worklist.waiting with
  | [] => worklist
  | name :: rest =>
      (document.departures ⟨name, worklist.flag? name = some true⟩).foldl Worklist.reach
        ⟨worklist.flags, rest⟩

/-- A sweep of arrivals has given a flag with each of them. -/
def Sweep.worklist (sweep : Sweep Arrival) : Worklist :=
  ⟨sweep.entered.map fun arrival => (arrival.name, arrival.isLive), sweep.pending.map Arrival.name⟩

theorem Sweep.flag?_worklist (sweep : Sweep Arrival) (name : String) :
    sweep.worklist.flag? name = (Arrival.flags sweep.entered name).head? := by
  rw [Worklist.flag?, Sweep.worklist]
  induction sweep.entered with
  | nil => rfl
  | cons arrival rest inductionHypothesis =>
      by_cases same : arrival.name = name
      · simp [Arrival.flags, same]
      · have other : (name == arrival.name) = false := by simpa using Ne.symm same
        simpa [Arrival.flags, same, other, List.lookup_cons] using inductionHypothesis

/-- An arrival is entered whenever the flag of its name is changed. -/
theorem Sweep.worklist_enter {sweep : Sweep Arrival} (ordered : sweep.Ordered Arrival.IsAbove)
    (arrival : Arrival) :
    (sweep.enter Arrival.isCoveredBy arrival).worklist = sweep.worklist.reach arrival := by
  have known := Arrival.flags_mem ordered.uncovered arrival.name
  simp only [Sweep.enter, Worklist.reach, Sweep.flag?_worklist, Arrival.isCoveredBy_eq_any]
  generalize Arrival.flags sweep.entered arrival.name = flags at known ⊢
  simp only [List.mem_cons, List.not_mem_nil, or_false] at known
  rcases known with rfl | rfl | rfl | rfl <;> cases live : arrival.isLive <;>
    simp [Sweep.worklist, live]

theorem Sweep.worklist_enterAll (document : Document Mark) (arrivals : List Arrival)
    {sweep : Sweep Arrival} (ordered : sweep.Ordered Arrival.IsAbove) :
    (sweep.enterAll Arrival.isCoveredBy arrivals).worklist =
      arrivals.foldl Worklist.reach sweep.worklist := by
  induction arrivals generalizing sweep with
  | nil => rfl
  | cons arrival rest inductionHypothesis =>
      rw [List.foldl_cons, ← Sweep.worklist_enter ordered,
        ← inductionHypothesis (ordered.enter document.departures_fits arrival)]
      rfl

/-- If a name has been raised while it waited, then its live arrival has been followed before the
plain one is, because it has been entered later. So both have nothing new to enter. -/
theorem Document.departures_covered {document : Document Mark} {name : String}
    {entered rest : List Arrival}
    (ordered : Sweep.Ordered Arrival.IsAbove ⟨entered, ⟨name, false⟩ :: rest⟩)
    (invariant : Sweep.Invariant Arrival.isCoveredBy document.departures [Arrival.atRoot]
      ⟨entered, ⟨name, false⟩ :: rest⟩)
    (raised : (⟨name, true⟩ : Arrival) ∈ entered) (isLive : Bool) :
    ∀ target ∈ document.departures ⟨name, isLive⟩,
      Arrival.isCoveredBy entered target = true := by
  have popped : (⟨name, true⟩ : Arrival) ∉ (⟨name, false⟩ :: rest : List Arrival) := by
    intro waiting
    have later := (List.mem_cons.1 waiting).resolve_left (by simp)
    have above := List.rel_of_pairwise_cons (ordered.uncovered.sublist ordered.stacked) later
    exact above ⟨rfl, fun _ => rfl⟩
  have followed := (invariant.followed ⟨name, true⟩ raised).resolve_left popped
  intro target isTarget
  have fits := document.departures_fits
  have isAbove : Arrival.IsAbove ⟨name, true⟩ ⟨name, isLive⟩ := ⟨rfl, fun _ => rfl⟩
  obtain ⟨other, otherTarget, otherAbove⟩ := fits.follows _ _ isAbove target isTarget
  obtain ⟨earlier, present, earlierAbove⟩ :=
    (fits.covers_iff entered other).1 (followed other otherTarget)
  exact (fits.covers_iff entered target).2
    ⟨earlier, present, fits.trans _ _ _ earlierAbove otherAbove⟩

theorem Arrival.mem_flags_iff (log : List Arrival) (name : String) (isLive : Bool) :
    isLive ∈ Arrival.flags log name ↔ ⟨name, isLive⟩ ∈ log := by
  rw [Arrival.flags, List.mem_map]
  constructor
  · rintro ⟨⟨other, _⟩, found, rfl⟩
    obtain ⟨present, named⟩ := List.mem_filter.1 found
    obtain rfl : other = name := by simpa using named
    exact present
  · intro present
    exact ⟨⟨name, isLive⟩, List.mem_filter.2 ⟨present, by simp⟩, rfl⟩

/-- A name that has been entered has the same flag by now, unless it has been raised. -/
theorem Arrival.head?_flags_of_mem {log : List Arrival} {name : String} {isLive : Bool}
    (uncovered : log.Pairwise fun later earlier => ¬ earlier.IsAbove later)
    (present : ⟨name, isLive⟩ ∈ log) :
    (Arrival.flags log name).head? = some isLive ∨
      isLive = false ∧ (Arrival.flags log name).head? = some true := by
  have flagged := (Arrival.mem_flags_iff log name isLive).2 present
  have known := Arrival.flags_mem uncovered name
  simp only [List.mem_cons, List.not_mem_nil, or_false] at known
  rcases known with known | known | known | known <;> rw [known] at flagged ⊢ <;>
    cases isLive <;> simp at flagged ⊢

/-- A step of the sweep visits the same definition, with the flag that its name has by then. -/
theorem Document.worklist_step {document : Document Mark} {sweep : Sweep Arrival}
    (ordered : sweep.Ordered Arrival.IsAbove)
    (invariant : Sweep.Invariant Arrival.isCoveredBy document.departures [Arrival.atRoot] sweep) :
    (sweep.step Arrival.isCoveredBy document.departures).worklist =
      document.visit sweep.worklist := by
  rcases sweep with ⟨entered, _ | ⟨⟨name, isLive⟩, rest⟩⟩
  · rfl
  · have popped : Sweep.Ordered Arrival.IsAbove ⟨entered, rest⟩ :=
      ⟨ordered.uncovered, (List.sublist_cons_self _ rest).trans ordered.stacked⟩
    have flagged := Sweep.flag?_worklist ⟨entered, ⟨name, isLive⟩ :: rest⟩ name
    have visited : document.visit (Sweep.worklist ⟨entered, ⟨name, isLive⟩ :: rest⟩) =
        (Sweep.enterAll Arrival.isCoveredBy ⟨entered, rest⟩ (document.departures
          ⟨name, (Arrival.flags entered name).head? = some true⟩)).worklist := by
      rw [Sweep.worklist_enterAll document _ popped, ← flagged]
      rfl
    rw [visited]
    change (Sweep.enterAll Arrival.isCoveredBy ⟨entered, rest⟩
      (document.departures ⟨name, isLive⟩)).worklist = _
    have present := invariant.logged ⟨name, isLive⟩ (by simp)
    rcases Arrival.head?_flags_of_mem ordered.uncovered present with same | ⟨rfl, raised⟩
    · rw [same]
      cases isLive <;> rfl
    · have live := (Arrival.mem_flags_iff entered name true).1 (List.mem_of_head? raised)
      have unchanged (flag : Bool) : Sweep.enterAll Arrival.isCoveredBy ⟨entered, rest⟩
          (document.departures ⟨name, flag⟩) = ⟨entered, rest⟩ :=
        Sweep.enterAll_of_covered (Document.departures_covered ordered invariant live flag)
      rw [unchanged, unchanged]

/-- This is the sweep of a document after so many steps. -/
def Document.sweepAfter (document : Document Mark) (steps : Nat) : Sweep Arrival :=
  Sweep.run Arrival.isCoveredBy document.departures steps
    (Sweep.empty.enter Arrival.isCoveredBy Arrival.atRoot)

theorem Document.sweepAfter_invariant (document : Document Mark) (steps : Nat) :
    Sweep.Invariant Arrival.isCoveredBy document.departures [Arrival.atRoot]
      (document.sweepAfter steps) :=
  Sweep.invariant_of_advances document.departures_fits (Sweep.advances_run steps _)
    (Sweep.invariant_seeds document.departures_fits)

theorem Document.sweepAfter_succ (document : Document Mark) (rounds : Nat) :
    document.sweepAfter (rounds + 1) =
      (document.sweepAfter rounds).step Arrival.isCoveredBy document.departures := by
  rw [Document.sweepAfter, Document.sweepAfter, Sweep.run_eq_iterate, Sweep.run_eq_iterate,
    Function.iterate_succ_apply']

theorem Document.sweepAfter_ordered (document : Document Mark) (rounds : Nat) :
    (document.sweepAfter rounds).Ordered Arrival.IsAbove := by
  induction rounds with
  | zero =>
      have empty : Sweep.Ordered Arrival.IsAbove Sweep.empty := ⟨.nil, .refl _⟩
      exact empty.enter document.departures_fits Arrival.atRoot
  | succ rounds inductionHypothesis =>
      rw [Document.sweepAfter_succ]
      exact inductionHypothesis.step document.departures_fits

/-- The rounds of the sweep are those of the worklist. -/
theorem Document.worklist_sweepAfter (document : Document Mark) (rounds : Nat) :
    (document.sweepAfter rounds).worklist =
      document.visit^[rounds] ⟨[(rootName, false)], [rootName]⟩ := by
  induction rounds with
  | zero => rfl
  | succ rounds inductionHypothesis =>
      rw [Function.iterate_succ_apply', ← inductionHypothesis,
        ← Document.worklist_step (document.sweepAfter_ordered rounds)
          (document.sweepAfter_invariant rounds), Document.sweepAfter_succ]

/-- The loop ends after as many rounds as there can be arrivals, and then it has ended for good. -/
theorem Document.sweepAfter_finished (document : Document Mark) {rounds : Nat}
    (enough : 2 * document.definitions.length + 1 ≤ rounds) :
    (document.sweepAfter rounds).pending = [] ∧ document.sweepAfter rounds = document.sweep := by
  have finished := document.sweep_finished.2
  obtain ⟨extra, rfl⟩ := Nat.exists_eq_add_of_le' enough
  have same : document.sweepAfter (extra + (2 * document.definitions.length + 1)) =
      document.sweep := by
    rw [Document.sweepAfter, Sweep.run_eq_iterate, Function.iterate_add_apply,
      ← Sweep.run_eq_iterate (2 * document.definitions.length + 1)]
    exact Function.iterate_fixed (Sweep.step_of_finished finished) extra
  exact ⟨same ▸ finished, same⟩

theorem Document.Chain.ne_root {document : Document Mark} {isLive : Bool} {name : String}
    (chain : document.Chain isLive name) : name ≠ rootName := by
  cases chain with
  | first _ other => exact other
  | next _ _ other => exact other

/-- The root is entered once, because no reference leads on to it. -/
theorem Document.flags_root (document : Document Mark) (rounds : Nat) :
    Arrival.flags (document.sweepAfter rounds).entered rootName = [false] := by
  have invariant := document.sweepAfter_invariant rounds
  have known := Arrival.flags_mem (document.sweepAfter_ordered rounds).uncovered rootName
  have never : true ∉ Arrival.flags (document.sweepAfter rounds).entered rootName := by
    rw [Arrival.mem_flags_iff]
    intro present
    rcases (document.reached_iff _).1 (invariant.reached _ present) with equal | chain
    · exact absurd equal (by simp [Arrival.atRoot])
    · exact chain.ne_root rfl
  have once : false ∈ Arrival.flags (document.sweepAfter rounds).entered rootName := by
    rw [Arrival.mem_flags_iff]
    obtain ⟨⟨_, isLive⟩, present, rfl, -⟩ :=
      (Arrival.isCoveredBy_iff _ _).1 (invariant.seeded Arrival.atRoot (by simp))
    cases isLive with
    | false => exact present
    | true => exact absurd ((Arrival.mem_flags_iff _ _ _).2 present) never
  simp only [List.mem_cons, List.not_mem_nil, or_false] at known
  rcases known with known | known | known | known <;> rw [known] at never once ⊢ <;>
    simp at never once

/-- A raised flag is never set back, because nothing is entered after a live arrival. -/
theorem Arrival.head?_flags_append {fresh earlier : List Arrival} {name : String}
    (uncovered : (fresh ++ earlier).Pairwise fun later earlier => ¬ earlier.IsAbove later)
    (raised : (Arrival.flags earlier name).head? = some true) :
    (Arrival.flags (fresh ++ earlier) name).head? = some true := by
  have ordered := Arrival.pairwise_flags uncovered name
  have divided : Arrival.flags (fresh ++ earlier) name =
      Arrival.flags fresh name ++ Arrival.flags earlier name := by
    simp [Arrival.flags]
  rw [divided] at ordered ⊢
  have none : Arrival.flags fresh name = [] := by
    rw [List.eq_nil_iff_forall_not_mem]
    intro flag isFresh
    have plain := (List.pairwise_append.1 ordered).2.2 flag isFresh true (List.mem_of_head? raised)
    exact absurd plain.2 (by simp)
  rw [none, List.nil_append, raised]

/-- The sweep takes the rounds of a worklist whose visits look the flag of a definition up. It has
ended after two rounds for each definition and one more. By any round the root has been entered once
and every other definition at most twice, plain at first and then live, and a flag that has been
raised at any time before is not set back. -/
theorem Document.worklist_ends (document : Document Mark) (rounds : Nat) :
    (document.sweepAfter rounds).worklist =
      document.visit^[rounds] ⟨[(rootName, false)], [rootName]⟩ ∧
    (2 * document.definitions.length + 1 ≤ rounds →
      (document.sweepAfter rounds).pending = [] ∧
        document.sweepAfter rounds = document.sweep) ∧
    (document.sweepAfter rounds).entered <:+ (document.sweepAfter (rounds + 1)).entered ∧
    Arrival.flags (document.sweepAfter rounds).entered rootName = [false] ∧
    ∀ name,
      Arrival.flags (document.sweepAfter rounds).entered name ∈
        [[], [false], [true], [true, false]] ∧
      ∀ earlier, earlier <:+ (document.sweepAfter rounds).entered →
        (Arrival.flags earlier name).head? = some true →
        (Arrival.flags (document.sweepAfter rounds).entered name).head? = some true := by
  have uncovered := (document.sweepAfter_ordered rounds).uncovered
  refine ⟨document.worklist_sweepAfter rounds, document.sweepAfter_finished, ?_,
    document.flags_root rounds, ?_⟩
  · rw [Document.sweepAfter_succ]
    exact Sweep.suffix_step document.departures_fits _
  · intro name
    refine ⟨Arrival.flags_mem uncovered name, ?_⟩
    rintro earlier ⟨fresh, divided⟩ raised
    rw [← divided] at uncovered ⊢
    exact Arrival.head?_flags_append uncovered raised

/-- Here `A` raises its own flag while `C` waits, which is raised before its first visit. -/
theorem Document.worklist_ends_of_upgrades :
    ∃ document,
      Document.ofText false "type Storage \x7ba: A, b: A[]\x7d
        type A \x7bc: C, a: LiveObject<A>\x7d type C \x7ba: A | Storage\x7d" = .ok document ∧
      (document.sweepAfter 2).pending = [⟨"A", true⟩, ⟨"C", false⟩] ∧
      (document.sweepAfter 7).pending = [] ∧ document.sweepAfter 7 = document.sweep ∧
      Arrival.flags document.sweep.entered "C" = [true, false] ∧
      (Arrival.flags document.sweep.entered "A").head? = some true := by
  apply Document.exists_of_text
    (fun document => (document.definitions.length, (document.sweepAfter 2).pending,
      (document.sweepAfter 2).entered, document.sweep.entered))
    (3, [⟨"A", true⟩, ⟨"C", false⟩],
      [⟨"A", true⟩, ⟨"C", false⟩, ⟨"A", false⟩, ⟨"Storage", false⟩],
      [⟨"C", true⟩, ⟨"A", true⟩, ⟨"C", false⟩, ⟨"A", false⟩, ⟨"Storage", false⟩])
  · decide +kernel
  · intro document _ viewed
    simp only [Prod.mk.injEq] at viewed
    obtain ⟨counted, waiting, before, after⟩ := viewed
    obtain ⟨-, ends, -, -, flags⟩ := document.worklist_ends 7
    obtain ⟨finished, same⟩ := ends (by omega)
    have kept := (flags "A").2 (document.sweepAfter 2).entered
      (by rw [same, before, after]; decide) (by rw [before]; decide)
    refine ⟨waiting, finished, same, ?_, same ▸ kept⟩
    rw [after]
    decide

end StorageSchema
