/-
This file says which names are suggested, by how far and how long they are. It follows that the
known names count as a set, so that no problem depends on the order in which they are listed.
-/
import Mathlib.Data.List.Destutter
import Mathlib.Data.List.Sort
import Mathlib.Data.Prod.Lex
import StorageSchema.Proofs.Check.Report
import StorageSchema.Proofs.Text.ByteOrder
import StorageSchema.Proofs.Text.EditDistance

namespace StorageSchema

variable {Mark : Type}

/-- A name is as far from the needed one as the fewest edits between them, but a change of case
alone is one edit. -/
noncomputable def distanceBetween (needle name : String) : Nat :=
  if lowercase name = lowercase needle then 1
  else sInf {count | Text.Edits count needle.toList name.toList}

/-- A name may be suggested if it is another name that is near enough for the bytes of the needed
one. -/
structure Eligible (needle name : String) : Prop where
  nonempty : name ≠ ""
  different : name ≠ needle
  withinOne : needle.utf8ByteSize ≤ 3 → distanceBetween needle name ≤ 1
  withinTwo : needle.utf8ByteSize ≤ 6 → distanceBetween needle name ≤ 2
  withinThree : needle.utf8ByteSize ≤ 10 → distanceBetween needle name ≤ 3
  withinFour : distanceBetween needle name ≤ 4

/-- Nearer names come first, then those of fewer bytes, then those of smaller bytes. -/
def ComesFirst (needle first second : String) : Prop :=
  distanceBetween needle first < distanceBetween needle second ∨
    distanceBetween needle first = distanceBetween needle second ∧
      (first.utf8ByteSize < second.utf8ByteSize ∨
        first.utf8ByteSize = second.utf8ByteSize ∧ Text.bytes first < Text.bytes second)

/-- A ranking holds every known name that may be suggested, once and in order. -/
structure IsRanking (needle : String) (names ranked : List String) : Prop where
  ordered : ranked.Pairwise (ComesFirst needle)
  members : ∀ name, name ∈ ranked ↔ name ∈ names ∧ Eligible needle name

/-- These are the problems of a document whose declared names are known from a list. -/
def Document.problemsAmong (known : List String) (document : Document Mark) :
    List (Problem Mark) :=
  Definition.allNameProblems [] document.definitions ++ document.rootProblems ++
    document.fieldTypes.flatMap (TypeExpr.problems known) ++ document.cycleProblems

theorem nameDistance_eq (needle name : String) :
    nameDistance needle name = distanceBetween needle name := by
  simp only [nameDistance, distanceBetween, Text.editDistance_eq_sInf]

theorem eligible_iff (needle name : String) :
    Eligible needle name ↔
      name ≠ "" ∧ name ≠ needle ∧ nameDistance needle name ≤ greatestDistance needle := by
  rw [nameDistance_eq, greatestDistance]
  constructor
  · intro ⟨nonempty, different, withinOne, withinTwo, withinThree, withinFour⟩
    refine ⟨nonempty, different, ?_⟩
    split_ifs with three six ten
    · exact withinOne three
    · exact withinTwo six
    · exact withinThree ten
    · exact withinFour
  · intro ⟨nonempty, different, within⟩
    constructor
    · exact nonempty
    · exact different
    all_goals split_ifs at within <;> omega

/-- Candidates are compared by these three parts, one after another. -/
def Candidate.key (candidate : Candidate) : Nat ×ₗ Nat ×ₗ String :=
  toLex (candidate.distance, toLex (candidate.name.utf8ByteSize, candidate.name))

theorem Candidate.key_injective : Function.Injective Candidate.key := by
  rintro ⟨firstName, firstDistance⟩ ⟨secondName, secondDistance⟩ same
  simp_all [Candidate.key]

instance : LinearOrder Candidate := LinearOrder.lift' Candidate.key Candidate.key_injective

theorem Candidate.lt_iff_key_lt (first second : Candidate) :
    first < second ↔ first.key < second.key := Iff.rfl

@[simp] theorem Candidate.comesBefore_iff (first second : Candidate) :
    first.comesBefore second = true ↔ first < second := by
  simp [Candidate.lt_iff_key_lt, Candidate.comesBefore, Candidate.key, Prod.Lex.toLex_lt_toLex]

/-- Names come first as the candidates at their distances do. -/
theorem comesFirst_iff (needle first second : String) :
    ComesFirst needle first second ↔
      (⟨first, nameDistance needle first⟩ : Candidate) <
        ⟨second, nameDistance needle second⟩ := by
  simp [Candidate.lt_iff_key_lt, ComesFirst, Candidate.key, Prod.Lex.toLex_lt_toLex,
    nameDistance_eq, Text.bytes_lt_iff]

instance (needle : String) : Std.Irrefl (ComesFirst needle) where
  irrefl name := by
    rw [comesFirst_iff]
    exact lt_irrefl _

instance (needle : String) : Std.Antisymm (ComesFirst needle) where
  antisymm first second before after := by
    rw [comesFirst_iff] at before after
    exact absurd after (lt_asymm before)

theorem IsRanking.unique {needle : String} {names ranked other : List String}
    (ranking : IsRanking needle names ranked) (otherRanking : IsRanking needle names other) :
    ranked = other :=
  ranking.ordered.eq_of_mem_iff otherRanking.ordered fun name =>
    (ranking.members name).trans (otherRanking.members name).symm

@[simp] theorem Candidate.mem_insert (candidate other : Candidate) (ranked : List Candidate) :
    other ∈ candidate.insert ranked ↔ other = candidate ∨ other ∈ ranked := by
  induction ranked with
  | nil => simp [Candidate.insert]
  | cons first rest inductionHypothesis =>
      rw [Candidate.insert]
      split_ifs with same before
      · simp [same]
      · simp
      · simp [inductionHypothesis, or_left_comm]

/-- A candidate is put where the order stays strict. -/
theorem Candidate.pairwise_insert (candidate : Candidate) {ranked : List Candidate}
    (ordered : ranked.Pairwise (· < ·)) : (candidate.insert ranked).Pairwise (· < ·) := by
  induction ordered with
  | nil => exact List.pairwise_singleton _ _
  | @cons first rest below ordered inductionHypothesis =>
      rw [Candidate.insert]
      split_ifs with same before
      · exact .cons below ordered
      · rw [Candidate.comesBefore_iff] at before
        refine .cons ?_ (.cons below ordered)
        intro other present
        rcases List.mem_cons.1 present with isFirst | later
        · rwa [isFirst]
        · exact before.trans (below other later)
      · rw [Candidate.comesBefore_iff, not_lt] at before
        have after : first < candidate := lt_of_le_of_ne before (Ne.symm same)
        refine .cons ?_ inductionHypothesis
        intro other present
        rcases (candidate.mem_insert other rest).1 present with isCandidate | later
        · rwa [isCandidate]
        · exact below other later

@[simp] theorem Candidate.mem_ranking (candidate : Candidate) (candidates : List Candidate) :
    candidate ∈ ranking candidates ↔ candidate ∈ candidates := by
  induction candidates with
  | nil => rfl
  | cons first rest inductionHypothesis =>
      rw [List.mem_cons, ← inductionHypothesis]
      exact Candidate.mem_insert first candidate (ranking rest)

theorem Candidate.sorted_ranking (candidates : List Candidate) : (ranking candidates).SortedLT := by
  rw [List.sortedLT_iff_pairwise]
  induction candidates with
  | nil => exact .nil
  | cons first rest inductionHypothesis => exact first.pairwise_insert inductionHypothesis

/-- It comes to the same to sort the candidates and then to leave out each that repeats the one
before. -/
theorem Candidate.ranking_eq_destutter (candidates : List Candidate) :
    ranking candidates =
      (candidates.mergeSort fun first second => !second.comesBefore first).destutter (· ≠ ·) := by
  have upward (first second : Candidate) :
      (!second.comesBefore first) = true ↔ first ≤ second := by
    rw [Bool.not_eq_true', ← Bool.not_eq_true, comesBefore_iff, not_lt]
  have sorted : (candidates.mergeSort fun first second => !second.comesBefore first).Pairwise
      (· ≤ ·) := by
    refine (List.pairwise_mergeSort ?_ ?_ candidates).imp (upward _ _).1
    · intro first second third
      rw [upward, upward, upward]
      exact le_trans
    · intro first second
      rw [Bool.or_eq_true, upward, upward]
      exact le_total first second
  rw [sorted.destutter_eq_dedup]
  have distinct := (sorted.sublist (List.dedup_sublist _)).and (List.nodup_dedup _)
  have strict := distinct.imp fun below => lt_of_le_of_ne below.1 below.2
  exact (sorted_ranking candidates).eq_of_mem_iff strict.sortedLT fun candidate => by simp

theorem Candidate.of?_eq_some_iff (needle name : String) (candidate : Candidate) :
    Candidate.of? needle name = some candidate ↔
      Eligible needle name ∧ candidate = ⟨name, nameDistance needle name⟩ := by
  rw [Candidate.of?, eligible_iff]
  simp [eq_comm]

/-- These are the candidates among known names, in their order. -/
def candidatesFor (needle : String) (names : List String) : List Candidate :=
  Candidate.ranking (names.filterMap (Candidate.of? needle))

theorem mem_candidatesFor (needle : String) (names : List String) (candidate : Candidate) :
    candidate ∈ candidatesFor needle names ↔
      candidate.name ∈ names ∧ Eligible needle candidate.name ∧
        candidate.distance = nameDistance needle candidate.name := by
  rw [candidatesFor, Candidate.mem_ranking, List.mem_filterMap]
  constructor
  · intro ⟨name, known, chosen⟩
    obtain ⟨eligible, rfl⟩ := (Candidate.of?_eq_some_iff needle name candidate).1 chosen
    exact ⟨known, eligible, rfl⟩
  · intro ⟨known, eligible, far⟩
    refine ⟨candidate.name, known, ?_⟩
    rw [Candidate.of?_eq_some_iff]
    exact ⟨eligible, by rw [← far]⟩

/-- The names of the candidates are a ranking of the known names. -/
theorem isRanking_candidatesFor (needle : String) (names : List String) :
    IsRanking needle names ((candidatesFor needle names).map Candidate.name) := by
  constructor
  · rw [List.pairwise_map]
    refine (Candidate.sorted_ranking _).pairwise.imp_of_mem ?_
    intro first second firstPresent secondPresent before
    obtain ⟨-, -, firstFar⟩ := (mem_candidatesFor needle names first).1 firstPresent
    obtain ⟨-, -, secondFar⟩ := (mem_candidatesFor needle names second).1 secondPresent
    rwa [comesFirst_iff, ← firstFar, ← secondFar]
  · intro name
    rw [List.mem_map]
    constructor
    · intro ⟨candidate, present, named⟩
      obtain ⟨known, eligible, -⟩ := (mem_candidatesFor needle names candidate).1 present
      exact named ▸ ⟨known, eligible⟩
    · intro ⟨known, eligible⟩
      exact ⟨⟨name, nameDistance needle name⟩,
        (mem_candidatesFor needle names _).2 ⟨known, eligible, rfl⟩, rfl⟩

theorem suggestions_eq_take {needle : String} (needed : needle ≠ "") {names ranked : List String}
    (ranking : IsRanking needle names ranked) : suggestions needle names = ranked.take 3 := by
  rw [ranking.unique (isRanking_candidatesFor needle names), suggestions, if_neg needed,
    List.map_take]
  rfl

/-- The known names count as a set. -/
theorem suggestions_congr (needle : String) {names others : List String}
    (same : ∀ name, name ∈ others ↔ name ∈ names) :
    suggestions needle others = suggestions needle names := by
  by_cases needed : needle = ""
  · rw [suggestions, suggestions, if_pos needed, if_pos needed]
  · have ranking := isRanking_candidatesFor needle names
    have otherRanking : IsRanking needle others ((candidatesFor needle names).map Candidate.name) :=
      ⟨ranking.ordered, fun name => by rw [ranking.members, same]⟩
    rw [suggestions_eq_take needed ranking, suggestions_eq_take needed otherRanking]

theorem mem_of_mem_suggestions {needle name : String} {names : List String}
    (suggested : name ∈ suggestions needle names) : name ∈ names := by
  by_cases needed : needle = ""
  · simp [suggestions, needed] at suggested
  · have ranking := isRanking_candidatesFor needle names
    rw [suggestions_eq_take needed ranking] at suggested
    exact ((ranking.members name).1 (List.mem_of_mem_take suggested)).1

theorem TypeExpr.problems_congr {known others : List String}
    (same : ∀ name, name ∈ others ↔ name ∈ known) (type : TypeExpr Mark) :
    type.problems others = type.problems known := by
  have own : @TypeExpr.ownReport Mark others = TypeExpr.ownReport known := by
    funext part
    cases part with
    | reference named =>
        simp only [TypeExpr.ownReport, same, suggestions_congr named.name.text same]
    | _ => rfl
  rw [TypeExpr.problems_eq, TypeExpr.problems_eq, own]

/-- A document has the same problems if its declared names are listed otherwise. -/
theorem Document.problemsAmong_eq {document : Document Mark} {known : List String}
    (same : ∀ name, name ∈ known ↔ name ∈ document.declaredNames) :
    document.problemsAmong known = document.problems := by
  have types : @TypeExpr.problems Mark known = TypeExpr.problems document.declaredNames :=
    funext (TypeExpr.problems_congr same)
  rw [Document.problemsAmong, Document.problems, Document.typeProblems, types]

/-- Whatever is unknown is reported with the suggestions for it. -/
def Problem.SuggestsAmong (known : List String) (problem : Problem Mark) : Prop :=
  ∀ name shown, problem.fault = .unknownType name shown → shown = suggestions name known

theorem Definition.suggestsAmong_of_mem_nameReport {definition : Definition Mark}
    {earlierNames known : List String} {problem : Problem Mark}
    (present : problem ∈ definition.nameReport earlierNames) : problem.SuggestsAmong known := by
  intro name shown stated
  simp only [Definition.nameReport, List.mem_append, List.mem_ite_nil_right, List.mem_singleton,
    Field.repeatedReport, List.mem_flatMap] at present
  rcases present with (⟨-, rfl⟩ | ⟨-, rfl⟩) | ⟨_, -, -, rfl⟩ <;> cases stated

theorem TypeExpr.suggestsAmong_of_mem_ownReport {known : List String} {type : TypeExpr Mark}
    {problem : Problem Mark} (present : problem ∈ type.ownReport known) :
    problem.SuggestsAmong known := by
  intro name shown stated
  cases type with
  | liveMap _ key _ =>
      simp only [TypeExpr.ownReport, List.mem_ite_nil_left, List.mem_singleton] at present
      obtain ⟨-, rfl⟩ := present
      cases stated
  | reference named =>
      simp only [TypeExpr.ownReport, List.mem_ite_nil_left, List.mem_singleton] at present
      obtain ⟨-, rfl⟩ := present
      cases stated
      rfl
  | _ => simp [TypeExpr.ownReport] at present

theorem Document.suggestsAmong_of_mem_cycleProblems {document : Document Mark}
    {known : List String} {problem : Problem Mark} (present : problem ∈ document.cycleProblems) :
    problem.SuggestsAmong known := by
  intro name shown stated
  have cyclic := Document.isStaticCycle_of_mem_cycleProblems present
  rw [Problem.isStaticCycle, stated] at cyclic
  cases cyclic

theorem Document.suggestsAmong_of_mem_reported {document : Document Mark}
    {problem : Problem Mark} (present : problem ∈ document.reported) :
    problem.SuggestsAmong document.declaredNames := by
  simp only [Document.reported_eq_append, Document.earlierReport, List.mem_append,
    List.mem_ite_nil_left, List.mem_singleton, Document.nameReport, Document.typeReport,
    List.mem_flatMap] at present
  rcases present with ((inNames | missing) | inTypes) | inCycles
  · obtain ⟨_, -, present⟩ := inNames
    exact Definition.suggestsAmong_of_mem_nameReport present
  · intro name shown stated
    rw [missing.2] at stated
    cases stated
  · obtain ⟨_, -, _, -, _, -, present⟩ := inTypes
    exact TypeExpr.suggestsAmong_of_mem_ownReport present
  · exact Document.suggestsAmong_of_mem_cycleProblems inCycles

/-- To suggest names, the candidates are sorted, each that repeats the one before is left out, and
the first three are kept. -/
theorem suggestions_eq_mergeSort {needle : String} (needed : needle ≠ "") (names : List String) :
    suggestions needle names =
      ((((names.filterMap (Candidate.of? needle)).mergeSort fun first second =>
        !second.comesBefore first).destutter (· ≠ ·)).take 3).map Candidate.name := by
  rw [suggestions, if_neg needed, Candidate.ranking_eq_destutter]

/-- The suggestions for a name are the first three of its ranking, and there is only one ranking.
They are found by sorting and leaving out repetitions. They are the same for all lists of the same
known names, and so is their wording. Therefore what is reported of a document is the same for all
lists of its declared names, and all that is suggested there is declared. -/
theorem suggestions_nearest (needle : String) (names others : List String)
    (document : Document Mark) (known : List String) (needed : needle ≠ "")
    (same : ∀ name, name ∈ others ↔ name ∈ names)
    (listed : ∀ name, name ∈ known ↔ document.declares name = true) :
    (∃! ranked, IsRanking needle names ranked) ∧
    (∀ ranked, IsRanking needle names ranked → suggestions needle names = ranked.take 3) ∧
    suggestions needle names =
      ((((names.filterMap (Candidate.of? needle)).mergeSort fun first second =>
        !second.comesBefore first).destutter (· ≠ ·)).take 3).map Candidate.name ∧
    suggestions needle others = suggestions needle names ∧
    hint? (suggestions needle others) = hint? (suggestions needle names) ∧
    document.reported = document.problemsAmong known ∧
    ∀ problem ∈ document.reported, ∀ name shown, problem.fault = .unknownType name shown →
      shown = suggestions name known ∧
        ∀ suggestion ∈ shown, document.declares suggestion = true := by
  have ranking := isRanking_candidatesFor needle names
  have sameSuggestions := suggestions_congr needle same
  have sameKnown (name : String) : name ∈ known ↔ name ∈ document.declaredNames :=
    (listed name).trans (document.mem_declaredNames name).symm
  refine ⟨⟨_, ranking, fun _ otherRanking => otherRanking.unique ranking⟩,
    fun _ ranking => suggestions_eq_take needed ranking, suggestions_eq_mergeSort needed names,
    sameSuggestions,
    congrArg hint? sameSuggestions, ?_, ?_⟩
  · rw [Document.problemsAmong_eq sameKnown, Document.reported_eq]
  · intro problem present name shown stated
    have suggested : shown = suggestions name known := by
      rw [suggestions_congr name sameKnown]
      exact Document.suggestsAmong_of_mem_reported present name shown stated
    refine ⟨suggested, fun suggestion isShown => (listed suggestion).1 ?_⟩
    exact mem_of_mem_suggestions (suggested ▸ isShown)

/-- Here `Shapes` comes fourth, `Storage` is too far, and the other names are listed once more and
the other way around. -/
theorem suggestions_nearest_of_four :
    ∃ document,
      Document.ofText false "type Storage {a: Shap} type Shapes {} type Shame {}
        type Shape {} type SHAP {} type Shape {}" = .ok document ∧
      suggestions "Shap" ["SHAP", "Shape", "Shame", "Shapes", "Storage"] =
        ["SHAP", "Shape", "Shame"] ∧
      suggestions "Shap" ["Storage", "Shapes", "Shame", "Shape", "SHAP", "Shape"] =
        suggestions "Shap" ["SHAP", "Shape", "Shame", "Shapes", "Storage"] ∧
      document.reported.map Problem.fault =
        [.repeatedType "Shape", .unknownType "Shap" ["SHAP", "Shape", "Shame"]] ∧
      document.reported =
        document.problemsAmong ["SHAP", "Shape", "Shame", "Shapes", "Storage"] := by
  apply Document.exists_of_text
    (fun document => (document.declaredNames, document.reported.map Problem.fault))
    (["Storage", "Shapes", "Shame", "Shape", "SHAP", "Shape"],
      [.repeatedType "Shape", .unknownType "Shap" ["SHAP", "Shape", "Shame"]])
  · decide +kernel
  · intro document _ viewed
    simp only [Prod.mk.injEq] at viewed
    obtain ⟨names, faults⟩ := viewed
    have same (name : String) :
        name ∈ ["Storage", "Shapes", "Shame", "Shape", "SHAP", "Shape"] ↔
          name ∈ ["SHAP", "Shape", "Shame", "Shapes", "Storage"] := by
      simp only [List.mem_cons, List.not_mem_nil, or_false]
      tauto
    have listed (name : String) :
        name ∈ ["SHAP", "Shape", "Shame", "Shapes", "Storage"] ↔
          document.declares name = true := by
      rw [← document.mem_declaredNames, names, same]
    obtain ⟨-, -, -, sameSuggestions, -, sameProblems, -⟩ :=
      suggestions_nearest "Shap" _ _ document _ (by decide) same listed
    exact ⟨by decide +kernel, sameSuggestions, faults, sameProblems⟩

end StorageSchema
