/-
This file proves that the index of a text gives every offset the position that is counted. The
checkpoints divide the text into chunks, none of which goes on after a line feed, and the search
picks the chunk that holds the offset.
-/
import StorageSchema.Proofs.Text.Position
import StorageSchema.Text.CheckpointIndex

namespace StorageSchema.Text

/-- A checkpoint stands between the text before it and its chunk. It holds the widths of the first
characters of the chunk, and the others are one byte wide. -/
structure Checkpoint.Opens (checkpoint : Checkpoint) (before chunk : List Char) : Prop where
  offset : checkpoint.offset = size before
  position : checkpoint.position = before.foldl Position.next ⟨0, 0⟩
  widths : ∃ recorded plain, chunk = recorded ++ plain ∧
    checkpoint.widths = recorded.map Char.utf8Size ∧ ∀ letter ∈ plain, letter.utf8Size = 1

/-- Checkpoints divide what follows a text into chunks. A line feed ends its chunk, and only the
last chunk may be empty. -/
inductive Checkpoint.Divide : List Char → List Checkpoint → List Char → Prop where
  | last {before chunk : List Char} {checkpoint : Checkpoint} :
      checkpoint.Opens before chunk → '\n' ∉ chunk → Divide before [checkpoint] chunk
  | cons {before chunk rest : List Char} {checkpoint : Checkpoint}
      {others : List Checkpoint} : checkpoint.Opens before chunk → chunk ≠ [] →
      '\n' ∉ chunk.dropLast → Divide (before ++ chunk) others rest →
      Divide before (checkpoint :: others) (chunk ++ rest)

/-! ### Construction -/

/-- A survey has passed the text before its open chunk and two parts of that chunk, of which only
the first is recorded. -/
structure Survey.Stands (survey : Survey) (before recorded plain : List Char) : Prop where
  offset : survey.offset = size before
  position : survey.position = before.foldl Position.next ⟨0, 0⟩
  widths : survey.widths = (recorded.map Char.utf8Size).reverse
  recordedBytes : survey.recorded = size recorded
  plainCount : survey.plain = plain.length
  narrow : ∀ letter ∈ plain, letter.utf8Size = 1
  current : survey.current = (before ++ (recorded ++ plain)).foldl Position.next ⟨0, 0⟩

theorem size_narrow {text : List Char} (narrow : ∀ letter ∈ text, letter.utf8Size = 1) :
    size text = text.length := by
  induction text with
  | nil => rfl
  | cons letter rest inductionHypothesis =>
      obtain ⟨first, others⟩ := List.forall_mem_cons.1 narrow
      rw [size_cons, first, inductionHypothesis others, List.length_cons, Nat.add_comm]

theorem Survey.stands_start : Survey.start.Stands [] [] [] :=
  ⟨rfl, rfl, rfl, rfl, rfl, List.forall_mem_nil _, rfl⟩

/-- The bytes that a survey has counted are those of the text that it has passed. -/
theorem Survey.Stands.counted {survey : Survey} {before recorded plain : List Char}
    (stands : survey.Stands before recorded plain) :
    survey.offset + survey.recorded + survey.plain = size (before ++ (recorded ++ plain)) := by
  rw [stands.offset, stands.recordedBytes, stands.plainCount, size_append, size_append,
    size_narrow stands.narrow, Nat.add_assoc]

theorem Survey.Stands.opens {survey : Survey} {before recorded plain : List Char}
    (stands : survey.Stands before recorded plain) :
    survey.checkpoint.Opens before (recorded ++ plain) := by
  refine ⟨stands.offset, stands.position, recorded, plain, rfl, ?_, stands.narrow⟩
  rw [Survey.checkpoint, stands.widths, List.reverse_reverse]

theorem Survey.Stands.divide {survey : Survey} {before recorded plain : List Char}
    (stands : survey.Stands before recorded plain) :
    survey.divide.Stands (before ++ (recorded ++ plain)) [] [] := by
  constructor
  · exact stands.counted
  · exact stands.current
  · rfl
  · rfl
  · rfl
  · exact List.forall_mem_nil _
  · rw [List.append_nil, List.append_nil]
    exact stands.current

/-- A character comes to the open chunk, whether it is recorded or not. -/
theorem Survey.Stands.pass {survey : Survey} {before recorded plain : List Char}
    (stands : survey.Stands before recorded plain) (letter : Char) :
    ∃ recorded' plain', recorded' ++ plain' = recorded ++ plain ++ [letter] ∧
      (survey.pass letter).Stands before recorded' plain' ∧
      (survey.pass letter).finished = survey.finished := by
  have current : survey.current.next letter =
      (before ++ (recorded ++ plain ++ [letter])).foldl Position.next ⟨0, 0⟩ := by
    simp [stands.current, List.foldl_append]
  by_cases wide : 1 < letter.utf8Size
  · have ones : List.replicate plain.length 1 = (plain.map Char.utf8Size).reverse := by
      symm
      rw [List.eq_replicate_iff]
      constructor
      · simp
      · intro width present
        obtain ⟨other, isPlain, rfl⟩ := List.mem_map.1 (List.mem_reverse.1 present)
        exact stands.narrow other isPlain
    refine ⟨recorded ++ plain ++ [letter], [], List.append_nil _, ?_, ?_⟩
    · rw [Survey.pass, if_pos wide]
      constructor
      · exact stands.offset
      · exact stands.position
      · simp [stands.widths, stands.plainCount, ones]
      · simp [stands.recordedBytes, stands.plainCount, size_narrow stands.narrow, Nat.add_assoc]
      · rfl
      · exact List.forall_mem_nil _
      · rw [List.append_nil]
        exact current
    · rw [Survey.pass, if_pos wide]
  · refine ⟨recorded, plain ++ [letter], (List.append_assoc _ _ _).symm, ?_, ?_⟩
    · rw [Survey.pass, if_neg wide]
      constructor
      · exact stands.offset
      · exact stands.position
      · exact stands.widths
      · exact stands.recordedBytes
      · simp [stands.plainCount]
      · have narrow : letter.utf8Size = 1 := by
          have positive := letter.utf8Size_pos
          omega
        intro other present
        rcases List.mem_append.1 present with earlier | last
        · exact stands.narrow other earlier
        · rw [List.mem_singleton.1 last, narrow]
      · rw [← List.append_assoc recorded plain]
        exact current
    · rw [Survey.pass, if_neg wide]

theorem Survey.Stands.add {survey : Survey} {before recorded plain : List Char}
    (stands : survey.Stands before recorded plain) (limit : Nat) (letter : Char) :
    ∃ before' recorded' plain',
      before' ++ (recorded' ++ plain') = before ++ (recorded ++ plain) ++ [letter] ∧
      (survey.add limit letter).Stands before' recorded' plain' := by
  have passed {survey : Survey} {before recorded plain : List Char}
      (stands : survey.Stands before recorded plain) :
      ∃ before' recorded' plain',
        before' ++ (recorded' ++ plain') = before ++ (recorded ++ plain) ++ [letter] ∧
        (if letter = '\n' ∨ limit < (survey.pass letter).recorded then
          (survey.pass letter).divide else survey.pass letter).Stands before' recorded' plain' := by
    obtain ⟨recorded', plain', joined, next, -⟩ := stands.pass letter
    have whole : before ++ (recorded' ++ plain') = before ++ (recorded ++ plain) ++ [letter] := by
      rw [joined, List.append_assoc before]
    split
    · exact ⟨before ++ (recorded' ++ plain'), [], [], by simpa using whole, next.divide⟩
    · exact ⟨before, recorded', plain', whole, next⟩
  rw [Survey.add]
  split
  · simpa using passed stands.divide
  · exact passed stands

/-- After every beginning of a text the survey stands at its end. -/
theorem Survey.exists_stands (limit : Nat) (text : List Char) :
    ∃ before recorded plain, before ++ (recorded ++ plain) = text ∧
      (text.foldl (Survey.add limit) Survey.start).Stands before recorded plain := by
  induction text using List.reverseRecOn with
  | nil => exact ⟨[], [], [], rfl, Survey.stands_start⟩
  | append_singleton earlier letter inductionHypothesis =>
      obtain ⟨before, recorded, plain, rfl, stands⟩ := inductionHypothesis
      rw [List.foldl_append]
      exact stands.add limit letter

/-- The final survey has divided the text from the open chunk of an earlier survey on. -/
def Survey.Completes (final survey : Survey) (before text : List Char) : Prop :=
  ∃ checkpoints, Checkpoint.Divide before checkpoints text ∧
    (final.checkpoint :: final.finished).reverse = survey.finished.reverse ++ checkpoints

/-- Where the open chunk ends, its checkpoint is the first of those that follow. -/
theorem Survey.Stands.completes_divide {survey final : Survey}
    {before recorded plain rest : List Char} (stands : survey.Stands before recorded plain)
    (nonempty : recorded ++ plain ≠ []) (line : '\n' ∉ (recorded ++ plain).dropLast)
    (later : final.Completes survey.divide (before ++ (recorded ++ plain)) rest) :
    final.Completes survey before (recorded ++ plain ++ rest) := by
  obtain ⟨checkpoints, divide, listed⟩ := later
  refine ⟨survey.checkpoint :: checkpoints, .cons stands.opens nonempty line divide, ?_⟩
  rw [listed]
  simp [Survey.divide]

/-- The rest of a text is divided from the open chunk on. -/
theorem Survey.Stands.completes_foldl (limit : Nat) {survey : Survey}
    {before recorded plain : List Char} (stands : survey.Stands before recorded plain)
    (line : '\n' ∉ recorded ++ plain) (rest : List Char) :
    (rest.foldl (Survey.add limit) survey).Completes survey before
      (recorded ++ plain ++ rest) := by
  induction rest generalizing survey before recorded plain with
  | nil =>
      refine ⟨[survey.checkpoint], ?_, by simp⟩
      rw [List.append_nil]
      exact .last stands.opens line
  | cons letter rest inductionHypothesis =>
      -- A chunk may end before the letter or after it, and the letter comes to a chunk in between.
      have passed {survey : Survey} {before recorded plain : List Char}
          (stands : survey.Stands before recorded plain) (line : '\n' ∉ recorded ++ plain) :
          (rest.foldl (Survey.add limit)
            (if letter = '\n' ∨ limit < (survey.pass letter).recorded then
              (survey.pass letter).divide else survey.pass letter)).Completes survey before
            (recorded ++ plain ++ letter :: rest) := by
        obtain ⟨recorded', plain', joined, next, finished⟩ := stands.pass letter
        have whole : recorded ++ plain ++ letter :: rest = recorded' ++ plain' ++ rest := by
          rw [joined]
          simp
        rw [whole]
        have same (final : Survey) (completes : final.Completes (survey.pass letter) before
            (recorded' ++ plain' ++ rest)) :
            final.Completes survey before (recorded' ++ plain' ++ rest) := by
          rwa [Survey.Completes, finished] at completes
        apply same
        split
        · apply next.completes_divide
          · simp [joined]
          · rwa [joined, List.dropLast_concat]
          · exact inductionHypothesis next.divide (List.not_mem_nil)
        · next goesOn =>
            apply inductionHypothesis next
            rw [joined, List.mem_append, List.mem_singleton]
            rintro (earlier | feed)
            · exact line earlier
            · exact goesOn (.inl feed.symm)
      rw [List.foldl_cons, Survey.add]
      split
      · next full =>
          apply stands.completes_divide
          · intro empty
            have none : plain = [] := (List.append_eq_nil_iff.1 empty).2
            rw [stands.plainCount, none] at full
            exact absurd full.2 (Nat.not_lt_zero limit)
          · exact fun present => line (List.dropLast_subset _ present)
          · exact passed stands.divide List.not_mem_nil
      · exact passed stands line

/-- These are the checkpoints of an index in the order of the text. -/
def CheckpointIndex.checkpoints (index : CheckpointIndex) : List Checkpoint :=
  index.first :: index.others.toList

theorem CheckpointIndex.divide_ofText (limit : Nat) (text : List Char) :
    Checkpoint.Divide [] (CheckpointIndex.ofText limit text).checkpoints text := by
  obtain ⟨checkpoints, divide, listed⟩ :=
    Survey.stands_start.completes_foldl limit List.not_mem_nil text
  have same : (CheckpointIndex.ofText limit text).checkpoints = checkpoints := by
    rw [CheckpointIndex.checkpoints, CheckpointIndex.ofText]
    simp only [listed]
    cases divide <;> rfl
  rwa [same]

/-! ### Search -/

theorem Checkpoint.Divide.le_offset {before text : List Char} {checkpoints : List Checkpoint}
    (divide : Checkpoint.Divide before checkpoints text) :
    ∀ checkpoint ∈ checkpoints, size before ≤ checkpoint.offset := by
  induction divide with
  | last opens _ => simp [opens.offset]
  | cons opens _ _ _ inductionHypothesis =>
      intro checkpoint present
      rcases List.mem_cons.1 present with rfl | later
      · exact opens.offset.ge
      · have below := inductionHypothesis checkpoint later
        rw [size_append] at below
        omega

theorem Checkpoint.Divide.exists_first {before text : List Char} {checkpoints : List Checkpoint}
    (divide : Checkpoint.Divide before checkpoints text) :
    ∃ first others, checkpoints = first :: others ∧ first.offset = size before := by
  cases divide with
  | last opens _ => exact ⟨_, _, rfl, opens.offset⟩
  | cons opens _ _ _ => exact ⟨_, _, rfl, opens.offset⟩

theorem size_pos_of_ne_nil {text : List Char} (nonempty : text ≠ []) : 0 < size text := by
  cases text with
  | nil => exact absurd rfl nonempty
  | cons letter rest => exact Nat.add_pos_left letter.utf8Size_pos _

/-- The checkpoints stand one after the other. -/
theorem Checkpoint.Divide.pairwise {before text : List Char} {checkpoints : List Checkpoint}
    (divide : Checkpoint.Divide before checkpoints text) :
    checkpoints.Pairwise fun first second => first.offset < second.offset := by
  induction divide with
  | last _ _ => exact List.pairwise_singleton _ _
  | cons opens nonempty _ rest inductionHypothesis =>
      apply List.Pairwise.cons
      · intro later present
        have below := rest.le_offset later present
        have positive := size_pos_of_ne_nil nonempty
        rw [size_append] at below
        rw [opens.offset]
        omega
      · exact inductionHypothesis

theorem Checkpoint.offset_lt {checkpoints : Array Checkpoint}
    (ordered : checkpoints.toList.Pairwise fun first second => first.offset < second.offset)
    {first second : Nat} (before : first < second) (inside : second < checkpoints.size) :
    checkpoints[first].offset < checkpoints[second].offset := by
  have pair := List.pairwise_iff_getElem.1 ordered first second
    (by simpa using before.trans inside) (by simpa using inside) before
  simpa using pair

/-- The search finds where the checkpoints begin to stand after the offset. -/
theorem countUpTo_spec {checkpoints : Array Checkpoint} {offset : Nat}
    (ordered : checkpoints.toList.Pairwise fun first second => first.offset < second.offset)
    (low high : Nat) (within : high ≤ checkpoints.size) (placed : low ≤ high)
    (below : ∀ place, place < low → ∀ inside : place < checkpoints.size,
      checkpoints[place].offset ≤ offset)
    (above : ∀ place, high ≤ place → ∀ inside : place < checkpoints.size,
      offset < checkpoints[place].offset) :
    countUpTo checkpoints offset low high within ≤ checkpoints.size ∧
      (∀ place, place < countUpTo checkpoints offset low high within →
        ∀ inside : place < checkpoints.size, checkpoints[place].offset ≤ offset) ∧
      ∀ place, countUpTo checkpoints offset low high within ≤ place →
        ∀ inside : place < checkpoints.size, offset < checkpoints[place].offset := by
  induction low, high, within using countUpTo.induct checkpoints offset with
  | case1 low high within unfinished inside isBefore inductionHypothesis =>
      rw [countUpTo, dif_pos unfinished, if_pos isBefore]
      apply inductionHypothesis
      · omega
      · intro place before valid
        rcases Nat.lt_or_eq_of_le (Nat.le_of_lt_succ before) with earlier | rfl
        · exact (Checkpoint.offset_lt ordered earlier inside).le.trans isBefore
        · exact isBefore
      · exact above
  | case2 low high within unfinished inside isAfter inductionHypothesis =>
      rw [countUpTo, dif_pos unfinished, if_neg isAfter]
      apply inductionHypothesis
      · omega
      · exact below
      · intro place after valid
        rcases Nat.lt_or_eq_of_le after with later | rfl
        · exact (Nat.lt_of_not_le isAfter).trans (Checkpoint.offset_lt ordered later valid)
        · exact Nat.lt_of_not_le isAfter
  | case3 low high within finished =>
      rw [countUpTo, dif_neg finished]
      obtain rfl : low = high := by omega
      exact ⟨within, below, above⟩

/-- The chosen checkpoint is the last that does not stand after the offset. -/
theorem CheckpointIndex.exists_checkpointFor (index : CheckpointIndex) (offset : Nat)
    (ordered : index.checkpoints.Pairwise fun first second => first.offset < second.offset) :
    ∃ earlier later, index.checkpoints = earlier ++ index.checkpointFor offset :: later ∧
      (earlier ≠ [] → (index.checkpointFor offset).offset ≤ offset) ∧
      ∀ checkpoint ∈ later, offset < checkpoint.offset := by
  obtain ⟨within, below, above⟩ := @countUpTo_spec index.others offset
    (List.pairwise_cons.1 ordered).2 0 index.others.size (Nat.le_refl _) (Nat.zero_le _)
    (fun place before => absurd before (Nat.not_lt_zero place))
    (fun place after inside => absurd inside (Nat.not_lt.2 after))
  have later (count : Nat) (found : countUpTo index.others offset 0 index.others.size
      (Nat.le_refl _) = count) :
      ∀ checkpoint ∈ index.others.toList.drop count, offset < checkpoint.offset := by
    intro checkpoint present
    obtain ⟨place, inside, rfl⟩ := List.mem_iff_getElem.1 present
    rw [List.getElem_drop, Array.getElem_toList]
    apply above
    omega
  rw [CheckpointIndex.checkpointFor]
  split
  · next found =>
      refine ⟨[], index.others.toList, rfl, fun nonempty => absurd rfl nonempty, ?_⟩
      exact later 0 found
  · next count found =>
      have inside : count < index.others.size := by omega
      have chosen : index.others[count]?.getD index.first = index.others[count] := by
        rw [Array.getElem?_eq_getElem inside, Option.getD_some]
      rw [chosen]
      refine ⟨index.first :: index.others.toList.take count,
        index.others.toList.drop (count + 1), ?_, fun _ => below count (by omega) inside,
        later _ found⟩
      have listed : count < index.others.toList.length := by simpa using inside
      rw [CheckpointIndex.checkpoints, List.cons_append, ← Array.getElem_toList inside,
        List.getElem_cons_drop, List.take_append_drop]

/-! ### Counting inside a chunk -/

/-- There is one bit for each byte. It is set where the byte does not end its character. -/
def skipBits (widths : List Nat) : List Bool :=
  widths.flatMap fun width => List.replicate (width - 1) true ++ [false]

theorem length_skipBits_map (text : List Char) :
    (skipBits (text.map Char.utf8Size)).length = size text := by
  induction text with
  | nil => rfl
  | cons letter rest inductionHypothesis =>
      have positive := letter.utf8Size_pos
      rw [skipBits] at inductionHypothesis ⊢
      rw [List.map_cons, List.flatMap_cons, List.length_append, inductionHypothesis, size_cons,
        List.length_append, List.length_replicate, List.length_singleton]
      omega

/-- The columns of a record are its clear bits before the distance, and then the bytes after it. -/
theorem columnsWithin_eq_count (text : List Char) (distance : Nat) :
    columnsWithin (text.map Char.utf8Size) distance =
      ((skipBits (text.map Char.utf8Size)).take distance).count false +
        (distance - (skipBits (text.map Char.utf8Size)).length) := by
  rw [length_skipBits_map]
  induction text generalizing distance with
  | nil => simp [columnsWithin, skipBits]
  | cons letter rest inductionHypothesis =>
      have positive := letter.utf8Size_pos
      have bits : skipBits ((letter :: rest).map Char.utf8Size) =
          List.replicate (letter.utf8Size - 1) true ++
            false :: skipBits (rest.map Char.utf8Size) := by
        simp [skipBits]
      rw [bits, List.map_cons, columnsWithin, size_cons, List.take_append, List.count_append,
        List.length_replicate, List.take_replicate, List.count_replicate]
      split
      · next inside =>
          rw [show distance - (letter.utf8Size - 1) = 0 by omega,
            show distance - (letter.utf8Size + size rest) = 0 by omega]
          rfl
      · next passed =>
          rw [show distance - (letter.utf8Size - 1) = distance - letter.utf8Size + 1 by omega,
            List.take_succ_cons, List.count_cons, inductionHypothesis, Nat.sub_sub]
          simp
          omega

theorem columnsWithin_narrow {plain : List Char}
    (narrow : ∀ letter ∈ plain, letter.utf8Size = 1) (distance : Nat) :
    columnsWithin (plain.map Char.utf8Size) distance = distance := by
  induction plain generalizing distance with
  | nil => rfl
  | cons letter rest inductionHypothesis =>
      obtain ⟨first, others⟩ := List.forall_mem_cons.1 narrow
      rw [List.map_cons, columnsWithin, first, inductionHypothesis others]
      split <;> omega

/-- One-byte characters at the end of a chunk count the same whether they are recorded or not. -/
theorem columnsWithin_append {recorded plain : List Char}
    (narrow : ∀ letter ∈ plain, letter.utf8Size = 1) (distance : Nat) :
    columnsWithin ((recorded ++ plain).map Char.utf8Size) distance =
      columnsWithin (recorded.map Char.utf8Size) distance := by
  induction recorded generalizing distance with
  | nil => exact columnsWithin_narrow narrow distance
  | cons letter rest inductionHypothesis =>
      rw [List.cons_append, List.map_cons, List.map_cons, columnsWithin, columnsWithin,
        inductionHypothesis]

/-- The walk through a chunk stays on its row. It does not pass a line feed at the end of the chunk
unless it leaves the chunk. -/
theorem Position.walk_chunk (position : Position) {chunk rest : List Char} {distance : Nat}
    (line : '\n' ∉ chunk.dropLast)
    (stays : distance < size chunk ∨ '\n' ∉ chunk ∧ rest = []) :
    position.walk (chunk ++ rest) distance =
      ⟨position.row, position.column + columnsWithin (chunk.map Char.utf8Size) distance⟩ := by
  induction chunk generalizing position distance with
  | nil =>
      obtain ⟨-, rfl⟩ := stays.resolve_left (Nat.not_lt_zero distance)
      rfl
  | cons letter others inductionHypothesis =>
      rw [List.cons_append, Position.walk, List.map_cons, columnsWithin]
      split
      · rfl
      · next passed =>
          have same : letter ≠ '\n' := by
            rintro rfl
            rcases stays with inside | ⟨absent, -⟩
            · cases others with
              | nil => exact passed inside
              | cons next others => exact line List.mem_cons_self
            · exact absent List.mem_cons_self
          have rest : '\n' ∉ others.dropLast := by
            intro present
            cases others with
            | nil => exact absurd present List.not_mem_nil
            | cons next others => exact line (List.mem_cons_of_mem letter present)
          rw [Position.next, if_neg same, inductionHypothesis _ rest]
          · rw [Nat.add_assoc, Nat.add_comm 1]
          · rcases stays with inside | ⟨absent, isLast⟩
            · rw [size_cons] at inside
              left
              omega
            · right
              exact ⟨fun present => absent (List.mem_cons_of_mem letter present), isLast⟩

theorem Checkpoint.Opens.locate {before chunk rest : List Char} {checkpoint : Checkpoint}
    (opens : checkpoint.Opens before chunk) (line : '\n' ∉ chunk.dropLast) {distance : Nat}
    (stays : distance < size chunk ∨ '\n' ∉ chunk ∧ rest = []) :
    checkpoint.locate (size before + distance) =
      positionOf (before ++ (chunk ++ rest)) (size before + distance) := by
  obtain ⟨recorded, plain, rfl, widths, narrow⟩ := opens.widths
  rw [positionOf, Position.walk_append, Position.walk_chunk _ line stays, Checkpoint.locate,
    opens.offset, opens.position, widths, columnsWithin_append narrow, Nat.add_sub_cancel_left]

/-- Counting from the last checkpoint that does not stand after an offset finds its position. -/
theorem Checkpoint.Divide.locate {before text : List Char} {checkpoints : List Checkpoint}
    (divide : Checkpoint.Divide before checkpoints text) {earlier later : List Checkpoint}
    {chosen : Checkpoint} (listed : checkpoints = earlier ++ chosen :: later) {offset : Nat}
    (reached : chosen.offset ≤ offset)
    (after : ∀ checkpoint ∈ later, offset < checkpoint.offset) :
    chosen.locate offset = positionOf (before ++ text) offset := by
  induction divide generalizing earlier with
  | @last before chunk checkpoint opens line =>
      obtain ⟨rfl, rfl, rfl⟩ : earlier = [] ∧ checkpoint = chosen ∧ later = [] := by
        cases earlier <;> simp_all
      rw [opens.offset] at reached
      obtain ⟨distance, rfl⟩ := Nat.exists_eq_add_of_le reached
      have inLine : '\n' ∉ chunk.dropLast := fun present => line (List.dropLast_subset _ present)
      have located := opens.locate inLine (.inr ⟨line, rfl⟩ : distance < size chunk ∨ _ ∧ [] = [])
      rwa [List.append_nil] at located
  | @cons before chunk rest checkpoint others opens nonempty line divide inductionHypothesis =>
      cases earlier with
      | nil =>
          obtain ⟨rfl, rfl⟩ := List.cons.inj listed
          rw [opens.offset] at reached
          obtain ⟨distance, rfl⟩ := Nat.exists_eq_add_of_le reached
          apply opens.locate line
          left
          -- The next checkpoint stands at the end of the chunk.
          obtain ⟨next, others, rfl, stands⟩ := divide.exists_first
          have later := after next List.mem_cons_self
          rw [stands, size_append] at later
          omega
      | cons first earlier =>
          obtain ⟨-, listed⟩ := List.cons.inj listed
          rw [← List.append_assoc]
          exact inductionHypothesis listed

theorem Checkpoint.Divide.exists_widths {before text : List Char} {checkpoints : List Checkpoint}
    (divide : Checkpoint.Divide before checkpoints text) :
    ∀ checkpoint ∈ checkpoints,
      ∃ recorded : List Char, checkpoint.widths = recorded.map Char.utf8Size := by
  have single {checkpoint : Checkpoint} {before chunk : List Char}
      (opens : checkpoint.Opens before chunk) :
      ∃ recorded : List Char, checkpoint.widths = recorded.map Char.utf8Size := by
    obtain ⟨recorded, plain, -, widths, -⟩ := opens.widths
    exact ⟨recorded, widths⟩
  induction divide with
  | last opens _ =>
      rw [List.forall_mem_singleton]
      exact single opens
  | cons opens _ _ _ inductionHypothesis =>
      rw [List.forall_mem_cons]
      exact ⟨single opens, inductionHypothesis⟩

/-- The chosen checkpoint is the last of an index that does not stand after the offset. -/
theorem CheckpointIndex.chosen_ofText (limit : Nat) (text : List Char) (offset : Nat) :
    ∃ earlier later, (ofText limit text).checkpoints =
        earlier ++ (ofText limit text).checkpointFor offset :: later ∧
      ((ofText limit text).checkpointFor offset).offset ≤ offset ∧
      ∀ checkpoint ∈ later, offset < checkpoint.offset := by
  have divide := divide_ofText limit text
  obtain ⟨earlier, later, listed, reached, after⟩ :=
    (ofText limit text).exists_checkpointFor offset divide.pairwise
  refine ⟨earlier, later, listed, ?_, after⟩
  cases earlier with
  | cons first earlier => exact reached (List.cons_ne_nil _ _)
  | nil =>
      obtain ⟨first, rest, starts, stands⟩ := divide.exists_first
      obtain ⟨rfl, -⟩ := List.cons.inj (listed.symm.trans starts)
      rw [stands]
      exact Nat.zero_le offset

theorem CheckpointIndex.locate_ofText (limit : Nat) (text : List Char) (offset : Nat) :
    (ofText limit text).locate offset = positionOf text offset := by
  obtain ⟨earlier, later, listed, reached, after⟩ := chosen_ofText limit text offset
  exact (divide_ofText limit text).locate listed reached after

/-- An offset inside a character has the position of the character. -/
theorem positionOf_inside {before after : List Char} {letter : Char} {inside : Nat}
    (within : inside < letter.utf8Size) :
    positionOf (before ++ letter :: after) (size before + inside) =
      positionOf (before ++ letter :: after) (size before) := by
  have start := Position.walk_append ⟨0, 0⟩ before (letter :: after) 0
  rw [Position.walk, if_pos letter.utf8Size_pos, Nat.add_zero] at start
  rw [positionOf, positionOf, Position.walk_append, Position.walk, if_pos within, start]

/-- For every limit on the record of a chunk, an index gives every offset the position that is
counted in the text. An offset inside a character has the position of that character. The
checkpoints increase from the beginning of the text, and an offset is counted from the last of them
that does not stand after it, over the clear bits of its record and then over single bytes. While
the index is built, the open chunk begins at or before each character, its record ends at or before
that character, and the bytes in between are those that wait to be recorded. -/
theorem CheckpointIndex.locate_exact (limit : Nat) (text : List Char) (offset : Nat) :
    (ofText limit text).locate offset = countedPosition text offset ∧
    (∀ before letter after inside, text = before ++ letter :: after →
      inside < letter.utf8Size → (ofText limit text).locate (size before + inside) =
        (ofText limit text).locate (size before)) ∧
    (ofText limit text).first.offset = 0 ∧
    ((ofText limit text).checkpoints.Pairwise fun first second => first.offset < second.offset) ∧
    (∃ earlier chosen later, (ofText limit text).checkpoints = earlier ++ chosen :: later ∧
      chosen.offset ≤ offset ∧ (∀ checkpoint ∈ later, offset < checkpoint.offset) ∧
      (ofText limit text).locate offset = ⟨chosen.position.row, chosen.position.column +
        (((skipBits chosen.widths).take (offset - chosen.offset)).count false +
          (offset - chosen.offset - (skipBits chosen.widths).length))⟩) ∧
    ∀ before after, text = before ++ after →
      let survey := before.foldl (Survey.add limit) Survey.start
      survey.offset ≤ size before ∧
      survey.recorded = (skipBits survey.widths.reverse).length ∧
      survey.recorded ≤ size before - survey.offset ∧
      survey.plain = size before - survey.offset - survey.recorded := by
  refine ⟨?_, ?_, ?_, (divide_ofText limit text).pairwise, ?_, ?_⟩
  · rw [locate_ofText, positionOf_eq_counted]
  · rintro before letter after inside rfl within
    rw [locate_ofText, locate_ofText, positionOf_inside within]
  · obtain ⟨first, others, listed, stands⟩ := (divide_ofText limit text).exists_first
    obtain ⟨rfl, -⟩ := List.cons.inj listed
    exact stands
  · obtain ⟨earlier, later, listed, reached, after⟩ := chosen_ofText limit text offset
    obtain ⟨recorded, widths⟩ := (divide_ofText limit text).exists_widths
      ((ofText limit text).checkpointFor offset) (by simp [listed])
    refine ⟨earlier, _, later, listed, reached, after, ?_⟩
    rw [locate, Checkpoint.locate, widths, columnsWithin_eq_count]
  · rintro before after rfl survey
    obtain ⟨earlier, recorded, plain, rfl, stands⟩ := Survey.exists_stands limit before
    have counted : survey.offset + survey.recorded + survey.plain = _ := stands.counted
    have bits : (skipBits survey.widths.reverse).length = size recorded := by
      rw [stands.widths, List.reverse_reverse, length_skipBits_map]
    have bytes : survey.recorded = size recorded := stands.recordedBytes
    omega

/-- A wide character in a short chunk is counted like every other one. -/
example : (CheckpointIndex.ofText 0 "aé\né".toList).locate 5 = ⟨1, 0⟩ := by decide +kernel

end StorageSchema.Text
