/-
This file shows that a rendered diagnostic points at the right characters. Its line and column come
from the index and its excerpt is cut out of the text, and the carets stand under those characters
of the line that its span holds.
-/
import StorageSchema.Proofs.Diagnostic

namespace StorageSchema

namespace Text

/-! ### The line -/

/-- From the end of a line back to the line feed before it there is the line. -/
theorem takeWhile_reverse {front before : List Char} (single : '\n' ∉ before)
    (begins : ∀ letter ∈ front.getLast?, letter = '\n') :
    (front ++ before).reverse.takeWhile (· != '\n') = before.reverse := by
  have stops : front.reverse.takeWhile (· != '\n') = [] := by
    rw [List.takeWhile_eq_nil_iff]
    intro nonempty
    have isFeed := begins (front.reverse[0]) (by simp [List.getLast?_eq_getElem?])
    simp [isFeed]
  have all : ∀ letter ∈ before.reverse, (letter != '\n') = true := by
    intro letter present
    rw [bne_iff_ne]
    rintro rfl
    exact single (List.mem_reverse.1 present)
  rw [List.reverse_append, List.takeWhile_append_of_pos all, stops, List.append_nil]

variable {text : List Char} {line : Line} {span : Span}

/-- The line that is cut out around an offset is the only one that surrounds it. -/
theorem Line.Surrounds.lineAt? {offset : Nat} (surrounds : line.Surrounds text offset) :
    Text.lineAt? text offset = some line := by
  obtain ⟨front, rest, rfl, rfl, single, begins, ends⟩ := surrounds
  obtain ⟨notBefore, notAfter⟩ := not_or.1 (List.mem_append.not.1 single)
  have back := takeWhile_reverse notBefore begins
  have forth : (line.after ++ rest).takeWhile (· != '\n') = line.after := by
    rw [← List.reverse_reverse (line.after ++ rest), List.reverse_append,
      takeWhile_reverse (by simpa using notAfter) (by simpa using ends), List.reverse_reverse]
  have divided : front ++ line.letters ++ rest =
      (front ++ line.before) ++ (line.after ++ rest) := by
    rw [Line.letters]
    simp only [List.append_assoc]
  rw [divided, ← size_append, lineAt?_append, back, forth, List.reverse_reverse]

/-- The row and the column count the line feeds before the offset and the characters before it on
its line. -/
theorem Line.Surrounds.positionOf {offset : Nat} (surrounds : line.Surrounds text offset) :
    Text.positionOf text offset = ⟨(endedBy text offset).count '\n', line.before.length⟩ := by
  obtain ⟨front, rest, rfl, rfl, single, begins, -⟩ := surrounds
  have back := takeWhile_reverse (not_or.1 (List.mem_append.not.1 single)).1 begins
  have ended : endedBy (front ++ line.letters ++ rest) (size front + size line.before) =
      front ++ line.before := by
    have divided := endedBy_append (front ++ line.before) (line.after ++ rest)
    rw [size_append] at divided
    simpa [Line.letters] using divided
  have column : ((front ++ line.before).rtakeWhile (· ≠ '\n')).length = line.before.length := by
    have length := congrArg List.length back
    rw [List.length_reverse] at length
    rw [List.rtakeWhile, List.length_reverse, ← length]
    congr 2
    funext letter
    by_cases feed : letter = '\n' <;> simp [feed]
  have inside : size front + size line.before - size (front ++ line.letters ++ rest) = 0 := by
    simp only [Line.letters, size_append]
    omega
  rw [positionOf_eq_counted, countedPosition, ended, column, inside, Nat.add_zero]

end Text

/-! ### The carets -/

/-- A span holds a character that begins and ends in it. -/
def Span.Holds (span : Span) (ended : Char × Nat) : Prop :=
  span.start + ended.1.utf8Size ≤ ended.2 ∧ ended.2 ≤ span.stop

instance (span : Span) : DecidablePred span.Holds := fun _ => inferInstanceAs (Decidable (_ ∧ _))

/-- The characters of the line around an offset come with the offsets at which they end. -/
def Text.Line.withEnds (line : Text.Line) (offset : Nat) : List (Char × Nat) :=
  Text.withEnds (offset - Text.size line.before) line.letters

/-- Each character that a span holds has a caret, and there is at least one. -/
def Text.Line.carets (line : Text.Line) (span : Span) : Nat :=
  max 1 ((line.withEnds span.start).countP span.Holds)

/-- A span can be shown on a line if it does not stop inside a character of it. -/
def Text.Line.Shows (line : Text.Line) (text : List Char) (span : Span) : Prop :=
  Text.IsBoundary text span.stop ∨ span.start + Text.size line.after ≤ span.stop

/-- A diagnostic points at a line if the line is shown with its number and the column of the
characters from the beginning of the span, and carets stand under those characters of the line that
the span holds. If there are none, then a single caret stands where the span begins. -/
structure Diagnostic.PointsAt (text : List Char) (diagnostic : Diagnostic) (line : Text.Line)
    (rendered : Option String) : Prop where
  rendered_eq : rendered = some (String.join ["error:",
    toString ((Text.endedBy text diagnostic.span.start).count '\n' + 1), ":",
    toString (line.before.length + 1), ": ", diagnostic.message, "\n  ",
    String.ofList line.letters, "\n  ",
    String.ofList (List.replicate line.before.length ' ' ++
      List.replicate (line.carets diagnostic.span) '^')])
  dropped : Text.Slices text ⟨diagnostic.span.start, diagnostic.span.start + Text.size line.after⟩
    (line.letters.drop line.before.length)
  under : ∀ index, line.before.length ≤ index ∧
      index < line.before.length + line.carets diagnostic.span ↔
    (∃ ended ∈ (line.withEnds diagnostic.span.start)[index]?, diagnostic.span.Holds ended) ∨
      index = line.before.length ∧
        ∀ ended ∈ line.withEnds diagnostic.span.start, ¬ diagnostic.span.Holds ended
  within : line.before.length + line.carets diagnostic.span ≤ line.letters.length + 1

/-- The part of a line that is marked is divided from the rest of it where the span stops. -/
theorem Text.Line.Surrounds.exists_marked {text : List Char} {line : Text.Line} {span : Span}
    (surrounds : line.Surrounds text span.start) (ordered : span.start ≤ span.stop)
    (shows : line.Shows text span) :
    ∃ part rest, Text.splitAt? line.after
        (min (span.stop - span.start) (Text.size line.after)) = some (part, rest) ∧
      line.after = part ++ rest ∧ span.start + Text.size part ≤ span.stop ∧
      (rest = [] ∨ span.start + Text.size part = span.stop) := by
  have cut : (Text.splitAt? line.after
      (min (span.stop - span.start) (Text.size line.after))).isSome := by
    rcases shows with stop | beyond
    · have start : Text.IsBoundary text span.start := by
        obtain ⟨front, rest, rfl, starts, -⟩ := surrounds
        refine ⟨front ++ line.before, line.after ++ rest, ?_, by rw [starts, Text.size_append]⟩
        simp [Text.Line.letters]
      obtain ⟨part, before, after, divided, spans⟩ :=
        Span.PlacedIn.exists_part ⟨ordered, start, stop⟩
      obtain ⟨starts, stops⟩ := Span.mk.inj spans
      have found := surrounds.lineAt?
      rw [divided, List.append_assoc, starts, Text.lineAt?_append] at found
      have length : span.stop - span.start = Text.size part := by omega
      rw [← Option.some.inj found, length]
      exact Text.isSome_splitAt?_takeWhile _ part after
    · rw [Nat.min_eq_right (by omega)]
      have whole := Text.splitAt?_append line.after []
      rw [List.append_nil] at whole
      rw [whole]
      rfl
  obtain ⟨⟨part, rest⟩, divided⟩ := Option.isSome_iff_exists.1 cut
  obtain ⟨whole, counted⟩ := Text.splitAt?_eq_some divided
  refine ⟨part, rest, divided, whole, by omega, ?_⟩
  cases rest with
  | nil => exact .inl rfl
  | cons letter others =>
      have positive := letter.utf8Size_pos
      rw [whole, Text.size_append, Text.size_cons] at counted
      exact .inr (by omega)

/-- Where a test holds in the middle of a list only, it holds from one index on to another. -/
theorem exists_getElem?_iff {Item : Type} {test : Item → Prop} {front middle back : List Item}
    (noFront : ∀ item ∈ front, ¬ test item) (all : ∀ item ∈ middle, test item)
    (noBack : ∀ item ∈ back, ¬ test item) (index : Nat) :
    (∃ item ∈ (front ++ middle ++ back)[index]?, test item) ↔
      front.length ≤ index ∧ index < front.length + middle.length := by
  rcases Nat.lt_or_ge index front.length with inFront | afterFront
  · refine iff_of_false ?_ fun inside => Nat.lt_irrefl _ (inside.1.trans_lt inFront)
    rintro ⟨item, found, holds⟩
    rw [List.append_assoc, List.getElem?_append_left inFront] at found
    exact noFront item (List.mem_of_getElem? found) holds
  rcases Nat.lt_or_ge index (front ++ middle).length with inMiddle | afterMiddle
  · refine iff_of_true ?_ ⟨afterFront, by simpa using inMiddle⟩
    have found : (front ++ middle)[index]? = middle[index - front.length]? :=
      List.getElem?_append_right afterFront
    have within : index - front.length < middle.length := by
      rw [List.length_append] at inMiddle
      omega
    rw [List.getElem?_append_left inMiddle, found, List.getElem?_eq_getElem within]
    exact ⟨_, rfl, all _ (List.getElem_mem within)⟩
  · refine iff_of_false ?_ fun inside => ?_
    · rintro ⟨item, found, holds⟩
      rw [List.getElem?_append_right afterMiddle] at found
      exact noBack item (List.mem_of_getElem? found) holds
    · rw [List.length_append] at afterMiddle
      omega

/-- The characters of a line that a span holds are those of the part that is marked. -/
theorem Text.Line.Surrounds.exists_blocks {text : List Char} {line : Text.Line} {span : Span}
    (surrounds : line.Surrounds text span.start) {part rest : List Char}
    (whole : line.after = part ++ rest) (inside : span.start + Text.size part ≤ span.stop)
    (stops : rest = [] ∨ span.start + Text.size part = span.stop) :
    ∃ front middle back, line.withEnds span.start = front ++ middle ++ back ∧
      front.length = line.before.length ∧ middle.length = part.length ∧
      (∀ ended ∈ front, ¬ span.Holds ended) ∧ (∀ ended ∈ middle, span.Holds ended) ∧
      ∀ ended ∈ back, ¬ span.Holds ended := by
  obtain ⟨outside, _, _, starts, -⟩ := surrounds
  have begins : span.start - Text.size line.before + Text.size line.before = span.start := by omega
  refine ⟨Text.withEnds (span.start - Text.size line.before) line.before,
    Text.withEnds span.start part, Text.withEnds (span.start + Text.size part) rest, ?_,
    Text.length_withEnds _ _, Text.length_withEnds _ _, ?_, ?_, ?_⟩
  · rw [Text.Line.withEnds, Text.Line.letters, Text.withEnds_append, begins, whole,
      Text.withEnds_append, List.append_assoc]
  · rintro ended present ⟨after, -⟩
    have bounds := Text.bounds_of_mem_withEnds present
    have positive := ended.1.utf8Size_pos
    omega
  · intro ended present
    have bounds := Text.bounds_of_mem_withEnds present
    exact ⟨bounds.1, bounds.2.trans inside⟩
  · rintro ended present ⟨-, before⟩
    have bounds := Text.bounds_of_mem_withEnds present
    have positive := ended.1.utf8Size_pos
    rcases stops with rfl | stops
    · cases present
    · omega

/-- Every diagnostic with a place is shown on the line around the beginning of its span, if the span
begins between two characters of the text and does not stop inside one of the line. -/
theorem Review.rendering_points (review : Review) (diagnostic : Diagnostic)
    (isPlace : diagnostic.span.isNowhere = false)
    (starts : Text.IsBoundary review.text.toList diagnostic.span.start) :
    ∃ line : Text.Line, line.Surrounds review.text.toList diagnostic.span.start ∧
      (∀ other : Text.Line, other.Surrounds review.text.toList diagnostic.span.start →
        other = line) ∧
      (line.Shows review.text.toList diagnostic.span →
        diagnostic.PointsAt review.text.toList line (review.render? diagnostic)) := by
  obtain ⟨line, found, surrounds⟩ := starts.exists_line
  have ordered : diagnostic.span.start ≤ diagnostic.span.stop := by
    simpa [Span.isNowhere] using isPlace
  refine ⟨line, surrounds, ?_, ?_⟩
  · intro other alsoSurrounds
    exact Option.some.inj (alsoSurrounds.lineAt?.symm.trans found)
  intro shows
  obtain ⟨part, rest, divided, whole, inside, stops⟩ := surrounds.exists_marked ordered shows
  obtain ⟨front, middle, back, blocks, frontLength, middleLength, noFront, all, noBack⟩ :=
    surrounds.exists_blocks whole inside stops
  have counted : (line.withEnds diagnostic.span.start).countP diagnostic.span.Holds =
      part.length := by
    have frontCount := List.countP_eq_zero.2 (fun ended present =>
      decide_eq_true_iff.not.2 (noFront ended present))
    have backCount := List.countP_eq_zero.2 (fun ended present =>
      decide_eq_true_iff.not.2 (noBack ended present))
    have middleCount := List.countP_eq_length.2 (fun ended present =>
      decide_eq_true_iff.2 (all ended present))
    rw [blocks, List.countP_append, List.countP_append, frontCount, middleCount, backCount,
      middleLength, Nat.zero_add, Nat.add_zero]
  have carets : line.carets diagnostic.span = max 1 part.length := by
    rw [Text.Line.carets, counted]
  constructor
  · have located : review.index.locate diagnostic.span.start =
        ⟨(Text.endedBy review.text.toList diagnostic.span.start).count '\n',
          line.before.length⟩ := by
      rw [review.index_eq, Text.CheckpointIndex.locate_ofText, surrounds.positionOf]
    rw [Review.render?, Diagnostic.render?, if_neg (by simp [isPlace]), found]
    change (bind (Text.splitAt? _ _) _) = _
    rw [divided, located, carets]
    simp [Text.Line.excerpt, String.join, String.append_assoc]
  · obtain ⟨outside, others, textDivided, offset, -⟩ := surrounds
    refine ⟨outside ++ line.before, others, ?_, ?_⟩
    · rw [textDivided, Text.Line.letters, List.drop_left]
      simp only [List.append_assoc]
    · rw [Text.Line.letters, List.drop_left, Text.size_append, ← offset]
  · intro index
    have none : (∀ ended ∈ line.withEnds diagnostic.span.start,
        ¬ diagnostic.span.Holds ended) ↔ part.length = 0 := by
      rw [← counted, List.countP_eq_zero]
      simp
    rw [none, carets, blocks, exists_getElem?_iff noFront all noBack, frontLength, middleLength]
    omega
  · rw [carets, Text.Line.letters, whole]
    simp only [List.length_append]
    omega

/-- Here the span goes on beyond its line and the text, and begins with a character of two bytes. -/
theorem Review.rendering_points_of_wide :
    (⟨['a'], ['é', 'b']⟩ : Text.Line).Surrounds "é\naéb\n".toList 4 ∧
    Diagnostic.PointsAt "é\naéb\n".toList ⟨⟨4, 9⟩, "wide"⟩ ⟨['a'], ['é', 'b']⟩
      ((Review.ofText "é\naéb\n").render? ⟨⟨4, 9⟩, "wide"⟩) ∧
    (Review.ofText "é\naéb\n").render? ⟨⟨4, 9⟩, "wide"⟩ =
      some "error:2:2: wide\n  aéb\n   ^^" := by
  have surrounds : (⟨['a'], ['é', 'b']⟩ : Text.Line).Surrounds "é\naéb\n".toList 4 :=
    ⟨['é', '\n'], ['\n'], by decide, by decide, by decide, by simp, by simp⟩
  have starts : Text.IsBoundary "é\naéb\n".toList 4 :=
    ⟨['é', '\n', 'a'], ['é', 'b', '\n'], by decide, by decide⟩
  obtain ⟨line, -, unique, points⟩ :=
    Review.rendering_points (.ofText "é\naéb\n") ⟨⟨4, 9⟩, "wide"⟩ (by decide) starts
  obtain rfl := unique _ surrounds
  have pointsAt := points (.inr (by decide))
  refine ⟨surrounds, pointsAt, pointsAt.rendered_eq.trans ?_⟩
  decide +kernel

end StorageSchema
