/-
This file shows that a diagnostic can be shown if its span is placed in the text. Its span begins on
a line of the text, and is cut off at the end of that line.
-/
import StorageSchema.Proofs.Text.CheckpointIndex
import StorageSchema.Proofs.Token.Slice
import StorageSchema.Review

namespace StorageSchema

theorem Text.lineAt?_append (before rest : List Char) :
    Text.lineAt? (before ++ rest) (Text.size before) =
      some ⟨(before.reverse.takeWhile (· != '\n')).reverse, rest.takeWhile (· != '\n')⟩ := by
  rw [Text.lineAt?, Text.splitAt?_append]
  rfl

/-- A line surrounds an offset if it is divided there and reaches from line feed to line feed. So
the offset is neither before the beginning of the line nor after its end. -/
def Text.Line.Surrounds (line : Text.Line) (text : List Char) (offset : Nat) : Prop :=
  ∃ front rest, text = front ++ line.letters ++ rest ∧
    offset = Text.size front + Text.size line.before ∧ '\n' ∉ line.letters ∧
    (∀ letter ∈ front.getLast?, letter = '\n') ∧ ∀ letter ∈ rest.head?, letter = '\n'

theorem Text.eq_lineFeed_of_mem_head? {letters : List Char} {letter : Char}
    (first : letter ∈ (letters.dropWhile (· != '\n')).head?) : letter = '\n' := by
  have stopped := List.head?_dropWhile_not (· != '\n') letters
  rw [Option.mem_def.1 first] at stopped
  simpa using stopped

theorem Text.lineFeed_not_mem_takeWhile (letters : List Char) :
    '\n' ∉ letters.takeWhile (· != '\n') := by
  intro present
  simpa using List.mem_takeWhile_imp present

/-- There is a line around every boundary of a text. -/
theorem Text.IsBoundary.exists_line {text : List Char} {offset : Nat}
    (boundary : Text.IsBoundary text offset) :
    ∃ line, Text.lineAt? text offset = some line ∧ line.Surrounds text offset := by
  obtain ⟨before, rest, rfl, rfl⟩ := boundary
  refine ⟨_, Text.lineAt?_append before rest, (before.reverse.dropWhile (· != '\n')).reverse,
    rest.dropWhile (· != '\n'), ?_⟩
  have divided : before = (before.reverse.dropWhile (· != '\n')).reverse ++
      (before.reverse.takeWhile (· != '\n')).reverse := by
    rw [← List.reverse_append, List.takeWhile_append_dropWhile, List.reverse_reverse]
  refine ⟨?_, ?_, ?_, ?_, fun letter => Text.eq_lineFeed_of_mem_head?⟩
  · rw [Text.Line.letters, ← List.append_assoc, ← divided, List.append_assoc,
      List.takeWhile_append_dropWhile]
  · rw [← Text.size_append, ← divided]
  · rw [Text.Line.letters, List.mem_append, List.mem_reverse, not_or]
    exact ⟨Text.lineFeed_not_mem_takeWhile _, Text.lineFeed_not_mem_takeWhile _⟩
  · rw [List.getLast?_reverse]
    exact fun letter => Text.eq_lineFeed_of_mem_head?

/-- A part of a text that begins a line is cut off at the end of the line, if not before. -/
theorem Text.isSome_splitAt?_takeWhile (test : Char → Bool) (part after : List Char) :
    (Text.splitAt? ((part ++ after).takeWhile test)
      (min (Text.size part) (Text.size ((part ++ after).takeWhile test)))).isSome := by
  rw [List.takeWhile_append]
  split
  · rw [Text.size_append, Nat.min_eq_left (Nat.le_add_right _ _), Text.splitAt?_append]
    rfl
  · have whole : part.takeWhile test ++ part.dropWhile test = part :=
      List.takeWhile_append_dropWhile
    have counted := congrArg Text.size whole
    rw [Text.size_append] at counted
    rw [Nat.min_eq_right (by omega)]
    have cut := Text.splitAt?_append (part.takeWhile test) []
    rw [List.append_nil] at cut
    rw [cut]
    rfl

/-- A diagnostic is shown if its span is placed in the text, whatever the index says. -/
theorem Diagnostic.isSome_render? {text : List Char} {diagnostic : Diagnostic}
    (placed : diagnostic.span.PlacedIn text) (index : Text.CheckpointIndex) :
    (diagnostic.render? text index).isSome := by
  have isPlace : ¬ diagnostic.span.isNowhere = true := by
    simpa [Span.isNowhere] using placed.ordered
  obtain ⟨part, before, after, rfl, spans⟩ := placed.exists_part
  have cut := Text.isSome_splitAt?_takeWhile (· != '\n') part after
  obtain ⟨parts, divided⟩ := Option.isSome_iff_exists.1 cut
  rw [Diagnostic.render?, if_neg isPlace, List.append_assoc, spans, Text.lineAt?_append]
  change (bind (Text.splitAt? _ (min (_ + _ - _) _)) _).isSome
  rw [Nat.add_sub_cancel_left, divided]
  rfl

/-- A diagnostic fits a text if it stands between boundaries of the text, there is a line around its
beginning, and its position is counted from a checkpoint of the index that is not after it. -/
structure Diagnostic.FitsText (text : String) (diagnostic : Diagnostic) : Prop where
  placed : diagnostic.span.PlacedIn text.toList
  within : diagnostic.span.stop ≤ text.utf8ByteSize
  line : ∃ line, Text.lineAt? text.toList diagnostic.span.start = some line ∧
    line.Surrounds text.toList diagnostic.span.start
  located :
    let index := Text.CheckpointIndex.ofText Review.chunkLimit text.toList
    index.checkpointFor diagnostic.span.start ∈ index.checkpoints ∧
      (index.checkpointFor diagnostic.span.start).offset ≤ diagnostic.span.start

theorem Span.PlacedIn.fitsText {text : String} {diagnostic : Diagnostic}
    (placed : diagnostic.span.PlacedIn text.toList) : diagnostic.FitsText text := by
  constructor
  · exact placed
  · exact placed.stop.le_utf8ByteSize
  · exact placed.start.exists_line
  · obtain ⟨earlier, later, listed, reached, -⟩ :=
      Text.CheckpointIndex.chosen_ofText Review.chunkLimit text.toList diagnostic.span.start
    exact ⟨by simp [listed], reached⟩

/-- All diagnostics of a list are shown if each of them is. -/
theorem Review.isSome_renderAll? {review : Review} {diagnostics : List Diagnostic}
    (placed : ∀ diagnostic ∈ diagnostics, diagnostic.span.PlacedIn review.text.toList) :
    (review.renderAll? diagnostics).isSome := by
  have shown : (diagnostics.mapM review.render?).isSome := by
    induction diagnostics with
    | nil => rfl
    | cons first rest inductionHypothesis =>
        obtain ⟨firstPlaced, others⟩ := List.forall_mem_cons.1 placed
        obtain ⟨line, isLine⟩ :=
          Option.isSome_iff_exists.1 (Diagnostic.isSome_render? firstPlaced review.index)
        obtain ⟨lines, areLines⟩ := Option.isSome_iff_exists.1 (inductionHypothesis others)
        rw [List.mapM_cons, Review.render?, isLine, areLines]
        rfl
  rw [Review.renderAll?, Option.isSome_map]
  exact shown

end StorageSchema
