/-
This file shows that the tokens of a text stand apart from one another in it, and that each has the
text at its span.
-/
import Mathlib.Data.List.Nodup
import StorageSchema.Proofs.Token.Order

namespace StorageSchema

/-- An offset is a boundary of a text if it stands between two of its characters or at an end. -/
def Text.IsBoundary (text : List Char) (offset : Nat) : Prop :=
  ∃ before after, text = before ++ after ∧ offset = Text.size before

/-- A span is placed in a text if it stands between two boundaries in their order. -/
structure Span.PlacedIn (text : List Char) (span : Span) : Prop where
  ordered : span.start ≤ span.stop
  start : Text.IsBoundary text span.start
  stop : Text.IsBoundary text span.stop

/-- The slice of a text at a span is refused if the span ends before it starts or does not stand
between boundaries of the text. -/
def Text.slice? (text : List Char) (span : Span) : Option (List Char) :=
  if span.isNowhere then none
  else do
    let outer ← Text.splitAt? text span.start
    let inner ← Text.splitAt? outer.2 (span.stop - span.start)
    some inner.1

/-- A part of a text stands at a span that begins and ends with it. -/
def Text.Slices (text : List Char) (span : Span) (part : List Char) : Prop :=
  ∃ before after, text = before ++ part ++ after ∧
    span = ⟨Text.size before, Text.size before + Text.size part⟩

theorem Text.IsBoundary.le_utf8ByteSize {text : String} {offset : Nat}
    (boundary : Text.IsBoundary text.toList offset) : offset ≤ text.utf8ByteSize := by
  obtain ⟨before, after, divided, rfl⟩ := boundary
  rw [← Text.size_toList, divided, Text.size_append]
  exact Nat.le_add_right _ _

theorem Text.Slices.placed {text part : List Char} {span : Span}
    (slices : Text.Slices text span part) : span.PlacedIn text := by
  obtain ⟨before, after, rfl, rfl⟩ := slices
  constructor
  · exact Nat.le_add_right _ _
  · exact ⟨before, part ++ after, List.append_assoc _ _ _, rfl⟩
  · exact ⟨before ++ part, after, rfl, (Text.size_append _ _).symm⟩

/-- A span that is placed in a text has a part of it. -/
theorem Span.PlacedIn.exists_part {text : List Char} {span : Span} (placed : span.PlacedIn text) :
    ∃ part, Text.Slices text span part := by
  obtain ⟨ordered, ⟨before, rest, divided, starts⟩, ⟨front, after, whole, stops⟩⟩ := placed
  rcases List.append_eq_append_iff.1 (divided.symm.trans whole) with
    ⟨part, rfl, rfl⟩ | ⟨part, rfl, rfl⟩
  · refine ⟨part, before, after, whole, ?_⟩
    rw [← Text.size_append, ← starts, ← stops]
  · -- The span is empty, so nothing stands between the two divisions of the text.
    have empty : Text.size part = 0 := by
      rw [Text.size_append] at starts
      omega
    refine ⟨[], front, part ++ rest, by rw [whole, List.append_nil], ?_⟩
    rw [Text.size_append, empty, Nat.add_zero] at starts
    exact congrArg₂ Span.mk starts stops

/-- The slice at a span is the part of the text that stands there. -/
theorem Text.slice?_eq_some_iff {text part : List Char} {span : Span} :
    Text.slice? text span = some part ↔ Text.Slices text span part := by
  constructor
  · intro sliced
    rw [Text.slice?] at sliced
    split at sliced
    · cases sliced
    · next isPlace =>
        obtain ⟨⟨before, rest⟩, outer, inside⟩ := Option.bind_eq_some_iff.1 sliced
        obtain ⟨⟨same, after⟩, inner, equal⟩ := Option.bind_eq_some_iff.1 inside
        obtain rfl : same = part := Option.some.inj equal
        obtain ⟨whole, starts⟩ := Text.splitAt?_eq_some outer
        obtain ⟨divided, stops⟩ := Text.splitAt?_eq_some inner
        refine ⟨before, after, ?_, ?_⟩
        · rw [whole, List.append_assoc]
          exact congrArg _ divided
        · simp only [Span.isNowhere, decide_eq_true_eq, Nat.not_lt] at isPlace
          rw [starts, stops, Nat.add_sub_cancel' isPlace]
  · rintro ⟨before, after, rfl, rfl⟩
    have isPlace : ¬ Span.isNowhere ⟨size before, size before + size part⟩ = true := by
      simp [Span.isNowhere]
    rw [Text.slice?, if_neg isPlace, List.append_assoc, Text.splitAt?_append]
    change (Text.splitAt? (part ++ after) (size before + size part - size before)).bind _ = _
    rw [Nat.add_sub_cancel_left, Text.splitAt?_append]
    rfl

/-- What is between two characters of one byte is cut out at one byte from each end. -/
theorem Text.slice?_inside {first last : Char} (narrow : first.utf8Size = 1)
    (narrowLast : last.utf8Size = 1) (inside : List Char) :
    Text.slice? (first :: (inside ++ [last])) ⟨1, Text.size (first :: (inside ++ [last])) - 1⟩ =
      some inside := by
  rw [Text.slice?_eq_some_iff]
  refine ⟨[first], [last], rfl, ?_⟩
  simp [narrow, narrowLast]
  omega

namespace Token

/-- Each token has the text at its span. -/
theorem exists_slice_of_mem_scan {start : Nat} {text : List Char} {token : Token}
    (present : token ∈ scan start text) :
    ∃ before after, text = before ++ token.text.toList ++ after ∧
      token.start = start + Text.size before := by
  induction start, text using scan.induct with
  | case1 start =>
      rw [scan_nil] at present
      cases present
  | case2 start first rest space inductionHypothesis =>
      rw [scan_space start rest space] at present
      obtain ⟨before, after, divided, starts⟩ := inductionHypothesis present
      refine ⟨first :: before, after, congrArg (first :: ·) divided, ?_⟩
      rw [starts, Text.size_cons, Nat.add_assoc]
  | case3 start first rest solid measured text inductionHypothesis =>
      rw [scan_token start rest solid] at present
      rcases List.mem_cons.1 present with rfl | later
      · refine ⟨[], rest.drop measured.2, ?_, rfl⟩
        change first :: rest = (String.ofList text).toList ++ _
        rw [String.toList_ofList]
        exact congrArg (first :: ·) (List.take_append_drop _ _).symm
      · obtain ⟨before, after, divided, starts⟩ := inductionHypothesis later
        refine ⟨text ++ before, after, ?_, ?_⟩
        · rw [List.append_assoc, List.append_assoc, ← List.append_assoc before, ← divided]
          exact congrArg (first :: ·) (List.take_append_drop _ _).symm
        · rw [starts, Text.size_append, Nat.add_assoc]

theorem slices_of_mem_ofText {text : String} {token : Token} (present : token ∈ ofText text) :
    Text.Slices text.toList token.span token.text.toList := by
  obtain ⟨before, after, divided, starts⟩ := exists_slice_of_mem_scan present
  refine ⟨before, after, divided, ?_⟩
  rw [Token.span, starts, Nat.zero_add, Text.size_toList token.text]

theorem slices_of_mem {text : String} {token : Token} (present : token ∈ ofText text ++ [endOf text]) :
    Text.Slices text.toList token.span token.text.toList := by
  rcases List.mem_append.1 present with inside | isLast
  · exact slices_of_mem_ofText inside
  · obtain rfl := List.mem_singleton.1 isLast
    refine ⟨text.toList, [], by simp [endOf], ?_⟩
    rw [Text.size_toList]
    rfl

/-- Tokens stand apart if none is empty and each ends before the next one begins. -/
structure Apart (tokens : List Token) : Prop where
  pairwise : tokens.Pairwise fun first second => first.span.stop ≤ second.start
  solid : ∀ token ∈ tokens, token.start < token.span.stop

theorem Apart.sublist {tokens some : List Token} (apart : Apart tokens)
    (sublist : some.Sublist tokens) : Apart some :=
  ⟨apart.pairwise.sublist sublist, fun token present => apart.solid token (sublist.subset present)⟩

theorem Apart.left {first second : List Token} (apart : Apart (first ++ second)) : Apart first :=
  apart.sublist (List.sublist_append_left _ _)

theorem Apart.right {first second : List Token} (apart : Apart (first ++ second)) : Apart second :=
  apart.sublist (List.sublist_append_right _ _)

theorem Ordered.apart {low : Nat} {tokens : List Token} (ordered : Ordered low tokens) :
    Apart tokens := by
  induction tokens generalizing low with
  | nil => exact ⟨.nil, List.forall_mem_nil _⟩
  | cons first rest inductionHypothesis =>
      obtain ⟨-, solid, others⟩ := ordered
      obtain ⟨pairwise, allSolid⟩ := inductionHypothesis others
      constructor
      · exact .cons others.le_start pairwise
      · exact List.forall_mem_cons.2 ⟨solid, allSolid⟩

/-- These are the significant tokens of a text before its end. -/
def inside (text : String) : List Token := (ofText text).filter isSignificant

theorem significant_eq (text : String) : significant text = inside text ++ [endOf text] := by
  rw [significant, List.filter_append]
  rfl

theorem apart_inside (text : String) : Apart (inside text) :=
  (ordered_scan 0 text.toList).apart.sublist List.filter_sublist

/-- Every significant token ends before the next one begins, and the end of the text is one of
them. -/
theorem pairwise_significant (text : String) :
    (significant text).Pairwise fun first second => first.span.stop ≤ second.start := by
  rw [significant_eq, List.pairwise_append]
  refine ⟨(apart_inside text).pairwise, List.pairwise_singleton _ _, ?_⟩
  intro token present last isLast
  rw [List.mem_singleton.1 isLast]
  have sliced := slices_of_mem_ofText (List.mem_filter.1 present).1
  exact sliced.placed.stop.le_utf8ByteSize

theorem mem_ofText_of_significant {text : String} {token : Token}
    (listed : token ∈ significant text) (inside : token.kind ≠ .ending) :
    token ∈ ofText text := by
  rcases List.mem_append.1 (List.mem_filter.1 listed).1 with present | last
  · exact present
  · rw [List.mem_singleton.1 last] at inside
    exact absurd rfl inside

/-- No two tokens of a text begin at the same place. -/
theorem nodup_starts (text : String) : ((ofText text).map Token.start).Nodup :=
  List.pairwise_map.2 ((ordered_scan 0 text.toList).pairwise.imp Nat.ne_of_lt)

theorem eq_of_span {text : String} {first second : Token} (left : first ∈ ofText text)
    (right : second ∈ ofText text) (same : first.span = second.span) : first = second :=
  List.inj_on_of_nodup_map (nodup_starts text) left right (congrArg Span.start same)

end Token

end StorageSchema
