/-
This file says how the tokens of a text follow one another.
-/
import Mathlib.Data.List.Chain
import StorageSchema.Proofs.Token.Scan

namespace StorageSchema.Token

/-- Tokens are ordered from an offset on if none is empty and each begins where the one before it
ends, or later. -/
def Ordered : Nat → List Token → Prop
  | _, [] => True
  | low, token :: rest =>
      low ≤ token.start ∧ token.start < token.span.stop ∧ Ordered token.span.stop rest

theorem Ordered.mono {low high : Nat} {tokens : List Token} (ordered : Ordered high tokens)
    (below : low ≤ high) : Ordered low tokens := by
  cases tokens with
  | nil => exact trivial
  | cons token rest => exact ⟨below.trans ordered.1, ordered.2⟩

theorem ordered_scan (start : Nat) (text : List Char) : Ordered start (scan start text) := by
  induction start, text using scan.induct with
  | case1 start =>
      rw [scan_nil]
      exact trivial
  | case2 start first rest space inductionHypothesis =>
      rw [scan_space start rest space]
      exact inductionHypothesis.mono (Nat.le_add_right _ _)
  | case3 start first rest solid measured text inductionHypothesis =>
      rw [scan_token start rest solid]
      have stop : start + (String.ofList text).utf8ByteSize = start + Text.size text := by
        rw [Text.size_eq_utf8ByteSize]
      have positive : 0 < Text.size text :=
        Nat.lt_of_lt_of_le first.utf8Size_pos (Nat.le_add_right _ _)
      refine ⟨Nat.le_refl start, ?_, ?_⟩
      · change start < start + (String.ofList text).utf8ByteSize
        omega
      · change Ordered (start + (String.ofList text).utf8ByteSize) _
        rw [stop]
        exact inductionHypothesis

theorem Ordered.le_start {low : Nat} {tokens : List Token} (ordered : Ordered low tokens) :
    ∀ token ∈ tokens, low ≤ token.start := by
  induction tokens generalizing low with
  | nil => simp
  | cons first rest inductionHypothesis =>
      obtain ⟨above, solid, others⟩ := ordered
      intro token present
      rcases List.mem_cons.1 present with rfl | later
      · exact above
      · exact (above.trans solid.le).trans (inductionHypothesis others token later)

/-- The tokens of an ordered list begin one after the other. -/
theorem Ordered.pairwise {low : Nat} {tokens : List Token} (ordered : Ordered low tokens) :
    tokens.Pairwise fun first second => first.start < second.start := by
  induction tokens generalizing low with
  | nil => exact .nil
  | cons first rest inductionHypothesis =>
      obtain ⟨-, solid, others⟩ := ordered
      refine .cons ?_ (inductionHypothesis others)
      intro token present
      exact Nat.lt_of_lt_of_le solid (others.le_start token present)

theorem measure_comment {first : Char} {rest : List Char}
    (comment : (measure first rest).1 = .comment) :
    (measure first rest).2 = countWhile continuesLine rest := by
  rcases measure_kind first rest with plain | measured | sign
  · rw [comment] at plain
    simp at plain
  · rw [measured]
  · rw [comment] at sign
    exact absurd (kind_of_punctuation? sign) (by simp)

theorem drop_countWhile (test : Char → Bool) (text : List Char) :
    text.drop (countWhile test text) = text.dropWhile test := by
  have divided := List.takeWhile_append_dropWhile (p := test) (l := text)
  rw [← take_countWhile] at divided
  exact List.append_cancel_left ((List.take_append_drop _ _).trans divided.symm)

/-- A comment goes on to the end of its line, and so a line break follows it. -/
theorem isChain_scan (start : Nat) (text : List Char) :
    (scan start text).IsChain fun first second =>
      first.kind = .comment → second.kind = .newline := by
  induction start, text using scan.induct with
  | case1 start =>
      rw [scan_nil]
      exact .nil
  | case2 start first rest space inductionHypothesis =>
      rw [scan_space start rest space]
      exact inductionHypothesis
  | case3 start first rest solid measured text inductionHypothesis =>
      rw [scan_token start rest solid]
      refine List.isChain_cons.2 ⟨?_, inductionHypothesis⟩
      intro second isSecond comment
      rw [measure_comment comment, drop_countWhile] at isSecond
      have stops := List.head?_dropWhile_not continuesLine rest
      rcases remaining : rest.dropWhile continuesLine with _ | ⟨letter, later⟩
      · rw [remaining, scan_nil] at isSecond
        cases isSecond
      · rw [remaining] at stops
        obtain rfl : letter = '\n' := by simpa [continuesLine] using stops
        rw [remaining, scan_token _ _ (by decide)] at isSecond
        obtain rfl := Option.some.inj isSecond
        rfl

end StorageSchema.Token
