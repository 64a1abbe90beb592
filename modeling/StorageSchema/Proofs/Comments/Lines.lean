/-
This file divides tokens into lines and says which comments stand above a line and beside a token.
-/
import Mathlib.Data.List.Basic
import StorageSchema.Lexeme
import StorageSchema.Grammar

namespace StorageSchema

/-- The lines of a list of tokens lie between its line breaks. -/
def Token.lines (tokens : List Token) : List (List Token) :=
  tokens.splitOnP fun token => decide (token.kind = .newline)

/-- A list of lines ends with a block of lines that hold a comment and nothing else, and the line
before the block is no such line. -/
structure Token.EndsWithBlock (lines : List (List Token)) (comments : List Token) : Prop where
  isComment : ∀ comment ∈ comments, comment.kind = .comment
  isMaximal : ∃ earlier, lines = earlier ++ comments.map ([·]) ∧
    ∀ others comment, comment.kind = .comment → earlier ≠ others ++ [[comment]]

theorem Token.EndsWithBlock.nil : Token.EndsWithBlock [] [] :=
  ⟨by simp, [], rfl, by simp⟩

/-- Another line with a comment alone goes on with the block. -/
theorem Token.EndsWithBlock.extend {lines : List (List Token)} {comments : List Token}
    (block : Token.EndsWithBlock lines comments) {comment : Token}
    (isComment : comment.kind = .comment) :
    Token.EndsWithBlock (lines ++ [[comment]]) (comments ++ [comment]) := by
  obtain ⟨all, earlier, rfl, maximal⟩ := block
  refine ⟨?_, earlier, by simp, maximal⟩
  intro other present
  rcases List.mem_append.1 present with inside | last
  · exact all other inside
  · exact List.mem_singleton.1 last ▸ isComment

/-- Any other line ends the block. -/
theorem Token.EndsWithBlock.restart (lines : List (List Token)) {line : List Token}
    (other : ∀ comment, comment.kind = .comment → line ≠ [comment]) :
    Token.EndsWithBlock (lines ++ [line]) [] := by
  refine ⟨by simp, lines ++ [line], by simp, ?_⟩
  intro others comment isComment same
  exact other comment isComment (List.cons.inj (List.append_inj' same rfl).2).1

/-- The block has comments if the last line holds a comment and nothing else. -/
theorem Token.EndsWithBlock.ne_nil_iff {lines : List (List Token)} {comments : List Token}
    (block : Token.EndsWithBlock lines comments) :
    comments ≠ [] ↔ ∃ earlier comment, comment.kind = .comment ∧ lines = earlier ++ [[comment]] := by
  obtain ⟨all, earlier, rfl, maximal⟩ := block
  constructor
  · intro nonempty
    obtain ⟨others, last, rfl⟩ := List.eq_nil_or_concat comments |>.resolve_left nonempty
    refine ⟨earlier ++ others.map ([·]), last, all last (by simp), by simp⟩
  · rintro ⟨others, comment, isComment, same⟩ rfl
    rw [List.map_nil, List.append_nil] at same
    exact maximal others comment isComment same

/-! ### Lines of growing lists -/

theorem Token.lines_ne_nil (tokens : List Token) : Token.lines tokens ≠ [] :=
  List.splitOnP_ne_nil _ _

theorem Token.lines_append_newline (before : List Token) {newline : Token}
    (isNewline : newline.kind = .newline) (after : List Token) :
    Token.lines (before ++ newline :: after) = Token.lines before ++ Token.lines after :=
  List.splitOnP_append_cons before after (by simp [isNewline])

theorem Token.lines_cons (token : Token) (rest : List Token) :
    Token.lines (token :: rest) =
      if token.kind = .newline then [] :: Token.lines rest
      else (Token.lines rest).modifyHead (token :: ·) := by
  simp [Token.lines, List.splitOnP_cons_eq_if_modifyHead]

/-- A token other than a line break belongs to the last line. -/
theorem Token.lines_concat {before : List Token} {done : List (List Token)}
    {current : List Token} {token : Token} (lines : Token.lines before = done ++ [current])
    (solid : token.kind ≠ .newline) :
    Token.lines (before ++ [token]) = done ++ [current ++ [token]] := by
  have grow : ∀ (earlier done : List (List Token)) (last current : List Token),
      earlier ++ [last] = done ++ [current] →
        earlier ++ [last ++ [token]] = done ++ [current ++ [token]] := by
    intro earlier done last current same
    obtain ⟨rfl, ends⟩ := List.append_inj' same rfl
    rw [(List.cons.inj ends).1]
  induction before generalizing done current with
  | nil =>
      have alone : Token.lines [token] = [[token]] := by
        rw [Token.lines_cons, if_neg solid]
        rfl
      rw [List.nil_append, alone]
      exact grow [] done [] current lines
  | cons first rest inductionHypothesis =>
      obtain ⟨others, last, divided⟩ :=
        (List.eq_nil_or_concat (Token.lines rest)).resolve_left (Token.lines_ne_nil rest)
      rw [List.concat_eq_append] at divided
      rw [Token.lines_cons, divided] at lines
      rw [List.cons_append, Token.lines_cons, inductionHypothesis divided]
      split at lines
      · next isNewline =>
          rw [if_pos isNewline]
          exact grow ([] :: others) done last current lines
      · next noNewline =>
          rw [if_neg noNewline]
          cases others with
          | nil => exact grow [] done (first :: last) current lines
          | cons line others => exact grow ((first :: line) :: others) done last current lines

/-- Without a line break all tokens belong to the last line. -/
theorem Token.lines_append {before : List Token} {done : List (List Token)}
    {current more : List Token} (lines : Token.lines before = done ++ [current])
    (solid : ∀ token ∈ more, token.kind ≠ .newline) :
    Token.lines (before ++ more) = done ++ [current ++ more] := by
  induction more generalizing before current with
  | nil => simpa using lines
  | cons token rest inductionHypothesis =>
      obtain ⟨first, others⟩ := List.forall_mem_cons.1 solid
      have next := inductionHypothesis (Token.lines_concat lines first) others
      simpa using next

/-- The lines hold the tokens in their order. -/
theorem Token.sublist_lines (tokens : List Token) :
    (Token.lines tokens).flatten.Sublist tokens := by
  induction tokens with
  | nil => exact .refl _
  | cons first rest inductionHypothesis =>
      rw [Token.lines_cons]
      split
      · exact inductionHypothesis.cons first
      · rcases divided : Token.lines rest with _ | ⟨line, others⟩
        · exact absurd divided (Token.lines_ne_nil rest)
        · rw [divided] at inductionHypothesis
          exact inductionHypothesis.cons_cons first

end StorageSchema
