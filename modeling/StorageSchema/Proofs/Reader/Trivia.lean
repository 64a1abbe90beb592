/-
This file shows that the comments which a reader finds among its trivia, by their places, are those
that the margin has gathered token by token.
-/
import StorageSchema.Proofs.Comments.Margin
import StorageSchema.Proofs.Token.Cut
import StorageSchema.Reader

namespace StorageSchema

/-- A margin starts at the beginning of the text or after a lexeme. -/
def Margin.start (hasTaken : Bool) : Margin :=
  if hasTaken then Margin.afterLexeme else Margin.opening

@[simp] theorem Margin.start_block (hasTaken : Bool) : (Margin.start hasTaken).block = [] := by
  cases hasTaken <;> rfl

@[simp] theorem Margin.start_comment (hasTaken : Bool) :
    (Margin.start hasTaken).comment = none := by
  cases hasTaken <;> rfl

@[simp] theorem Margin.start_onFreshLine (hasTaken : Bool) :
    (Margin.start hasTaken).onFreshLine = !hasTaken := by
  cases hasTaken <;> rfl

@[simp] theorem Margin.endLine_comment (margin : Margin) : margin.endLine.comment = none := by
  unfold Margin.endLine
  split <;> rfl

@[simp] theorem Margin.endLine_onFreshLine (margin : Margin) :
    margin.endLine.onFreshLine = true := by
  unfold Margin.endLine
  split <;> rfl

theorem Margin.endLine_block_of_none {margin : Margin} (none : margin.comment = none) :
    margin.endLine.block = [] := by
  rw [Margin.endLine, none]

/-- A comment and the end of its line are added to the block if the line was fresh. -/
theorem Margin.block_comment {margin : Margin} (none : margin.comment = none) (text : String) :
    (margin.addComment text).endLine.block =
      if margin.onFreshLine then text :: margin.block else [] := by
  unfold Margin.addComment
  split
  · rfl
  · exact Margin.endLine_block_of_none none

/-- These tokens are complete lines. -/
def Token.AreLines (tokens : List Token) : Prop :=
  ∀ last ∈ tokens.getLast?, last.kind = .newline

theorem Token.areLines_nil : Token.AreLines [] := by
  simp [Token.AreLines]

theorem Token.areLines_concat {tokens : List Token} {last : Token} :
    Token.AreLines (tokens ++ [last]) ↔ last.kind = .newline := by
  simp [Token.AreLines]

/-- Lines are complete before any token that does not end one, because a comment is followed by
the end of its line. -/
theorem Token.Follow.areLines {tokens others : List Token} {token : Token}
    (follow : Token.Follow (tokens ++ token :: others))
    (insignificant : ∀ earlier ∈ tokens, earlier.isSignificant = false)
    (other : token.kind ≠ .newline) : Token.AreLines tokens := by
  intro last isLast
  rcases Token.isComment_or_isNewline (insignificant last (List.mem_of_getLast? isLast)) with
    isComment | isNewline
  · exact absurd ((List.isChain_append.1 follow).2.2 last isLast token rfl isComment) other
  · exact isNewline

theorem Token.part?_of_mem {text : String} {token : Token}
    (present : token ∈ Token.ofText text ++ [Token.endOf text]) :
    Text.part? text token.span = some token.text := by
  rw [Text.part?_of_slices (Token.slices_of_mem present), String.ofList_toList]

/-! ### The margin of complete lines -/

/-- This is the margin after some tokens that come after a start. -/
def Margin.since (hasTaken : Bool) (tokens : List Token) : Margin :=
  tokens.foldl Margin.pass (Margin.start hasTaken)

theorem Margin.since_concat (hasTaken : Bool) (tokens : List Token) (token : Token) :
    Margin.since hasTaken (tokens ++ [token]) = (Margin.since hasTaken tokens).pass token := by
  simp [Margin.since]

/-- After complete lines no comment stands on the current one. -/
theorem Margin.since_comment {tokens : List Token} (areLines : Token.AreLines tokens)
    (hasTaken : Bool) : (Margin.since hasTaken tokens).comment = none := by
  rcases List.eq_nil_or_concat tokens with rfl | ⟨front, last, rfl⟩
  · exact Margin.start_comment hasTaken
  · rw [List.concat_eq_append] at areLines ⊢
    rw [Margin.since_concat, Margin.pass_newline _ (Token.areLines_concat.1 areLines),
      Margin.endLine_comment]

namespace Reader

variable {text : String} {reader : Reader}

/-- The trivia of a reader hold these tokens of its text, in order and with others after them. -/
def Holds (reader : Reader) (tokens : List Token) : Prop :=
  tokens.map Token.cut <+: reader.trivia.toList

theorem Holds.left {first second : List Token} (holds : reader.Holds (first ++ second)) :
    reader.Holds first := by
  rw [Holds, List.map_append] at holds
  exact (List.prefix_append _ _).trans holds

theorem Holds.getElem? {front : List Token} {token : Token}
    (holds : reader.Holds (front ++ [token])) :
    reader.trivia[front.length]? = some token.cut := by
  obtain ⟨others, same⟩ := holds
  rw [← Array.getElem?_toList, ← same, List.map_append, List.append_assoc,
    List.getElem?_append_right (by simp)]
  simp

/-- A line begins after complete lines, unless a token has been taken on it. -/
theorem beginsLine?_eq {tokens : List Token} (areLines : Token.AreLines tokens)
    (holds : reader.Holds tokens) :
    reader.beginsLine? tokens.length = some (Margin.since reader.hasTaken tokens).onFreshLine := by
  rcases List.eq_nil_or_concat tokens with rfl | ⟨front, last, rfl⟩
  · exact congrArg some (Margin.start_onFreshLine reader.hasTaken).symm
  · rw [List.concat_eq_append] at areLines holds ⊢
    have newline := Token.areLines_concat.1 areLines
    have isFeed : last.cut.kind = .newline := newline
    rw [List.length_append, List.length_singleton, beginsLine?, holds.getElem?,
      Margin.since_concat, Margin.pass_newline _ newline, Margin.endLine_onFreshLine]
    simp [isFeed]

/-- Tokens without a lexeme among them follow one another line by line. -/
structure IsGap (text : String) (tokens : List Token) : Prop where
  insignificant : ∀ token ∈ tokens, token.isSignificant = false
  follow : Token.Follow tokens
  present : ∀ token ∈ tokens, token ∈ Token.ofText text

theorem IsGap.left {first second : List Token} (isGap : IsGap text (first ++ second)) :
    IsGap text first where
  insignificant token isFirst := isGap.insignificant token (List.mem_append_left _ isFirst)
  follow := (List.isChain_append.1 isGap.follow).1
  present token isFirst := isGap.present token (List.mem_append_left _ isFirst)

/-- The lines above a place are the block of the margin there. -/
theorem linesAbove?_eq {tokens : List Token} (textEq : reader.text = text)
    (isGap : IsGap text tokens) (areLines : Token.AreLines tokens) (holds : reader.Holds tokens) :
    reader.linesAbove? tokens.length = some (Margin.since reader.hasTaken tokens).block := by
  -- Two tokens are taken off the end at a time, as the reader looks at them.
  induction length : tokens.length using Nat.strong_induction_on generalizing tokens with
  | _ length inductionHypothesis =>
  subst length
  rcases List.eq_nil_or_concat tokens with rfl | ⟨begun, feed, rfl⟩
  · exact congrArg some (Margin.start_block reader.hasTaken).symm
  rw [List.concat_eq_append] at isGap areLines holds inductionHypothesis ⊢
  have newline := Token.areLines_concat.1 areLines
  have isFeed : feed.cut.kind = .newline := newline
  rw [Margin.since_concat, Margin.pass_newline _ newline]
  rcases List.eq_nil_or_concat begun with rfl | ⟨front, token, rfl⟩
  · rw [Margin.endLine_block_of_none (Margin.since_comment Token.areLines_nil _)]
    rfl
  rw [List.concat_eq_append] at isGap holds inductionHypothesis ⊢
  have count : (front ++ [token] ++ [feed]).length = front.length + 2 := by simp
  have feedFound := holds.getElem?
  rw [List.length_append, List.length_singleton] at feedFound
  rw [count, linesAbove?, feedFound, holds.left.getElem?, Margin.since_concat]
  simp only [Option.bind_eq_bind, Option.bind_some, isFeed, true_and]
  rcases Token.isComment_or_isNewline (isGap.insignificant token (by simp)) with
    isComment | isNewline
  · have complete : Token.AreLines front :=
      isGap.left.follow.areLines isGap.left.left.insignificant (by simp [isComment])
    have spelled := Token.part?_of_mem
      (List.mem_append_left [Token.endOf text] (isGap.present token (by simp)))
    have above := inductionHypothesis front.length (by omega) isGap.left.left complete
      holds.left.left rfl
    rw [if_pos (show token.cut.kind = .comment from isComment),
      beginsLine?_eq complete holds.left.left, Margin.pass_comment _ isComment,
      Margin.block_comment (Margin.since_comment complete _), above, textEq,
      show token.cut.span = token.span from rfl, spelled]
    simp only [Option.bind_some]
    split <;> rfl
  · have noComment : ¬ token.cut.kind = .comment := by
      change ¬ token.kind = .comment
      rw [isNewline]
      decide
    rw [if_neg noComment, Margin.pass_newline _ isNewline,
      Margin.endLine_block_of_none (Margin.endLine_comment _)]

/-- The comment above the next token is that of the margin. -/
theorem commentAbove?_eq {gap : List Token} (textEq : reader.text = text)
    (trivia : reader.trivia.toList = gap.map Token.cut) (isGap : IsGap text gap)
    (areLines : Token.AreLines gap) :
    reader.commentAbove? = some (Margin.since reader.hasTaken gap).above := by
  have holds : reader.Holds gap := ⟨[], by rw [List.append_nil, trivia]⟩
  have count : reader.trivia.size = gap.length := by
    rw [← Array.length_toList, trivia, List.length_map]
  rw [commentAbove?, count, linesAbove?_eq textEq isGap areLines holds, Margin.above]
  cases (Margin.since reader.hasTaken gap).block <;> rfl

/-- The comment beside the last token that has been taken is that of the margin. -/
theorem commentBeside?_eq {gap : List Token} (textEq : reader.text = text)
    (trivia : reader.trivia.toList = gap.map Token.cut) (isGap : IsGap text gap)
    (hasTaken : reader.hasTaken = true) :
    reader.commentBeside? = some (Margin.since reader.hasTaken gap).beside := by
  rw [hasTaken]
  change _ = some (gap.foldl Margin.pass Margin.afterLexeme).beside
  rw [(Margin.beside_foldl isGap.insignificant isGap.follow).1, commentBeside?,
    ← Array.getElem?_toList, trivia]
  cases gap with
  | nil => rfl
  | cons first others =>
      have spelled := Token.part?_of_mem
        (List.mem_append_left [Token.endOf text] (isGap.present first List.mem_cons_self))
      rw [List.map_cons, List.getElem?_cons_zero, Token.leadingBody, textEq]
      by_cases isComment : first.kind = .comment
      · rw [if_pos isComment]
        change (if first.kind = .comment then _ else _) = _
        rw [if_pos isComment, show first.cut.span = first.span from rfl, spelled]
        rfl
      · rw [if_neg isComment]
        exact if_neg isComment

end Reader

end StorageSchema
