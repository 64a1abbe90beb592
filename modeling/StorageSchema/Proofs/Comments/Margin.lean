/-
This file shows that the margin of a lexeme holds the comments on the lines above it, and the
comment beside the lexeme before it.
-/
import StorageSchema.Proofs.Comments.Lines
import StorageSchema.Proofs.Token.Order

namespace StorageSchema

/-- The body of a comment is what is attached of it. -/
def Token.body (token : Token) : String := commentBody token.text

/-- This function moves the margin past a token. -/
def Margin.pass (margin : Margin) (token : Token) : Margin :=
  match token.kind with
  | .comment => margin.addComment token.body
  | .newline => margin.endLine
  | _ => Margin.afterLexeme

/-- This is the margin after some tokens of a text. -/
def Margin.after (tokens : List Token) : Margin := tokens.foldl Margin.pass Margin.opening

theorem Margin.after_concat (before : List Token) (token : Token) :
    Margin.after (before ++ [token]) = (Margin.after before).pass token := by
  simp [Margin.after]

/-- Where a line has not begun, or holds a comment alone so far, the margin describes the block
above it. Where a lexeme stands on the line, no block is above. -/
inductive Margin.Describes : Margin → List (List Token) → List Token → Prop where
  | fresh {done : List (List Token)} {comments : List Token} (beside : Option String) :
      Token.EndsWithBlock done comments →
      Describes ⟨(comments.map Token.body).reverse, none, beside, true⟩ done []
  | comment {done : List (List Token)} {comments : List Token} {comment : Token}
      (beside : Option String) : comment.kind = .comment → Token.EndsWithBlock done comments →
      Describes ⟨(comments.map Token.body).reverse, some comment.body, beside, true⟩ done [comment]
  | lexeme {done : List (List Token)} {current : List Token} {lexeme : Token}
      (beside : Option String) : lexeme ∈ current → lexeme.isSignificant = true →
      Describes ⟨[], none, beside, false⟩ done current

theorem Margin.pass_newline (margin : Margin) {token : Token} (isNewline : token.kind = .newline) :
    margin.pass token = margin.endLine := by
  simp [Margin.pass, isNewline]

theorem Margin.pass_comment (margin : Margin) {token : Token} (isComment : token.kind = .comment) :
    margin.pass token = margin.addComment token.body := by
  simp [Margin.pass, isComment]

theorem Margin.pass_lexeme (margin : Margin) {token : Token}
    (significant : token.isSignificant = true) : margin.pass token = Margin.afterLexeme := by
  rcases token with ⟨kind, text, start⟩
  cases kind <;> simp_all [Token.isSignificant, Margin.pass]

/-- A line break ends the line, and what the margin describes is then the next line. -/
theorem Margin.Describes.newline {margin : Margin} {done : List (List Token)}
    {current : List Token} (describes : margin.Describes done current) :
    margin.endLine.Describes (done ++ [current]) [] := by
  cases describes with
  | fresh beside block => exact .fresh beside (.restart done (by simp))
  | @comment done comments comment beside isComment block =>
      have extended := Margin.Describes.fresh beside (block.extend isComment)
      rw [List.map_append, List.reverse_append] at extended
      exact extended
  | lexeme beside present significant =>
      refine .fresh beside (.restart done ?_)
      rintro comment isComment rfl
      rw [List.mem_singleton.1 present] at significant
      simp [Token.isSignificant, isComment] at significant

/-- Another token goes on with the line, and a comment can be no more than the last on it. -/
theorem Margin.Describes.token {margin : Margin} {done : List (List Token)}
    {current : List Token} (describes : margin.Describes done current) {token : Token}
    (solid : token.kind ≠ .newline) (follows : ∀ last ∈ current.getLast?, last.kind ≠ .comment) :
    (margin.pass token).Describes done (current ++ [token]) := by
  by_cases isComment : token.kind = .comment
  · rw [Margin.pass_comment margin isComment]
    cases describes with
    | fresh beside block => exact .comment beside isComment block
    | @comment done comments earlier beside wasComment block =>
        exact absurd wasComment (follows earlier (by simp))
    | lexeme beside present significant =>
        exact .lexeme _ (List.mem_append_left _ present) significant
  · have significant : token.isSignificant = true := by
      simp [Token.isSignificant, isComment, solid]
    rw [Margin.pass_lexeme margin significant]
    exact .lexeme _ (List.mem_append_right _ (List.mem_singleton_self token)) significant

/-- Tokens follow one another as those of a text do. -/
def Token.Follow (tokens : List Token) : Prop :=
  tokens.IsChain fun first second => first.kind = .comment → second.kind = .newline

/-- The margin describes the lines before it. -/
theorem Margin.describes_after (before : List Token) (follow : Token.Follow before) :
    ∃ done current, Token.lines before = done ++ [current] ∧ current <:+ before ∧
      (Margin.after before).Describes done current := by
  -- The margin is a fold over the tokens, and so the induction takes the last one off.
  induction before using List.reverseRecOn with
  | nil => exact ⟨[], [], rfl, List.suffix_rfl, .fresh none .nil⟩
  | append_singleton before token inductionHypothesis =>
      obtain ⟨earlier, -, joint⟩ := List.isChain_append.1 follow
      obtain ⟨done, current, lines, ⟨start, rfl⟩, describes⟩ := inductionHypothesis earlier
      rw [Margin.after_concat]
      by_cases isNewline : token.kind = .newline
      · refine ⟨done ++ [current], [], ?_, List.nil_suffix, ?_⟩
        · rw [Token.lines_append_newline _ isNewline, lines]
          rfl
        · rw [Margin.pass_newline _ isNewline]
          exact describes.newline
      · refine ⟨done, current ++ [token], Token.lines_concat lines isNewline, ?_, ?_⟩
        · exact ⟨start, (List.append_assoc start current [token]).symm⟩
        · refine describes.token isNewline ?_
          intro last isLast isComment
          have ends : last ∈ (start ++ current).getLast? := by
            rw [Option.mem_def] at isLast
            simp [isLast]
          exact isNewline (joint last ends token rfl isComment)

/-! ### The comment above a lexeme -/

/-- The comments of a block are joined line by line. -/
def Token.joined (comments : List Token) : String :=
  "\n".intercalate (comments.map Token.body)

/-- The rule for the comment above a token: there is one if and only if nothing stands before the
token on its line while the line above holds a comment and nothing else. It then has the comments of
the whole block of such lines. -/
structure Token.AttachesAbove (before : List Token) (comment : Option String)
    (used : List Token) : Prop where
  isSome_iff : comment.isSome ↔ ∃ earlier last, last.kind = .comment ∧
    Token.lines before = earlier ++ [[last], []]
  none_used : comment = none → used = []
  value : ∀ value, comment = some value → ∃ done, Token.lines before = done ++ [[]] ∧
    Token.EndsWithBlock done used ∧ value = Token.joined used

theorem Margin.above_block (comments : List Token) (comment beside : Option String)
    (isFresh : Bool) :
    Margin.above ⟨(comments.map Token.body).reverse, comment, beside, isFresh⟩ =
      if comments = [] then none else some (Token.joined comments) := by
  unfold Margin.above
  split
  · next none => simp_all
  · next some =>
      rw [if_neg (by simpa using some), List.reverse_reverse]
      rfl

/-- The margin attaches the comment above a lexeme by the rule. -/
theorem Margin.exists_attachesAbove {before : List Token} {token : Token}
    (follow : Token.Follow (before ++ [token])) (significant : token.isSignificant = true) :
    ∃ used, Token.AttachesAbove before (Margin.after before).above used := by
  obtain ⟨earlier, -, joint⟩ := List.isChain_append.1 follow
  obtain ⟨done, current, lines, ⟨start, rfl⟩, describes⟩ := Margin.describes_after before earlier
  have ends : ∀ others last, Token.lines (start ++ current) = others ++ [last, []] ↔
      done = others ++ [last] ∧ current = [] := by
    intro others last
    rw [lines, show others ++ [last, []] = (others ++ [last]) ++ [[]] by simp]
    constructor
    · intro same
      obtain ⟨rfl, tail⟩ := List.append_inj' same rfl
      exact ⟨rfl, (List.cons.inj tail).1⟩
    · rintro ⟨rfl, rfl⟩
      rfl
  generalize Margin.after (start ++ current) = margin at describes
  cases describes with
  | @fresh _ comments _ block =>
      rw [Margin.above_block]
      refine ⟨comments, ?_, ?_, ?_⟩
      · have nonempty := block.ne_nil_iff
        simp only [ends, and_true]
        rw [← nonempty]
        split <;> simp_all
      · intro none
        split at none
        · next empty => exact empty
        · cases none
      · intro value some
        split at some
        · cases some
        · exact ⟨done, lines, block, (Option.some.inj some).symm⟩
  | @comment _ _ comment _ isComment _ =>
      have newline := joint comment (by simp) token rfl isComment
      simp [Token.isSignificant, newline] at significant
  | @lexeme _ _ lexeme _ present _ =>
      refine ⟨[], ?_, fun _ => rfl, by simp [Margin.above]⟩
      have nonempty : current ≠ [] := List.ne_nil_of_mem present
      simp [ends, nonempty, Margin.above]

/-! ### The comment beside a lexeme -/

/-- The rule for the comment beside a token: there is one if and only if a comment is the next
token. -/
structure Token.AttachesBeside (after : List Token) (comment : Option String)
    (used : List Token) : Prop where
  isSome_iff : comment.isSome ↔ ∃ next rest, next.kind = .comment ∧ after = next :: rest
  none_used : comment = none → used = []
  value : ∀ value, comment = some value → ∃ next rest, after = next :: rest ∧ used = [next] ∧
    value = next.body

/-- This is the comment that comes first among some tokens. -/
def Token.leadingBody : List Token → Option String
  | [] => none
  | first :: _ => if first.kind = .comment then some first.body else none

theorem Token.leadingBody_append {first : List Token} (nonempty : first ≠ []) (rest : List Token) :
    Token.leadingBody (first ++ rest) = Token.leadingBody first := by
  cases first with
  | nil => exact absurd rfl nonempty
  | cons token others => rfl

theorem Token.isComment_or_isNewline {token : Token} (insignificant : token.isSignificant = false) :
    token.kind = .comment ∨ token.kind = .newline := by
  simpa [Token.isSignificant, or_iff_not_imp_left] using insignificant

/-- After a lexeme the margin keeps the comment that comes first, and it knows whether a line has
ended since. -/
theorem Margin.beside_foldl {gap : List Token}
    (insignificant : ∀ token ∈ gap, token.isSignificant = false)
    (follow : Token.Follow gap) :
    (gap.foldl Margin.pass Margin.afterLexeme).beside = Token.leadingBody gap ∧
      ((gap.foldl Margin.pass Margin.afterLexeme).onFreshLine = true ↔
        ∃ token ∈ gap, token.kind = .newline) := by
  induction gap using List.reverseRecOn with
  | nil => simp [Margin.afterLexeme, Token.leadingBody]
  | append_singleton gap token inductionHypothesis =>
      obtain ⟨earlier, -, joint⟩ := List.isChain_append.1 follow
      obtain ⟨inside, last⟩ := List.forall_mem_append.1 insignificant
      obtain ⟨beside, fresh⟩ := inductionHypothesis inside earlier
      rw [List.foldl_append, List.foldl_cons, List.foldl_nil]
      generalize gap.foldl Margin.pass Margin.afterLexeme = margin at beside fresh
      by_cases isNewline : token.kind = .newline
      · rw [Margin.pass_newline margin isNewline]
        have kept : margin.endLine.beside = margin.beside ∧ margin.endLine.onFreshLine = true := by
          unfold Margin.endLine
          split <;> exact ⟨rfl, rfl⟩
        refine ⟨?_, by simp [kept.2, isNewline]⟩
        rw [kept.1, beside]
        rcases List.eq_nil_or_concat gap with rfl | ⟨_, _, rfl⟩
        · simp [Token.leadingBody, isNewline]
        · exact (Token.leadingBody_append (by simp) _).symm
      · have isComment : token.kind = .comment :=
          (Token.isComment_or_isNewline (last token (List.mem_singleton_self token))).resolve_right
            isNewline
        rw [Margin.pass_comment margin isComment]
        unfold Margin.addComment
        split
        · next isFresh =>
            obtain ⟨newline, present, _⟩ := fresh.1 isFresh
            refine ⟨?_, by simp [isFresh, fresh.1 isFresh]⟩
            rw [Token.leadingBody_append (List.ne_nil_of_mem present)]
            exact beside
        · next noFresh =>
            have alone : gap = [] := by
              rcases List.eq_nil_or_concat gap with none | ⟨others, previous, rfl⟩
              · exact none
              · have present : previous ∈ others.concat previous := by simp
                rcases Token.isComment_or_isNewline (inside previous present) with before | before
                · exact absurd (joint previous (by simp) token rfl before) isNewline
                · exact absurd (fresh.2 ⟨previous, present, before⟩) noFresh
            subst alone
            simp [Token.leadingBody, isComment, noFresh]

end StorageSchema
