/-
This file names the places where comments can be attached, and shows that the lexemes of a text
attach each comment by the rule and in one place only.
-/
import Mathlib.Data.List.Forall2
import StorageSchema.Proofs.Comments.Margin

namespace StorageSchema

/-- A slot is a place where a comment can be attached: above what begins at an offset, or beside
what stops at one. -/
inductive Slot where
  | above (start : Nat) (comment : Option String)
  | beside (stop : Nat) (comment : Option String)
  deriving DecidableEq, Repr

/-- The slot of a text has its comment by the rule, and that comment comes from these tokens. A slot
beside a token stands after the comma that follows the token, if one does. -/
inductive Slot.Holds (tokens : List Token) : Slot → List Token → Prop where
  | above {before after used : List Token} {token : Token} {comment : Option String} :
      tokens = before ++ token :: after → token.isSignificant = true →
      Token.AttachesAbove before comment used → Holds tokens (.above token.span.start comment) used
  | beside {before after used : List Token} {token : Token} {comment : Option String} :
      tokens = before ++ token :: after → token.isSignificant = true →
      (∀ next ∈ (after.filter Token.isSignificant).head?, next.kind ≠ .comma) →
      Token.AttachesBeside after comment used → Holds tokens (.beside token.span.stop comment) used

/-- Before a lexeme there is a slot above it, and another beside the lexeme before it unless a comma
goes on from there. -/
def Lexeme.slotsBefore (stop : Nat) (lexeme : Lexeme Span) : List Slot :=
  (if lexeme.kind = .comma then [] else [.beside stop lexeme.beside]) ++
    [.above lexeme.mark.start lexeme.above]

/-- These are the slots after a lexeme that stops at an offset. -/
def Lexeme.slotsAfter (stop : Nat) : List (Lexeme Span) → List Slot
  | [] => []
  | lexeme :: rest => lexeme.slotsBefore stop ++ slotsAfter lexeme.mark.stop rest

/-- Before the first lexeme there is only the slot above it. -/
def Lexeme.slots : List (Lexeme Span) → List Slot
  | [] => []
  | lexeme :: rest =>
      .above lexeme.mark.start lexeme.above :: slotsAfter lexeme.mark.stop rest

theorem suffix_of_not_mem {Element : Type} {first second third fourth : List Element}
    {middle : Element} (same : first ++ middle :: second = third ++ fourth)
    (absent : middle ∉ fourth) : fourth <:+ second := by
  rcases List.append_eq_append_iff.1 same with ⟨between, rfl, rest⟩ | ⟨between, rfl, rfl⟩
  · cases between with
    | nil =>
        rw [List.nil_append] at rest
        exact absurd (rest ▸ List.mem_cons_self) absent
    | cons _ others => exact ⟨others, (List.cons.inj rest).2.symm⟩
  · exact absurd (List.mem_append_right between List.mem_cons_self) absent

/-- A block at the end of the lines comes from the tokens in their order. -/
theorem Token.sublist_of_suffix {tokens used : List Token}
    (suffix : used.map ([·]) ++ [[]] <:+ Token.lines tokens) : used.Sublist tokens := by
  obtain ⟨earlier, lines⟩ := suffix
  have inLines : used.Sublist (Token.lines tokens).flatten := by
    rw [← lines]
    simp [List.flatten_append, ← List.flatMap_def]
  exact inLines.trans (Token.sublist_lines tokens)

/-- A list of tokens has no line break, or it has a first one. -/
theorem Token.newline_or_first (tokens : List Token) :
    (∀ token ∈ tokens, token.kind ≠ .newline) ∨
      ∃ first newline rest, tokens = first ++ newline :: rest ∧ newline.kind = .newline ∧
        ∀ token ∈ first, token.kind ≠ .newline := by
  induction tokens with
  | nil => exact .inl (by simp)
  | cons token rest inductionHypothesis =>
      by_cases isNewline : token.kind = .newline
      · exact .inr ⟨[], token, rest, rfl, isNewline, by simp⟩
      · rcases inductionHypothesis with none | ⟨first, newline, later, rfl, isFirst, before⟩
        · exact .inl (List.forall_mem_cons.2 ⟨isNewline, none⟩)
        · exact .inr ⟨token :: first, newline, later, rfl, isFirst,
            List.forall_mem_cons.2 ⟨isNewline, before⟩⟩

/-- A block above a lexeme lies behind the end of the line of the lexeme before it. -/
theorem Token.exists_newline_before_block {before gap used : List Token} {lexeme : Token}
    {done : List (List Token)} (significant : lexeme.isSignificant = true)
    (lines : Token.lines (before ++ lexeme :: gap) = done ++ [[]])
    (block : Token.EndsWithBlock done used) :
    ∃ first newline rest, gap = first ++ newline :: rest ∧ newline.kind = .newline ∧
      used.Sublist rest := by
  have solid : lexeme.kind ≠ .newline := by
    intro newline
    simp [Token.isSignificant, newline] at significant
  obtain ⟨earlier, current, last⟩ :=
    (List.eq_nil_or_concat (Token.lines before)).resolve_left (Token.lines_ne_nil before)
  rw [List.concat_eq_append] at last
  have whole : ∀ more : List Token, (∀ token ∈ more, token.kind ≠ .newline) →
      Token.lines (before ++ lexeme :: more) = earlier ++ [current ++ lexeme :: more] :=
    fun more plain => Token.lines_append last (List.forall_mem_cons.2 ⟨solid, plain⟩)
  rcases Token.newline_or_first gap with none | ⟨first, newline, rest, rfl, isNewline, plain⟩
  · rw [whole gap none] at lines
    obtain ⟨-, tail⟩ := List.append_inj' lines rfl
    simp at tail
  · obtain ⟨allComments, others, rfl, -⟩ := block
    rw [← List.cons_append, ← List.append_assoc, Token.lines_append_newline _ isNewline,
      whole first plain, List.append_assoc, List.append_assoc] at lines
    have absent : current ++ lexeme :: first ∉ used.map ([·]) ++ [[]] := by
      intro present
      rcases List.mem_append.1 present with inBlock | empty
      · obtain ⟨comment, isUsed, same⟩ := List.mem_map.1 inBlock
        have isLexeme : lexeme ∈ [comment] := same ▸ (by simp)
        rw [List.mem_singleton.1 isLexeme] at significant
        simp [Token.isSignificant, allComments comment isUsed] at significant
      · simp at empty
    exact ⟨first, newline, rest, rfl, isNewline,
      Token.sublist_of_suffix (suffix_of_not_mem lines absent)⟩

/-- A block above a lexeme lies in the gap before it. -/
theorem Token.AttachesAbove.sublist {before gap used : List Token} {lexeme : Token}
    {comment : Option String} (significant : lexeme.isSignificant = true)
    (attaches : Token.AttachesAbove (before ++ lexeme :: gap) comment used) :
    used = [] ∨ ∃ first newline rest, gap = first ++ newline :: rest ∧
      newline.kind = .newline ∧ used.Sublist rest := by
  cases comment with
  | none => exact .inl (attaches.none_used rfl)
  | some value =>
      obtain ⟨done, lines, block, -⟩ := attaches.value value rfl
      exact .inr (Token.exists_newline_before_block significant lines block)

/-- These are the tokens of `leadingBody`, of which there is one at most. -/
def Token.leadingComments : List Token → List Token
  | [] => []
  | first :: _ => if first.kind = .comment then [first] else []

theorem Token.attachesBeside_leading (after : List Token) :
    Token.AttachesBeside after (Token.leadingBody after) (Token.leadingComments after) := by
  cases after with
  | nil => exact ⟨by simp [Token.leadingBody], fun _ => rfl, by simp [Token.leadingBody]⟩
  | cons first others =>
      by_cases isComment : first.kind = .comment
      · rw [Token.leadingBody, if_pos isComment, Token.leadingComments, if_pos isComment]
        refine ⟨⟨fun _ => ⟨first, others, isComment, rfl⟩, fun _ => rfl⟩, by simp, ?_⟩
        intro value some
        exact ⟨first, others, rfl, rfl, (Option.some.inj some).symm⟩
      · rw [Token.leadingBody, if_neg isComment, Token.leadingComments, if_neg isComment]
        refine ⟨?_, fun _ => rfl, by simp⟩
        constructor
        · simp
        · rintro ⟨next, rest, isNext, same⟩
          exact absurd ((List.cons.inj same).1 ▸ isNext) isComment

/-- The comment beside a lexeme comes first in the gap after it. -/
theorem Token.attachesBeside_gap (gap : List Token) {next : Token} (rest : List Token)
    (significant : next.isSignificant = true) :
    Token.AttachesBeside (gap ++ next :: rest) (Token.leadingBody gap)
      (Token.leadingComments gap) := by
  cases gap with
  | nil =>
      have attaches := Token.attachesBeside_leading (next :: rest)
      have solid : next.kind ≠ .comment := by
        intro comment
        simp [Token.isSignificant, comment] at significant
      rwa [Token.leadingBody, if_neg solid, Token.leadingComments, if_neg solid] at attaches
  | cons first others => exact Token.attachesBeside_leading (first :: (others ++ next :: rest))

/-- The comments that a gap between two lexemes gives are different ones. -/
theorem Token.AttachesAbove.sublist_gap {before gap used : List Token} {lexeme : Token}
    {comment : Option String} (significant : lexeme.isSignificant = true)
    (attaches : Token.AttachesAbove (before ++ lexeme :: gap) comment used) :
    (Token.leadingComments gap ++ used).Sublist gap := by
  have leading : ∀ tokens : List Token, (Token.leadingComments tokens).Sublist tokens := by
    intro tokens
    cases tokens with
    | nil => exact .refl _
    | cons first others =>
        rw [Token.leadingComments]
        split
        · exact (List.nil_sublist others).cons_cons first
        · exact List.nil_sublist _
  rcases attaches.sublist significant with rfl | ⟨first, newline, rest, rfl, isNewline, inRest⟩
  · rw [List.append_nil]
    exact leading gap
  · have inFirst : Token.leadingComments (first ++ newline :: rest) =
        Token.leadingComments first := by
      cases first with
      | nil => simp [Token.leadingComments, isNewline]
      | cons _ _ => rfl
    rw [inFirst]
    exact (leading first).append (inRest.cons newline)

/-- The comments of a block come from the tokens before it. -/
theorem Token.AttachesAbove.sublist_before {before used : List Token} {comment : Option String}
    (attaches : Token.AttachesAbove before comment used) : used.Sublist before := by
  cases comment with
  | none => exact attaches.none_used rfl ▸ List.nil_sublist before
  | some value =>
      obtain ⟨done, lines, ⟨-, earlier, rfl, -⟩, -⟩ := attaches.value value rfl
      rw [List.append_assoc] at lines
      exact Token.sublist_of_suffix ⟨earlier, lines.symm⟩

/-! ### The slots of the lexemes of a text -/

theorem Lexeme.ofTokens_significant (margin : Margin) {token : Token} (rest : List Token)
    (significant : token.isSignificant = true) :
    Lexeme.ofTokens margin (token :: rest) =
      ⟨token.kind, token.text, token.span, margin.above, margin.beside⟩ ::
        Lexeme.ofTokens Margin.afterLexeme rest := by
  rcases token with ⟨kind, text, start⟩
  cases kind <;> first | rfl | simp [Token.isSignificant] at significant

theorem Lexeme.ofTokens_insignificant (margin : Margin) {token : Token} (rest : List Token)
    (insignificant : token.isSignificant = false) :
    Lexeme.ofTokens margin (token :: rest) = Lexeme.ofTokens (margin.pass token) rest := by
  rcases token with ⟨kind, text, start⟩
  cases kind <;> first | rfl | simp [Token.isSignificant] at insignificant

theorem Lexeme.ofTokens_append (margin : Margin) (first second : List Token) :
    Lexeme.ofTokens margin (first ++ second) =
      Lexeme.ofTokens margin first ++ Lexeme.ofTokens (first.foldl Margin.pass margin) second := by
  induction first generalizing margin with
  | nil => rfl
  | cons token rest inductionHypothesis =>
      cases significant : token.isSignificant with
      | true =>
          rw [List.cons_append, Lexeme.ofTokens_significant _ _ significant, inductionHypothesis,
            Lexeme.ofTokens_significant _ _ significant, List.foldl_cons,
            Margin.pass_lexeme _ significant, List.cons_append]
      | false =>
          rw [List.cons_append, Lexeme.ofTokens_insignificant _ _ significant, inductionHypothesis,
            Lexeme.ofTokens_insignificant _ _ significant, List.foldl_cons]

theorem Margin.after_gap (before gap : List Token) {lexeme : Token}
    (significant : lexeme.isSignificant = true) :
    Margin.after (before ++ lexeme :: gap) = gap.foldl Margin.pass Margin.afterLexeme := by
  rw [Margin.after, List.foldl_append, List.foldl_cons, Margin.pass_lexeme _ significant]

/-- The slots before a lexeme have their comments by the rule, and these come from the gap. -/
theorem Lexeme.holds_slotsBefore {before gap rest : List Token} {lexeme token : Token}
    (significant : lexeme.isSignificant = true) (kept : token.isSignificant = true)
    (insignificant : ∀ other ∈ gap, other.isSignificant = false)
    (follow : Token.Follow ((before ++ lexeme :: gap) ++ token :: rest)) :
    ∃ used : List (List Token),
      List.Forall₂ (Slot.Holds ((before ++ lexeme :: gap) ++ token :: rest))
        (Lexeme.slotsBefore lexeme.span.stop ⟨token.kind, token.text, token.span,
          (Margin.after (before ++ lexeme :: gap)).above,
          (Margin.after (before ++ lexeme :: gap)).beside⟩) used ∧
      used.flatten.Sublist gap := by
  obtain ⟨earlier, -, joint⟩ := List.isChain_append.1 follow
  obtain ⟨-, gapFollow, -⟩ := List.isChain_append.1 earlier
  have upTo : Token.Follow ((before ++ lexeme :: gap) ++ [token]) :=
    List.isChain_append.2 ⟨earlier, .singleton token, joint⟩
  obtain ⟨above, attachesAbove⟩ := Margin.exists_attachesAbove upTo kept
  have holdsAbove : Slot.Holds ((before ++ lexeme :: gap) ++ token :: rest)
      (.above token.span.start (Margin.after (before ++ lexeme :: gap)).above) above :=
    .above rfl kept attachesAbove
  have inGap := attachesAbove.sublist_gap significant
  by_cases isComma : token.kind = .comma
  · refine ⟨[above], ?_, ?_⟩
    · rw [Lexeme.slotsBefore, if_pos isComma]
      exact .cons holdsAbove .nil
    · simpa using (List.sublist_append_right _ above).trans inGap
  · have beside := (Margin.beside_foldl insignificant gapFollow.tail).1
    rw [← Margin.after_gap before gap significant] at beside
    have goesOn : ∀ next ∈ ((gap ++ token :: rest).filter Token.isSignificant).head?,
        next.kind ≠ .comma := by
      have none : gap.filter Token.isSignificant = [] :=
        List.filter_eq_nil_iff.2 (by simpa using insignificant)
      rw [List.filter_append, none, List.filter_cons_of_pos kept]
      rintro next isNext
      exact Option.some.inj isNext ▸ isComma
    have holdsBeside : Slot.Holds ((before ++ lexeme :: gap) ++ token :: rest)
        (.beside lexeme.span.stop (Token.leadingBody gap)) (Token.leadingComments gap) :=
      .beside (List.append_assoc before (lexeme :: gap) (token :: rest)) significant goesOn
        (Token.attachesBeside_gap gap rest kept)
    refine ⟨[Token.leadingComments gap, above], ?_, by simpa using inGap⟩
    rw [Lexeme.slotsBefore, if_neg isComma, beside]
    exact .cons holdsBeside (.cons holdsAbove .nil)

/-- After a lexeme all slots have their comments by the rule, and each comment is used once. -/
theorem Lexeme.holds_slotsAfter {before gap rest : List Token} {lexeme : Token}
    (significant : lexeme.isSignificant = true)
    (insignificant : ∀ token ∈ gap, token.isSignificant = false)
    (follow : Token.Follow (before ++ lexeme :: (gap ++ rest))) :
    ∃ used : List (List Token),
      List.Forall₂ (Slot.Holds (before ++ lexeme :: (gap ++ rest)))
        (Lexeme.slotsAfter lexeme.span.stop
          (Lexeme.ofTokens (Margin.after (before ++ lexeme :: gap)) rest)) used ∧
      used.flatten.Sublist (gap ++ rest) := by
  -- The gap grows by comments and line breaks until a lexeme comes, which uses them up.
  induction rest generalizing before gap lexeme with
  | nil => exact ⟨[], .nil, List.nil_sublist _⟩
  | cons token rest inductionHypothesis =>
      cases kept : token.isSignificant with
      | false =>
          have next : ∀ other ∈ gap ++ [token], other.isSignificant = false :=
            List.forall_mem_append.2 ⟨insignificant, by simpa using kept⟩
          have moved : gap ++ token :: rest = (gap ++ [token]) ++ rest := by simp
          rw [moved] at follow ⊢
          obtain ⟨used, holds, sublist⟩ := inductionHypothesis significant next follow
          have passed : Margin.after (before ++ lexeme :: (gap ++ [token])) =
              (Margin.after (before ++ lexeme :: gap)).pass token := by
            rw [← Margin.after_concat, List.append_assoc, List.cons_append]
          rw [passed] at holds
          rw [Lexeme.ofTokens_insignificant _ rest kept]
          exact ⟨used, holds, sublist⟩
      | true =>
          have divided : before ++ lexeme :: (gap ++ token :: rest) =
              (before ++ lexeme :: gap) ++ token :: rest := by simp
          rw [divided] at follow ⊢
          obtain ⟨first, holdsFirst, inGap⟩ :=
            Lexeme.holds_slotsBefore significant kept insignificant follow
          obtain ⟨used, holds, sublist⟩ :=
            inductionHypothesis kept (List.forall_mem_nil _) follow
          refine ⟨first ++ used, ?_, ?_⟩
          · rw [Lexeme.ofTokens_significant _ rest kept, Lexeme.slotsAfter]
            rw [Margin.after_concat, Margin.pass_lexeme _ kept] at holds
            exact List.rel_append holdsFirst holds
          · rw [List.flatten_append]
            exact inGap.append (sublist.cons token)

/-- All slots of the lexemes of a text have their comments by the rule, and each comment is used
once. -/
theorem Lexeme.holds_slots {before rest : List Token}
    (insignificant : ∀ token ∈ before, token.isSignificant = false)
    (follow : Token.Follow (before ++ rest)) :
    ∃ used : List (List Token),
      List.Forall₂ (Slot.Holds (before ++ rest))
        (Lexeme.slots (Lexeme.ofTokens (Margin.after before) rest)) used ∧
      used.flatten.Sublist (before ++ rest) := by
  induction rest generalizing before with
  | nil => exact ⟨[], .nil, List.nil_sublist _⟩
  | cons token rest inductionHypothesis =>
      cases kept : token.isSignificant with
      | false =>
          have next : ∀ other ∈ before ++ [token], other.isSignificant = false :=
            List.forall_mem_append.2 ⟨insignificant, by simpa using kept⟩
          have moved : before ++ token :: rest = (before ++ [token]) ++ rest := by simp
          rw [moved] at follow ⊢
          have holds := inductionHypothesis next follow
          rw [Margin.after_concat] at holds
          rw [Lexeme.ofTokens_insignificant _ rest kept]
          exact holds
      | true =>
          obtain ⟨earlier, later, joint⟩ := List.isChain_append.1 follow
          have upTo : Token.Follow (before ++ [token]) :=
            List.isChain_append.2 ⟨earlier, .singleton token, joint⟩
          obtain ⟨above, attaches⟩ := Margin.exists_attachesAbove upTo kept
          obtain ⟨used, holds, sublist⟩ :=
            Lexeme.holds_slotsAfter kept (List.forall_mem_nil _) follow
          refine ⟨above :: used, ?_, ?_⟩
          · rw [Lexeme.ofTokens_significant _ rest kept, Lexeme.slots]
            refine .cons (.above rfl kept attaches) ?_
            rw [Margin.after_concat, Margin.pass_lexeme _ kept] at holds
            exact holds
          · exact attaches.sublist_before.append (sublist.cons token)

end StorageSchema
