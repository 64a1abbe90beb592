/-
This file cuts a text at its tokens. The part of a text from one token to another has those tokens
by itself too, and also before any other text that delimits it.
-/
import StorageSchema.Proofs.Comments.TextLines
import StorageSchema.Proofs.Token.Lookahead

namespace StorageSchema

open Token (scan measure isSpace Delimits LookAlike)

theorem Token.delimits_nil : Delimits [] := by simp [Delimits]

/-- A part of a text ends with a token if what delimits it is divided apart from it. -/
def Text.EndsWithToken (part : List Char) : Prop :=
  ∀ start tail, Delimits tail →
    scan start (part ++ tail) = scan start part ++ scan (start + Text.size part) tail

/-- Texts that go on after a part with a token at its end look alike. -/
theorem Token.lookAlike_part {start : Nat} {part : List Char} {front : List Token} {last : Token}
    (divided : scan start part = front ++ [last]) (solid : last.kind.IsSolid)
    (after other : List Char) : LookAlike (part ++ after) (part ++ other) := by
  cases part with
  | nil => simp [Token.scan_nil] at divided
  | cons letter more =>
      refine ⟨.same, ?_⟩
      intro rest same
      obtain ⟨rfl, rfl⟩ := List.cons.inj same
      cases more with
      | nil =>
          -- A point by itself is no token of a document.
          have point : scan start ['.'] = [⟨.invalid, ".", start⟩] := by
            rw [Token.scan_token start [] (by decide), show measure '.' [] = (.invalid, 0) from rfl,
              List.drop_nil, Token.scan_nil]
            rfl
          have ends := congrArg List.getLast? (point.symm.trans divided)
          rw [List.getLast?_singleton, List.getLast?_concat] at ends
          obtain rfl := Option.some.inj ends
          exact absurd rfl solid.2.2.2.1
      | cons next more => exact ⟨next :: more ++ other, rfl, .same⟩

/-- What comes before a token of a text is cut off right there. -/
theorem Token.exists_rest {start : Nat} {text : List Char} (front : List Token)
    {rest : List Token} {first : Token} (divided : scan start text = front ++ first :: rest) :
    ∃ before after, text = before ++ after ∧ first.start = start + Text.size before ∧
      scan first.start after = first :: rest := by
  revert front
  induction start, text using scan.induct with
  | case1 start =>
      intro front divided
      simp [Token.scan_nil] at divided
  | case2 start letter text space inductionHypothesis =>
      intro front divided
      rw [Token.scan_space start text space] at divided
      obtain ⟨before, after, rfl, starts, rest⟩ := inductionHypothesis front divided
      refine ⟨letter :: before, after, rfl, ?_, rest⟩
      rw [starts, Text.size_cons, Nat.add_assoc]
  | case3 start letter text solid measured own inductionHypothesis =>
      intro front divided
      have whole := divided
      rw [Token.scan_token start text solid] at divided
      cases front with
      | nil =>
          obtain ⟨rfl, -⟩ := List.cons.inj divided
          exact ⟨[], letter :: text, rfl, rfl, whole⟩
      | cons token front =>
          obtain ⟨before, after, same, starts, rest⟩ :=
            inductionHypothesis front (List.cons.inj divided).2
          refine ⟨own ++ before, after, ?_, ?_, rest⟩
          · rw [List.append_assoc, ← same]
            exact congrArg (letter :: ·) (List.take_append_drop _ _).symm
          · rw [starts, Text.size_append, Nat.add_assoc]

/-- What comes after a token of a text is cut off right there. -/
theorem Token.exists_part {start : Nat} {text : List Char} (front : List Token)
    {rest : List Token} {last : Token} (divided : scan start text = front ++ last :: rest)
    (solid : last.kind.IsSolid) :
    ∃ part after, text = part ++ after ∧ scan start part = front ++ [last] ∧
      last.span.stop = start + Text.size part ∧ Text.EndsWithToken part := by
  revert front
  induction start, text using scan.induct with
  | case1 start =>
      intro front divided
      simp [Token.scan_nil] at divided
  | case2 start letter text space inductionHypothesis =>
      intro front divided
      rw [Token.scan_space start text space] at divided
      obtain ⟨part, after, rfl, own, stops, ends⟩ := inductionHypothesis front divided
      refine ⟨letter :: part, after, rfl, ?_, ?_, ?_⟩
      · rw [Token.scan_space start part space, own]
      · rw [stops, Text.size_cons, Nat.add_assoc]
      · intro other tail delimits
        rw [List.cons_append, Token.scan_space _ _ space, Token.scan_space _ _ space,
          ends _ tail delimits, Text.size_cons, Nat.add_assoc]
  | case3 start letter text noSpace measured own inductionHypothesis =>
      intro front divided
      have isSolid : isSpace letter = false := Bool.not_eq_true _ ▸ noSpace
      obtain ⟨taken, tail, rfl, counted⟩ := Token.exists_division letter text
      have length : (measure letter (taken ++ tail)).2 = taken.length := congrArg Prod.snd counted
      simp only [own, measured, length, List.take_left, List.drop_left] at inductionHypothesis
      generalize kinds : (measure letter (taken ++ tail)).1 = kind at counted
      rw [← List.cons_append, Token.scan_measured isSolid counted] at divided
      cases front with
      | nil =>
          obtain ⟨rfl, -⟩ := List.cons.inj divided
          have spelled := Token.isSpelled_of_measure counted solid
          rw [List.take_left] at spelled
          have found (start : Nat) (tail : List Char) (delimits : Delimits tail) :
              scan start (letter :: taken ++ tail) =
                ⟨kind, String.ofList (letter :: taken), start⟩ ::
                  scan (start + Text.size (letter :: taken)) tail :=
            Token.scan_measured isSolid (Token.measure_spelled spelled fun _ => delimits).2 start
          have alone (start : Nat) : scan start (letter :: taken) =
              [⟨kind, String.ofList (letter :: taken), start⟩] := by
            have single := found start [] Token.delimits_nil
            rwa [List.append_nil, Token.scan_nil] at single
          refine ⟨letter :: taken, tail, rfl, alone start, ?_, ?_⟩
          · rw [Text.size_eq_utf8ByteSize]
            rfl
          · intro other tail delimits
            rw [found other tail delimits, alone]
            rfl
      | cons token front =>
          obtain ⟨rfl, others⟩ := List.cons.inj divided
          obtain ⟨part, after, rfl, inPart, stops, ends⟩ := inductionHypothesis front others
          have found (start : Nat) (other : List Char) :
              scan start (letter :: taken ++ (part ++ other)) =
                ⟨kind, String.ofList (letter :: taken), start⟩ ::
                  scan (start + Text.size (letter :: taken)) (part ++ other) :=
            Token.scan_measured isSolid (Token.measure_alike counted
              (Token.lookAlike_part inPart solid after other)) start
          have alone (start : Nat) : scan start (letter :: taken ++ part) =
              ⟨kind, String.ofList (letter :: taken), start⟩ ::
                scan (start + Text.size (letter :: taken)) part := by
            have single := found start []
            rwa [List.append_nil] at single
          refine ⟨letter :: taken ++ part, after, ?_, ?_, ?_, ?_⟩
          · exact (List.append_assoc (letter :: taken) _ _).symm
          · rw [alone, inPart]
            rfl
          · rw [stops, Text.size_append, Nat.add_assoc]
          · intro other tail delimits
            rw [List.append_assoc, found, ends _ tail delimits, alone, Text.size_append,
              Nat.add_assoc]
            rfl

/-- A text ends with its last token if nothing comes after that. -/
theorem Text.EndsWithToken.of_scan {start : Nat} {text : List Char} {front : List Token}
    {last : Token} (divided : scan start text = front ++ [last]) (solid : last.kind.IsSolid)
    (stops : last.span.stop = start + Text.size text) : Text.EndsWithToken text := by
  obtain ⟨part, after, rfl, -, ends, separates⟩ := Token.exists_part front divided solid
  have nothing : Text.size after = 0 := by
    rw [stops, Text.size_append] at ends
    omega
  cases after with
  | nil => rwa [List.append_nil]
  | cons letter rest =>
      rw [Text.size_cons] at nothing
      exact absurd letter.utf8Size_pos (by omega)

end StorageSchema
