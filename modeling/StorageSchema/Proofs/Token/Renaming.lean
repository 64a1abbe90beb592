/-
This file renames identifiers of a text. The text that comes out has the same tokens apart from the
new names.
-/
import StorageSchema.Document.Modern
import StorageSchema.Proofs.Comments.TextLines
import StorageSchema.Proofs.Token.Lookahead
import StorageSchema.Proofs.Token.Order

namespace StorageSchema

open Token (scan measure isSpace startsName continuesName IsIdentifier LookAlike BeginAlike)

/-! ### Replacing slices -/

theorem Text.splitAt?_append_add (front text : List Char) (count : Nat) :
    Text.splitAt? (front ++ text) (Text.size front + count) =
      (Text.splitAt? text count).map fun parts => (front ++ parts.1, parts.2) := by
  induction front with
  | nil =>
      rw [List.nil_append, Text.size_nil, Nat.zero_add]
      exact Option.map_id'.symm
  | cons letter rest inductionHypothesis =>
      have positive : 0 < letter.utf8Size := letter.utf8Size_pos
      obtain ⟨before, counted⟩ : ∃ before, letter.utf8Size + Text.size rest + count = before + 1 :=
        ⟨letter.utf8Size + Text.size rest + count - 1, by omega⟩
      have others : before + 1 - letter.utf8Size = Text.size rest + count := by omega
      rw [List.cons_append, Text.size_cons, counted, Text.splitAt?, if_pos (by omega), others,
        inductionHypothesis, Option.map_map]
      rfl

/-- What stands before the first slice stays as it is. -/
theorem Text.replaceAll?_append {offset : Nat} {front : List Char} {edits : List (Span × String)}
    (later : ∀ edit ∈ edits, offset + Text.size front ≤ edit.1.start) (text : List Char) :
    Text.replaceAll? offset (front ++ text) edits =
      (Text.replaceAll? (offset + Text.size front) text edits).map (front ++ ·) := by
  cases edits with
  | nil => rfl
  | cons edit rest =>
      obtain ⟨⟨start, stop⟩, new⟩ := edit
      have after : offset + Text.size front ≤ start := later _ List.mem_cons_self
      have distance : start - offset = Text.size front + (start - (offset + Text.size front)) := by
        omega
      have guard : (offset ≤ start ∧ start ≤ stop) = (offset + Text.size front ≤ start ∧
          start ≤ stop) := by
        rw [eq_true after, eq_true (Nat.le_trans (Nat.le_add_right _ _) after)]
      simp only [Text.replaceAll?, guard, distance, Text.splitAt?_append_add]
      split
      · cases Text.splitAt? text (start - (offset + Text.size front)) with
        | none => rfl
        | some outer =>
            simp only [Option.map_some, Option.bind_eq_bind, Option.bind_some, Option.map_bind,
              Function.comp_def, List.append_assoc]
      · rfl

/-- A slice at the beginning is replaced first. -/
theorem Text.replaceAll?_cons (offset : Nat) (part text : List Char) (new : String)
    (edits : List (Span × String)) :
    Text.replaceAll? offset (part ++ text) ((⟨offset, offset + Text.size part⟩, new) :: edits) =
      (Text.replaceAll? (offset + Text.size part) text edits).map (new.toList ++ ·) := by
  have nothing : Text.splitAt? (part ++ text) 0 = some ([], part ++ text) := by
    cases part ++ text <;> rfl
  have guard : offset ≤ offset ∧ offset ≤ offset + Text.size part := by omega
  simp only [Text.replaceAll?, if_pos guard, Nat.sub_self, nothing, Nat.add_sub_cancel_left,
    Option.bind_eq_bind, Option.bind_some, Text.splitAt?_append, List.nil_append]
  cases Text.replaceAll? (offset + Text.size part) text edits <;> rfl

/-! ### Renaming identifiers -/

/-- A renamed token has its new name, if there is one. -/
def Token.renamed (pair : Token × Option String) : Symbol :=
  ⟨pair.1.kind, pair.2.getD pair.1.text⟩

/-- A new name replaces the slice of the token. -/
def Token.edit? (pair : Token × Option String) : Option (Span × String) :=
  pair.2.map fun new => (pair.1.span, new)

/-- Only identifiers are renamed, and their new names are identifiers. -/
def Token.IsRenaming (pair : Token × Option String) : Prop :=
  ∀ new ∈ pair.2, pair.1.kind = .identifier ∧ IsIdentifier new.toList

theorem Token.le_start_of_edit {start : Nat} {text : List Char}
    {pairs : List (Token × Option String)} (tokens : pairs.map Prod.fst = scan start text) :
    ∀ edit ∈ pairs.filterMap Token.edit?, start ≤ edit.1.start := by
  intro edit present
  obtain ⟨pair, isPair, edited⟩ := List.mem_filterMap.1 present
  obtain ⟨new, -, rfl⟩ := Option.map_eq_some_iff.1 edited
  have scanned : pair.1 ∈ scan start text := tokens ▸ List.mem_map_of_mem isPair
  exact (Token.ordered_scan start text).le_start pair.1 scanned

/-- An identifier begins as one, and what follows does not go on with it. -/
theorem Token.stops_of_measure {first : Char} {text tail : List Char}
    (measured : measure first (text ++ tail) = (.identifier, text.length)) :
    startsName first = true ∧ tail.head?.any continuesName = false := by
  unfold measure at measured
  split at measured
  · cases measured
  split at measured
  · next starts =>
      have counted := (Prod.mk.inj measured).2
      exact ⟨starts, (Token.countWhile_eq_length_iff.1 counted).2⟩
  split at measured
  · cases measured
  split at measured
  · have kind := Token.stringLength_kind first (text ++ tail)
    rw [measured] at kind
    simp at kind
  · have kind := (Prod.mk.inj measured).1
    cases sign : Token.punctuation? first with
    | none =>
        rw [sign] at kind
        cases kind
    | some found =>
        rw [sign] at kind
        obtain rfl : found = .identifier := kind
        exact absurd (Token.kind_of_punctuation? sign) (by simp)

theorem Token.measure_name {first : Char} {rest tail : List Char}
    (identifier : IsIdentifier (first :: rest)) (stops : tail.head?.any continuesName = false) :
    measure first (rest ++ tail) = (.identifier, rest.length) := by
  have noComment : first ≠ '#' ∧ first ≠ '/' := by
    constructor <;> rintro rfl <;> exact absurd identifier.1 (by decide)
  have counted := Token.countWhile_eq_length_iff.2 ⟨identifier.2, stops⟩
  simp [measure, noComment, identifier.1, counted]

/-- A token with a text after it looks as it does with one after it that looks alike. -/
theorem Token.lookAlike_append {kind : Token.Kind} {first : Char} {text tail other : List Char}
    (measured : measure first (text ++ tail) = (kind, text.length))
    (alike : LookAlike tail other) : LookAlike (first :: text ++ tail) (first :: text ++ other) := by
  refine ⟨.same, ?_⟩
  intro rest same
  obtain ⟨rfl, rfl⟩ := List.cons.inj same
  -- A point that is a token by itself stands right before the texts that look alike.
  obtain rfl : text = [] := List.length_eq_zero_iff.1 (Prod.mk.inj measured).2.symm
  exact ⟨other, rfl, alike.begins⟩

theorem Token.lookAlike_space {first : Char} (space : isSpace first = true)
    (rest other : List Char) : LookAlike (first :: rest) (first :: other) := by
  refine ⟨.same, ?_⟩
  intro _ same
  obtain rfl := (List.cons.inj same).1
  exact absurd space (by decide)

/-- A token that keeps its name stays before what looks like the text that followed it. -/
theorem Token.scan_kept {kind : Token.Kind} {first : Char} {text tail other : List Char}
    (solid : isSpace first = false) (measured : measure first (text ++ tail) = (kind, text.length))
    (alike : LookAlike tail other) :
    Symbol.scan (first :: text ++ other) =
      ⟨kind, String.ofList (first :: text)⟩ :: Symbol.scan other :=
  Symbol.scan_measured solid (Token.measure_alike measured alike)

/-- An identifier can be put in place of another. -/
theorem Token.scan_renamed {first : Char} {text tail other : List Char} {new : String}
    (measured : measure first (text ++ tail) = (.identifier, text.length))
    (alike : LookAlike tail other) (identifier : IsIdentifier new.toList) :
    Symbol.scan (new.toList ++ other) = .word new :: Symbol.scan other ∧
      LookAlike (first :: text ++ tail) (new.toList ++ other) := by
  obtain ⟨starts, stops⟩ := Token.stops_of_measure measured
  rw [alike.begins.any_eq fun _ => Token.continuesName_of_startsName] at stops
  have spelling : String.ofList new.toList = new := String.ofList_toList
  cases letters : new.toList with
  | nil =>
      rw [letters] at identifier
      exact identifier.elim
  | cons letter rest =>
      rw [letters] at identifier spelling
      have scanned := Symbol.scan_measured (Token.isSpace_of_startsName identifier.1)
        (Token.measure_name identifier stops)
      rw [spelling] at scanned
      refine ⟨scanned, .names starts identifier.1, ?_⟩
      intro _ same
      exact absurd (List.cons.inj same).1 (Token.ne_of_startsName starts (by decide))

/-- If identifiers of a text are given new names in place of their slices, then the text that comes
out has the renamed tokens. -/
theorem Token.exists_renamed {start : Nat} {text : List Char}
    (pairs : List (Token × Option String)) (tokens : pairs.map Prod.fst = scan start text)
    (names : ∀ pair ∈ pairs, Token.IsRenaming pair) :
    ∃ result, Text.replaceAll? start text (pairs.filterMap Token.edit?) = some result ∧
      Symbol.scan result = pairs.map Token.renamed ∧ LookAlike text result := by
  revert pairs
  induction start, text using Token.scan.induct with
  | case1 start =>
      intro pairs tokens names
      rw [Token.scan_nil, List.map_eq_nil_iff] at tokens
      subst tokens
      exact ⟨[], rfl, Symbol.scan_nil, .nil, fun _ same => by cases same⟩
  | case2 start first rest space inductionHypothesis =>
      intro pairs tokens names
      rw [Token.scan_space start rest space] at tokens
      obtain ⟨result, replaced, symbols, -⟩ := inductionHypothesis pairs tokens names
      have passed : Text.replaceAll? start ([first] ++ rest) (pairs.filterMap Token.edit?) =
          some ([first] ++ result) := by
        rw [Text.replaceAll?_append (Token.le_start_of_edit tokens), Text.size_cons, Text.size_nil,
          Nat.add_zero, replaced, Option.map_some]
      exact ⟨first :: result, passed, by rw [Symbol.scan_space space, symbols],
        Token.lookAlike_space space rest result⟩
  | case3 start first rest solid measured letters inductionHypothesis =>
      intro pairs tokens names
      obtain ⟨taken, tail, rfl, counted⟩ := Token.exists_division first rest
      have length : (measure first (taken ++ tail)).2 = taken.length := congrArg Prod.snd counted
      rw [Token.scan_token start _ solid] at tokens
      simp only [letters, measured, length, List.take_left, List.drop_left]
        at tokens inductionHypothesis
      generalize (measure first (taken ++ tail)).1 = kind at counted tokens
      obtain ⟨⟨token, new?⟩, others, rfl, rfl, rest⟩ := List.map_eq_cons_iff.1 tokens
      obtain ⟨result, replaced, symbols, alike⟩ := inductionHypothesis others rest
        fun pair present => names pair (List.mem_cons_of_mem _ present)
      cases new? with
      | none =>
          have passed : Text.replaceAll? start ((first :: taken) ++ tail)
              (others.filterMap Token.edit?) = some ((first :: taken) ++ result) := by
            rw [Text.replaceAll?_append (Token.le_start_of_edit rest), replaced, Option.map_some]
          have scanned := Token.scan_kept (Bool.not_eq_true _ ▸ solid) counted alike
          refine ⟨first :: taken ++ result, passed, ?_, Token.lookAlike_append counted alike⟩
          rw [scanned, symbols]
          rfl
      | some new =>
          obtain ⟨same, identifier⟩ := names _ List.mem_cons_self new rfl
          obtain rfl : kind = .identifier := same
          obtain ⟨scanned, looks⟩ := Token.scan_renamed counted alike identifier
          have passed := Text.replaceAll?_cons start (first :: taken) tail new
            (others.filterMap Token.edit?)
          rw [replaced, Option.map_some, Text.size_eq_utf8ByteSize] at passed
          refine ⟨new.toList ++ result, passed, ?_, looks⟩
          rw [scanned, symbols]
          rfl

end StorageSchema
