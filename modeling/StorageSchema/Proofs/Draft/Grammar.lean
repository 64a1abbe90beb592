/-
This file shows that the texts that are read are exactly those that the grammar derives, and that
the document that is read has the tree of the derivation.
-/
import StorageSchema.Proofs.Draft.Derivation

namespace StorageSchema

variable {Mark : Type} {legacy : Bool}

/-- Comments and line breaks are no significant symbols. -/
def Symbol.isSignificant (symbol : Symbol) : Bool :=
  decide (symbol.kind ≠ .comment ∧ symbol.kind ≠ .newline)

/-- These are the significant symbols before the end of a text. -/
def Symbol.inside (text : String) : List Symbol :=
  (Symbol.scan text.toList).filter Symbol.isSignificant

theorem Symbol.ofText_eq (text : String) : Symbol.ofText text = Symbol.inside text ++ [.ending] := by
  rw [Symbol.ofText, Token.significant, List.filter_append, List.map_append, Symbol.inside,
    Symbol.scan, List.filter_map]
  rfl

/-- The lexemes of a text are its significant symbols. -/
theorem Lexeme.outline_ofTokens (margin : Margin) (tokens : List Token) :
    (Lexeme.ofTokens margin tokens).map (Lexeme.outline false) =
      ((tokens.map Token.symbol).filter Symbol.isSignificant).map Symbol.lexeme := by
  induction tokens generalizing margin with
  | nil => rfl
  | cons token rest inductionHypothesis =>
      rcases token with ⟨kind, text, start⟩
      rw [Lexeme.ofTokens, List.map_cons]
      cases kind with
      | comment | newline => exact inductionHypothesis _
      | _ => exact congrArg (_ :: ·) (inductionHypothesis _)

theorem Lexeme.outline_ofText (text : String) :
    (Lexeme.ofText text).map (Lexeme.outline false) =
      (Symbol.inside text).map Symbol.lexeme :=
  Lexeme.outline_ofTokens Margin.opening (Token.ofText text)

/-- The symbols alone decide what is read, and whether it is. -/
def Document.ofSymbols (legacy : Bool) (symbols : List Symbol) :
    Except (SyntaxError Unit) (Document Unit) :=
  Document.ofLexemes legacy () (symbols.map Symbol.lexeme) Symbol.ending.lexeme

theorem Document.outline_ofText (legacy : Bool) (text : String) :
    SyntaxError.outlineOutcome false (Document.outline false) (Document.ofText legacy text) =
      Document.ofSymbols legacy (Symbol.inside text) := by
  rw [Document.ofText, ← Document.ofLexemes_outline, Lexeme.outline_ofText]
  rfl

theorem Document.ofSymbols_eq_ok_iff {symbols : List Symbol} {document : Document Unit} :
    Document.ofSymbols legacy symbols = .ok document ↔
      ∃ finished, Draft.Reads legacy symbols Draft.empty ⟨finished, .outside⟩ ∧
        document = ⟨(), finished.reverse⟩ :=
  Document.ofLexemes_eq_ok_iff

/-- Only a symbol that documents can contain is read. -/
theorem Draft.Step.isSolid [Union Mark] {lexeme : Lexeme Mark} {draft next : Draft Mark}
    (step : Draft.Step legacy lexeme draft next) : lexeme.kind.IsSolid := by
  rcases lexeme with ⟨kind, text, mark, above, beside⟩
  cases step with
  | type part => cases part <;> simp_all [Token.Kind.IsSolid]
  | _ => simp_all [Token.Kind.IsSolid]

/-- The symbols of a text are spelled as documents spell them, if documents can contain them. -/
theorem Symbol.isSpelled_of_mem_inside {text : String} {symbol : Symbol}
    (present : symbol ∈ Symbol.inside text) (solid : symbol.kind.IsSolid) : symbol.IsSpelled := by
  obtain ⟨token, scanned, rfl⟩ := List.mem_map.1 (List.mem_filter.1 present).1
  exact Token.isSpelled_of_mem_scan scanned solid

/-- What has been read begins a derivation. -/
theorem Draft.Form.reads {before word : List Symbol} {draft last : Draft Unit}
    (form : draft.Form legacy before) (read : Draft.Reads legacy word draft last)
    (spelled : ∀ symbol ∈ word, symbol.kind.IsSolid → symbol.IsSpelled) :
    last.Form legacy (before ++ word) := by
  induction word generalizing before draft with
  | nil =>
      cases read
      simpa using form
  | cons symbol rest inductionHypothesis =>
      rcases read with _ | ⟨step, read⟩
      have next := form.step (spelled symbol List.mem_cons_self step.isSolid) step
      have last := inductionHypothesis next read fun other present =>
        spelled other (List.mem_cons_of_mem symbol present)
      simpa using last

theorem Draft.Form.empty : Draft.empty.Form legacy [] := .intro .nil .outside rfl

/-- A document that is read has the tree of a derivation. -/
theorem Document.form_of_ofText {text : String} {document : Document Span}
    (read : Document.ofText legacy text = .ok document) :
    DocumentForm legacy (Symbol.ofText text) (document.outline false) := by
  have outlined := Document.outline_ofText legacy text
  rw [read] at outlined
  obtain ⟨finished, run, same⟩ := Document.ofSymbols_eq_ok_iff.1 outlined.symm
  have form := Draft.Form.empty.reads run fun symbol => Symbol.isSpelled_of_mem_inside
  obtain @⟨words, word, _, _, definitions, rest, joined⟩ := form
  cases rest
  rw [List.append_nil, List.nil_append] at joined
  rw [same, Symbol.ofText_eq, ← joined]
  exact .document definitions

/-- A text with a derivation is read. -/
theorem Document.exists_of_form {text : String} {tree : Document Unit}
    (form : DocumentForm legacy (Symbol.ofText text) tree) :
    ∃ document, Document.ofText legacy text = .ok document ∧ document.outline false = tree := by
  have outlined := Document.outline_ofText legacy text
  rw [Symbol.ofText_eq] at form
  generalize whole : Symbol.inside text ++ [Symbol.ending] = symbols at form
  obtain @⟨word, definitions, sequence⟩ := form
  obtain rfl := List.append_cancel_right whole
  rw [Document.ofSymbols_eq_ok_iff.2 ⟨_, sequence.readsDefinitions, rfl⟩,
    List.reverse_reverse] at outlined
  cases read : Document.ofText legacy text with
  | error _ =>
      rw [read] at outlined
      cases outlined
  | ok document =>
      rw [read] at outlined
      exact ⟨document, rfl, Except.ok.inj outlined⟩

/-- A document is read from a text if and only if the grammar derives its tree from the symbols of
the text. -/
theorem Document.ofText_iff_form (legacy : Bool) (text : String) (tree : Document Unit) :
    (∃ document, Document.ofText legacy text = .ok document ∧ document.outline false = tree) ↔
      DocumentForm legacy (Symbol.ofText text) tree := by
  constructor
  · rintro ⟨document, read, rfl⟩
    exact Document.form_of_ofText read
  · exact Document.exists_of_form

end StorageSchema
