/-
This file shows that the written form of a normal type is divided into symbols that the grammar
derives it from.
-/
import StorageSchema.Document.Written
import StorageSchema.Proofs.Draft.Outline
import StorageSchema.Proofs.Text.Quoted
import StorageSchema.Proofs.Written.Normal

namespace StorageSchema

open Token (Delimits IsIdentifier)

variable {Mark : Type} {legacy : Bool} {spell : Double → List Char}

/-- Numbers are spelled faithfully if each one that has a spelling is given one. -/
def Double.IsFaithful (spell : Double → List Char) : Prop :=
  ∀ value, (∃ spelling, Double.IsSpelling spelling value) → Double.IsSpelling (spell value) value

/-- Any spelling of a number is one of a faithful choice. -/
theorem Double.exists_isFaithful {spelling : List Char} {value : Double}
    (spells : Double.IsSpelling spelling value) :
    ∃ spell, Double.IsFaithful spell ∧ spell value = spelling := by
  classical
  let others (number : Double) : List Char :=
    if found : ∃ spelling, Double.IsSpelling spelling number then found.choose else []
  refine ⟨Function.update others value spelling, ?_, Function.update_self value spelling others⟩
  intro number found
  by_cases same : number = value
  · rw [same, Function.update_self]
    exact spells
  · have chosen : others number = found.choose := dif_pos found
    rw [Function.update_of_ne same, chosen]
    exact found.choose_spec

/-- A text spells a word if it is divided into its symbols wherever what follows delimits it. -/
def Symbol.Spells (text : List Char) (word : List Symbol) : Prop :=
  ∀ tail, Delimits tail → Symbol.scan (text ++ tail) = word ++ Symbol.scan tail

theorem Token.delimits_cons {letter : Char}
    (ends : Token.continuesName letter = false ∧ letter ≠ '.') (rest : List Char) :
    Delimits (letter :: rest) := by
  rintro other isFirst
  exact Option.some.inj isFirst ▸ ends

theorem Symbol.Spells.nil : Symbol.Spells [] [] := fun _ _ => rfl

theorem Symbol.Spells.token {kind : Token.Kind} {text : List Char}
    (spelled : Token.IsSpelled kind text) : Symbol.Spells text [⟨kind, String.ofList text⟩] :=
  fun _ delimits => Symbol.scan_spelled spelled fun _ => delimits

theorem Symbol.Spells.word {name : String} (identifier : IsIdentifier name.toList) :
    Symbol.Spells name.toList [.word name] := by
  have spells := Symbol.Spells.token (.identifier identifier)
  rwa [String.ofList_toList] at spells

theorem Symbol.Spells.sign (letter : Char) {kind : Token.Kind} {text : List Char}
    {word : List Symbol} (sign : Token.punctuation? letter = some kind)
    (rest : Symbol.Spells text word) : Symbol.Spells (letter :: text) (.sign letter :: word) := by
  intro tail delimits
  rw [List.cons_append, Symbol.scan_sign sign, rest tail delimits]
  rfl

theorem Symbol.Spells.space {text : List Char} {word : List Symbol}
    (rest : Symbol.Spells text word) : Symbol.Spells (' ' :: text) word := by
  intro tail delimits
  rw [List.cons_append, Symbol.scan_space rfl, rest tail delimits]

/-- A text that begins with a delimiter may follow any other. -/
theorem Symbol.Spells.append {first rest : List Char} {letter : Char} {word other : List Symbol}
    (left : Symbol.Spells first word) (right : Symbol.Spells (letter :: rest) other)
    (ends : Token.continuesName letter = false ∧ letter ≠ '.') :
    Symbol.Spells (first ++ letter :: rest) (word ++ other) := by
  intro tail delimits
  rw [List.append_assoc, List.cons_append, left _ (Token.delimits_cons ends _), ← List.cons_append,
    right tail delimits, List.append_assoc]

/-- What a wrapper holds stands between angles after its keyword. -/
theorem Wrapper.spells_written (wrapper : Wrapper) {text : List Char} {word : List Symbol}
    (inside : Symbol.Spells text word) :
    Symbol.Spells (wrapper.written text)
      ([.word wrapper.keyword, .sign '<'] ++ word ++ [.sign '>']) := by
  have identifier : IsIdentifier wrapper.keyword.toList := by
    cases wrapper <;> decide
  have closed := inside.append (.sign '>' rfl .nil) (by decide)
  have opened := (Symbol.Spells.word identifier).append (closed.sign '<' rfl) (by decide)
  simpa [Wrapper.written] using opened

/-- More members may come before the first one. -/
theorem MembersForm.cons {word words : List Symbol} {item : TypeExpr Unit}
    {members : List (TypeExpr Unit)} (first : ItemForm legacy word item) :
    MembersForm legacy words members →
      MembersForm legacy (word ++ .sign '|' :: words) (item :: members)
  | .first form => by simpa using (MembersForm.first first).next form
  | .next before form => by simpa using (MembersForm.cons first before).next form

/-- A text writes a type if the grammar derives the type from the symbols of the text, and as an item
unless it is a union. -/
def TypeExpr.IsWritten (legacy : Bool) (type : TypeExpr Unit) (text : List Char) : Prop :=
  ∃ word, TypeForm legacy word type ∧ (¬ type.IsUnion → ItemForm legacy word type) ∧
    Symbol.Spells text word

theorem ItemForm.isWritten {word : List Symbol} {type : TypeExpr Unit} {text : List Char}
    (form : ItemForm legacy word type) (spells : Symbol.Spells text word) :
    type.IsWritten legacy text := ⟨word, .single form, fun _ => form, spells⟩

theorem PrimaryForm.isWritten {word : List Symbol} {type : TypeExpr Unit} {text : List Char}
    (form : PrimaryForm legacy word type) (spells : Symbol.Spells text word) :
    type.IsWritten legacy text := (ItemForm.primary form).isWritten spells

theorem TypeExpr.isWritten_scalar (kind : Scalar) :
    (TypeExpr.scalar () kind).IsWritten legacy kind.keyword.toList := by
  refine (PrimaryForm.scalar kind).isWritten (.word ?_)
  cases kind <;> decide

theorem TypeExpr.isWritten_string (value : String) :
    (TypeExpr.string () value).IsWritten legacy (Text.Quoted.encode '\x22' value.toList) := by
  have isQuote : Token.IsQuote '\x22' := .inl rfl
  have form : PrimaryForm legacy _ _ :=
    .string (String.ofList (Text.Quoted.encode '\x22' value.toList))
  rw [String.toList_ofList, Text.Quoted.decode_encode _ rfl, String.ofList_toList] at form
  exact form.isWritten (.token (.string isQuote (Text.Quoted.isStringBody_escape isQuote _)))

theorem TypeExpr.isWritten_number {value : Double} {spelling : List Char}
    (spells : Double.IsSpelling spelling value) :
    (TypeExpr.number () value).IsWritten legacy spelling := by
  have form : PrimaryForm legacy _ _ := .number (String.ofList spelling)
  rw [String.toList_ofList, spells.2] at form
  exact form.isWritten (.token (.number spells.1))

theorem TypeExpr.isWritten_boolean (value : Bool) :
    (TypeExpr.boolean () value).IsWritten legacy (writtenBoolean value) := by
  cases value with
  | true => exact PrimaryForm.yes.isWritten (.word (by decide))
  | false => exact PrimaryForm.no.isWritten (.word (by decide))

theorem TypeExpr.isWritten_reference {named : Reference Mark}
    (identifier : IsIdentifier named.name.text.toList) (isName : IsTypeName named.name.text) :
    (TypeExpr.reference named).outline.IsWritten legacy named.written := by
  have spells := Symbol.Spells.word identifier
  rcases named with ⟨mark, name, asLiveObject⟩
  cases asLiveObject with
  | true =>
      have opened := Wrapper.liveObject.spells_written spells
      exact (PrimaryForm.liveObject isName).isWritten opened
  | false => exact (PrimaryForm.name isName).isWritten spells

theorem TypeExpr.IsWritten.array {item : TypeExpr Unit} {text : List Char}
    (written : item.IsWritten legacy text) (noUnion : ¬ item.IsUnion) :
    (TypeExpr.array () item).IsWritten legacy (text ++ ['[', ']']) := by
  obtain ⟨word, -, form, spells⟩ := written
  exact (ItemForm.array (form noUnion)).isWritten
    (spells.append (.sign '[' rfl (.sign ']' rfl .nil)) (by decide))

theorem TypeExpr.IsWritten.liveList {item : TypeExpr Unit} {text : List Char}
    (written : item.IsWritten legacy text) :
    (TypeExpr.liveList () item).IsWritten legacy (Wrapper.liveList.written text) := by
  obtain ⟨word, form, -, spells⟩ := written
  exact (PrimaryForm.liveList form).isWritten (Wrapper.liveList.spells_written spells)

theorem TypeExpr.IsWritten.liveMap {key value : TypeExpr Unit} {keyText valueText : List Char}
    (keyWritten : key.IsWritten legacy keyText) (valueWritten : value.IsWritten legacy valueText) :
    (TypeExpr.liveMap () key value).IsWritten legacy
      (Wrapper.liveMap.written (keyText ++ [',', ' '] ++ valueText)) := by
  obtain ⟨keyWord, keyForm, -, keySpells⟩ := keyWritten
  obtain ⟨valueWord, valueForm, -, valueSpells⟩ := valueWritten
  have inside := keySpells.append (valueSpells.space.sign ',' rfl) (by decide)
  have spells := Wrapper.liveMap.spells_written inside
  rw [List.append_assoc]
  refine (PrimaryForm.liveMap keyForm valueForm).isWritten ?_
  simpa [Wrapper.keyword] using spells

-- The grammar adds members at the end of a union, and the writer goes through them from the first.
-- The lemma `MembersForm.cons` turns the one order into the other.
mutual

/-- A normal type is written by its written form. -/
theorem TypeExpr.isWritten_written (faithful : Double.IsFaithful spell) :
    (type : TypeExpr Mark) → type.IsNormal → type.outline.IsWritten legacy (type.written spell)
  | .scalar _ kind, _ => TypeExpr.isWritten_scalar kind
  | .string _ value, _ => TypeExpr.isWritten_string value
  | .number _ value, normal => TypeExpr.isWritten_number (faithful value normal)
  | .boolean _ value, _ => TypeExpr.isWritten_boolean value
  | .reference _, normal => TypeExpr.isWritten_reference normal.1 normal.2
  | .array _ item, normal =>
      (item.isWritten_written faithful normal.2).array (mt (item.isUnion_map _).1 normal.1)
  | .liveList _ item, normal => (item.isWritten_written faithful normal).liveList
  | .liveMap _ key value, normal =>
      (key.isWritten_written faithful normal.1).liveMap
        (value.isWritten_written faithful normal.2)
  | .union mark members, normal => by
      have nonempty : members ≠ [] := List.ne_nil_of_length_pos (Nat.zero_lt_of_lt normal.1)
      have several : 2 ≤ (members.map TypeExpr.outline).length := by
        rw [List.length_map]
        exact normal.1
      obtain ⟨word, form, spells⟩ :=
        TypeExpr.exists_word_members faithful members nonempty normal.2
      rw [TypeExpr.outline_union]
      generalize members.map TypeExpr.outline = outlines at form several ⊢
      rcases outlines with _ | ⟨first, _ | ⟨second, rest⟩⟩
      · cases several
      · simp at several
      · exact ⟨word, .union form, fun noUnion => absurd trivial noUnion, spells⟩

theorem TypeExpr.exists_word_members (faithful : Double.IsFaithful spell) :
    (members : List (TypeExpr Mark)) → members ≠ [] → TypeExpr.AreMembers members →
      ∃ word, MembersForm legacy word (members.map TypeExpr.outline) ∧
        Symbol.Spells ([' ', '|', ' '].intercalate (TypeExpr.writtenAll spell members)) word
  | [], nonempty, _ => absurd rfl nonempty
  | [member], _, normal => by
      obtain ⟨word, -, form, spells⟩ := member.isWritten_written faithful normal.1.2
      refine ⟨word, .first (form (mt (member.isUnion_map _).1 normal.1.1)), ?_⟩
      simpa [TypeExpr.writtenAll] using spells
  | member :: second :: rest, _, normal => by
      obtain ⟨word, -, form, spells⟩ := member.isWritten_written faithful normal.1.2
      obtain ⟨words, others, spellsOthers⟩ :=
        TypeExpr.exists_word_members faithful (second :: rest) (List.cons_ne_nil _ _) normal.2
      refine ⟨word ++ .sign '|' :: words,
        .cons (form (mt (member.isUnion_map _).1 normal.1.1)) others, ?_⟩
      have joined := spells.append (Symbol.Spells.space (spellsOthers.space.sign '|' rfl))
        (by decide)
      simpa [TypeExpr.writtenAll] using joined

end

end StorageSchema
