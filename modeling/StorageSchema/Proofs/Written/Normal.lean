/-
This file says which documents are normal, and shows that every document that is read is one.
-/
import Mathlib.Data.List.DropRight
import StorageSchema.Proofs.Comments.Attachment
import StorageSchema.Proofs.Draft.Completion

namespace StorageSchema

variable {Mark : Type}

/-- A spelling of a number has the form `-?digits(.digits)?` and that value. -/
def Double.IsSpelling (spelling : List Char) (value : Double) : Prop :=
  Token.IsNumeral spelling ∧ Double.ofDecimal (Decimal.ofSpelling spelling) = value

/-- A text is trimmed if no blank stands at either end. -/
def Text.IsTrimmed (text : List Char) : Prop :=
  (∀ letter ∈ text.head?, Text.isBlank letter = false) ∧
    ∀ letter ∈ text.getLast?, Text.isBlank letter = false

/-- The lines of a leading comment are trimmed. -/
def IsLeadingComment (comment : String) : Prop :=
  ∀ line ∈ comment.toList.splitOn '\n', Text.IsTrimmed line

/-- A trailing comment is a single line that is trimmed. -/
def IsTrailingComment (comment : String) : Prop :=
  '\n' ∉ comment.toList ∧ Text.IsTrimmed comment.toList

instance (text : List Char) : Decidable (Text.IsTrimmed text) :=
  @instDecidableAnd _ _ (Option.decidableForallMem text.head?)
    (Option.decidableForallMem text.getLast?)

instance (comment : String) : Decidable (IsLeadingComment comment) :=
  List.decidableBAll Text.IsTrimmed (comment.toList.splitOn '\n')

instance (comment : String) : Decidable (IsTrailingComment comment) :=
  inferInstanceAs (Decidable (_ ∧ _))

def TypeExpr.IsUnion : TypeExpr Mark → Prop
  | .union _ _ => True
  | _ => False

mutual

/-- A type is normal if its names and numbers can be written, a union has several members and none
of them is a union, and the item of an array is no union. -/
def TypeExpr.IsNormal : TypeExpr Mark → Prop
  | .scalar _ _ | .string _ _ | .boolean _ _ => True
  | .number _ value => ∃ spelling, Double.IsSpelling spelling value
  | .reference named =>
      Token.IsIdentifier named.name.text.toList ∧ IsTypeName named.name.text
  | .array _ item => ¬ item.IsUnion ∧ item.IsNormal
  | .liveList _ item => item.IsNormal
  | .liveMap _ key value => key.IsNormal ∧ value.IsNormal
  | .union _ members => 2 ≤ members.length ∧ TypeExpr.AreMembers members

def TypeExpr.AreMembers : List (TypeExpr Mark) → Prop
  | [] => True
  | member :: rest => (¬ member.IsUnion ∧ member.IsNormal) ∧ TypeExpr.AreMembers rest

end

structure Field.IsNormal (field : Field Mark) : Prop where
  name : Token.IsIdentifier field.name.text.toList
  type : field.type.IsNormal
  leading : ∀ comment ∈ field.leadingComment, IsLeadingComment comment
  trailing : ∀ comment ∈ field.trailingComment, IsTrailingComment comment

structure Definition.IsNormal (definition : Definition Mark) : Prop where
  name : Token.IsIdentifier definition.name.text.toList
  fields : ∀ field ∈ definition.fields, field.IsNormal
  leading : ∀ comment ∈ definition.leadingComment, IsLeadingComment comment

def Document.IsNormal (document : Document Mark) : Prop :=
  ∀ definition ∈ document.definitions, definition.IsNormal

theorem TypeExpr.areMembers_iff {members : List (TypeExpr Mark)} :
    TypeExpr.AreMembers members ↔ ∀ member ∈ members, ¬ member.IsUnion ∧ member.IsNormal := by
  induction members with
  | nil => simp [TypeExpr.AreMembers]
  | cons member rest inductionHypothesis =>
      rw [TypeExpr.AreMembers, List.forall_mem_cons, inductionHypothesis]

/-! ### Types that are read are normal -/

mutual

theorem PrimaryForm.isNormal {legacy : Bool} {word : List Symbol} {type : TypeExpr Unit} :
    PrimaryForm legacy word type → (∀ symbol ∈ word, symbol.IsSpelled) →
      ¬ type.IsUnion ∧ type.IsNormal
  | .string _, _ | .yes, _ | .no, _ | .scalar _, _ | .legacyScalar _ _, _ => ⟨id, trivial⟩
  | .number text, spelled => ⟨id, text.toList, (spelled _ (by simp)).isNumeral, rfl⟩
  | .liveObject isName, spelled => ⟨id, (spelled (.word _) (by simp)).isIdentifier, isName⟩
  | .liveList item, spelled =>
      ⟨id, item.isNormal fun symbol present => spelled symbol (by simp [present])⟩
  | .liveMap key value, spelled =>
      ⟨id, key.isNormal fun symbol present => spelled symbol (by simp [present]),
        value.isNormal fun symbol present => spelled symbol (by simp [present])⟩
  | .name isName, spelled => ⟨id, (spelled (.word _) (by simp)).isIdentifier, isName⟩

theorem ItemForm.isNormal {legacy : Bool} {word : List Symbol} {type : TypeExpr Unit} :
    ItemForm legacy word type → (∀ symbol ∈ word, symbol.IsSpelled) →
      ¬ type.IsUnion ∧ type.IsNormal
  | .primary form, spelled => form.isNormal spelled
  | .array form, spelled =>
      ⟨id, form.isNormal fun symbol present => spelled symbol (List.mem_append_left _ present)⟩

theorem MembersForm.isNormal {legacy : Bool} {word : List Symbol}
    {members : List (TypeExpr Unit)} :
    MembersForm legacy word members → (∀ symbol ∈ word, symbol.IsSpelled) →
      ∀ member ∈ members, ¬ member.IsUnion ∧ member.IsNormal
  | .first form, spelled => List.forall_mem_singleton.2 (form.isNormal spelled)
  | .next before form, spelled => by
      obtain ⟨first, last⟩ := List.forall_mem_append.1 spelled
      have earlier := before.isNormal (List.forall_mem_append.1 first).1
      exact List.forall_mem_append.2
        ⟨earlier, List.forall_mem_singleton.2 (form.isNormal last)⟩

theorem TypeForm.isNormal {legacy : Bool} {word : List Symbol} {type : TypeExpr Unit} :
    TypeForm legacy word type → (∀ symbol ∈ word, symbol.IsSpelled) → type.IsNormal
  | .single form, spelled => (form.isNormal spelled).2
  | .union form, spelled =>
      ⟨by simp, TypeExpr.areMembers_iff.2 (form.isNormal spelled)⟩

end

/-! ### Comments that are read are trimmed -/

theorem Text.trim_eq (text : List Char) :
    Text.trim text = (text.dropWhile Text.isBlank).rdropWhile Text.isBlank := rfl

theorem Text.isTrimmed_trim (text : List Char) : Text.IsTrimmed (Text.trim text) := by
  rw [Text.trim_eq]
  constructor
  · intro letter isFirst
    obtain ⟨rest, joined⟩ := List.rdropWhile_prefix Text.isBlank (text.dropWhile Text.isBlank)
    have stops := List.head?_dropWhile_not Text.isBlank text
    rw [← joined, List.head?_append, Option.mem_def.1 isFirst] at stops
    exact stops
  · intro letter isLast
    have nonempty := List.ne_nil_of_mem (List.mem_of_getLast? isLast)
    have stops := List.rdropWhile_last_not Text.isBlank (text.dropWhile Text.isBlank) nonempty
    rw [List.getLast?_eq_some_getLast nonempty] at isLast
    rw [Option.some.inj isLast] at stops
    exact Bool.eq_false_iff.2 stops

theorem Text.sublist_trim (text : List Char) : (Text.trim text).Sublist text :=
  (List.rdropWhile_prefix _ _).sublist.trans (List.dropWhile_suffix _).sublist

/-- The body of a comment is trimmed, and its characters are those of the comment. -/
theorem isTrimmed_commentBody (comment : String) :
    Text.IsTrimmed (commentBody comment).toList ∧
      (commentBody comment).toList.Sublist comment.toList := by
  unfold commentBody
  rw [String.toList_ofList]
  refine ⟨Text.isTrimmed_trim _, ?_⟩
  split
  · next rest same =>
      rw [same]
      exact (Text.sublist_trim rest).trans (.cons _ (.cons _ (.refl _)))
  · next rest same =>
      rw [same]
      exact (Text.sublist_trim rest).trans (.cons _ (.refl _))
  · exact Text.sublist_trim _

/-- A comment of a text is a single line. -/
theorem Token.newline_notMem_body {text : String} {comment : Token}
    (present : comment ∈ Token.ofText text) (isComment : comment.kind = .comment) :
    '\n' ∉ comment.body.toList := by
  intro inBody
  have inText := (isTrimmed_commentBody comment.text).2.subset inBody
  obtain ⟨first, rest, kind, letters⟩ := Token.exists_measured_of_mem_scan present
  rw [kind] at isComment
  rw [letters, Token.measure_comment isComment, Token.take_countWhile] at inText
  rcases List.mem_cons.1 inText with rfl | later
  · have sign : Token.punctuation? '\n' = some .newline := rfl
    rw [Token.measure_sign sign] at isComment
    cases isComment
  · have continues := List.mem_takeWhile_imp later
    simp [Token.continuesLine] at continues

theorem Token.AttachesBeside.isTrailing {text : String} {after used : List Token}
    {comment : Option String} (attaches : Token.AttachesBeside after comment used)
    (inside : ∀ token ∈ after, token ∈ Token.ofText text) :
    ∀ value ∈ comment, IsTrailingComment value := by
  rintro value rfl
  obtain ⟨next, rest, rfl, -, rfl⟩ := attaches.value value rfl
  obtain ⟨_, _, isComment, same⟩ := attaches.isSome_iff.1 rfl
  obtain ⟨rfl, -⟩ := List.cons.inj same
  exact ⟨Token.newline_notMem_body (inside next List.mem_cons_self) isComment,
    (isTrimmed_commentBody next.text).1⟩

theorem Token.AttachesAbove.isLeading {text : String} {before used : List Token}
    {comment : Option String} (attaches : Token.AttachesAbove before comment used)
    (inside : ∀ token ∈ before, token ∈ Token.ofText text) :
    ∀ value ∈ comment, IsLeadingComment value := by
  rintro value rfl
  obtain ⟨done, lines, block, rfl⟩ := attaches.value value rfl
  obtain ⟨earlier, last, isLast, ends⟩ := attaches.isSome_iff.1 rfl
  have nonempty : used ≠ [] := by
    refine block.ne_nil_iff.2 ⟨earlier, last, isLast, ?_⟩
    have same := lines.symm.trans ends
    rw [show earlier ++ [[last], []] = (earlier ++ [[last]]) ++ [[]] by simp] at same
    exact (List.append_inj' same rfl).1
  have single : ∀ body ∈ used.map fun comment => comment.body.toList, '\n' ∉ body := by
    rintro body present
    obtain ⟨comment, isUsed, rfl⟩ := List.mem_map.1 present
    exact Token.newline_notMem_body (inside comment (attaches.sublist_before.subset isUsed))
      (block.isComment comment isUsed)
  have letters : (Token.joined used).toList =
      ['\n'].intercalate (used.map fun comment => comment.body.toList) := by
    rw [Token.joined, String.toList_intercalate, List.map_map]
    rfl
  intro line present
  rw [letters, List.splitOn_intercalate '\n' single (by simpa using nonempty)] at present
  obtain ⟨comment, -, rfl⟩ := List.mem_map.1 present
  exact (isTrimmed_commentBody comment.text).1

/-- The comment in a slot is one that can be written there. -/
def Slot.IsNormal : Slot → Prop
  | .above _ comment => ∀ value ∈ comment, IsLeadingComment value
  | .beside _ comment => ∀ value ∈ comment, IsTrailingComment value

theorem Slot.Holds.isNormal {text : String} {slot : Slot} {used : List Token}
    (holds : Slot.Holds (Token.ofText text) slot used) : slot.IsNormal := by
  cases holds with
  | above divided _ attaches =>
      exact attaches.isLeading fun token present => divided ▸ List.mem_append_left _ present
  | beside divided _ _ attaches =>
      exact attaches.isTrailing fun token present =>
        divided ▸ List.mem_append_right _ (List.mem_cons_of_mem _ present)

theorem Document.isNormal_of_mem_slots {legacy : Bool} {text : String} {document : Document Span}
    (read : Document.ofText legacy text = .ok document) :
    ∀ slot ∈ document.slots, slot.IsNormal := by
  obtain ⟨used, holds, -⟩ := Document.exists_used read
  generalize document.slots = slots at holds
  induction holds with
  | nil => exact List.forall_mem_nil _
  | cons first _ inductionHypothesis =>
      exact List.forall_mem_cons.2 ⟨first.isNormal, inductionHypothesis⟩

/-! ### Documents that are read are normal -/

/-- Each tree of a sequence has a word of its own. -/
theorem SequenceForm.exists_word {Tree : Type} {form : List Symbol → Tree → Prop}
    {words : List Symbol} {trees : List Tree} (sequence : SequenceForm form words trees) :
    ∀ tree ∈ trees, ∃ word, form word tree ∧ word ⊆ words := by
  induction sequence with
  | nil => exact List.forall_mem_nil _
  | next _ last inductionHypothesis =>
      refine List.forall_mem_append.2 ⟨?_, List.forall_mem_singleton.2 ?_⟩
      · intro tree present
        obtain ⟨word, own, within⟩ := inductionHypothesis tree present
        exact ⟨word, own, List.subset_append_of_subset_left _ within⟩
      · exact ⟨_, last, List.subset_append_right _ _⟩

theorem FieldForm.isNormal {legacy : Bool} {word : List Symbol} {field : Field Unit}
    (form : FieldForm legacy word field) (spelled : ∀ symbol ∈ word, symbol.IsSpelled) :
    field.IsNormal := by
  cases form with
  | field name isOptional comma type =>
      refine ⟨(spelled (.word name) (by simp)).isIdentifier, ?_, by simp, by simp⟩
      exact type.isNormal fun symbol present => spelled symbol (by simp [present])

theorem DefinitionForm.isNormal {legacy : Bool} {word : List Symbol} {definition : Definition Unit}
    (form : DefinitionForm legacy word definition) (spelled : ∀ symbol ∈ word, symbol.IsSpelled) :
    definition.IsNormal := by
  cases form with
  | definition name sequence =>
      refine ⟨(spelled (.word name) (by simp)).isIdentifier, ?_, by simp⟩
      intro field present
      obtain ⟨word, form, within⟩ := sequence.exists_word field present
      exact form.isNormal fun symbol inWord => spelled symbol (by simp [within inWord])

theorem TypeExpr.isUnion_map {Other : Type} (change : Mark → Other) (type : TypeExpr Mark) :
    (type.map change).IsUnion ↔ type.IsUnion := by
  cases type <;> exact Iff.rfl

mutual

/-- Marks do not matter for what is normal. -/
theorem TypeExpr.isNormal_map {Other : Type} (change : Mark → Other) :
    (type : TypeExpr Mark) → ((type.map change).IsNormal ↔ type.IsNormal)
  | .scalar _ _ | .string _ _ | .number _ _ | .boolean _ _ | .reference _ => Iff.rfl
  | .array _ item =>
      and_congr (not_congr (item.isUnion_map change)) (item.isNormal_map change)
  | .liveList _ item => item.isNormal_map change
  | .liveMap _ key value => and_congr (key.isNormal_map change) (value.isNormal_map change)
  | .union _ members => by
      refine and_congr ?_ (TypeExpr.areMembers_map change members)
      rw [TypeExpr.mapAll_eq, List.length_map]

theorem TypeExpr.areMembers_map {Other : Type} (change : Mark → Other) :
    (members : List (TypeExpr Mark)) →
      (TypeExpr.AreMembers (TypeExpr.mapAll change members) ↔ TypeExpr.AreMembers members)
  | [] => Iff.rfl
  | member :: rest =>
      and_congr
        (and_congr (not_congr (member.isUnion_map change)) (member.isNormal_map change))
        (TypeExpr.areMembers_map change rest)

end

/-- The symbols of a text that is read are spelled as documents spell them. -/
theorem Document.isSpelled_of_mem_inside {legacy : Bool} {text : String} {document : Document Span}
    (read : Document.ofText legacy text = .ok document) :
    ∀ symbol ∈ Symbol.inside text, symbol.IsSpelled := by
  have outlined := Document.outline_ofText legacy text
  rw [read] at outlined
  obtain ⟨finished, run, -⟩ := Document.ofSymbols_eq_ok_iff.1 outlined.symm
  intro symbol present
  exact Symbol.isSpelled_of_mem_inside present (Draft.Reads.isSolid run symbol present)

/-- A document that is read is normal. -/
theorem Document.isNormal_of_ofText {legacy : Bool} {text : String} {document : Document Span}
    (read : Document.ofText legacy text = .ok document) : document.IsNormal := by
  have form := Document.form_of_ofText read
  have spelled := Document.isSpelled_of_mem_inside read
  have comments := Document.isNormal_of_mem_slots read
  rw [Symbol.ofText_eq] at form
  generalize whole : Symbol.inside text ++ [Symbol.ending] = symbols at form
  generalize outlined : document.outline false = tree at form
  obtain @⟨word, definitions, sequence⟩ := form
  obtain rfl := List.append_cancel_right whole
  obtain rfl : document.definitions.map (Definition.outline false) = definitions :=
    congrArg Document.definitions outlined
  intro definition present
  obtain ⟨word, form, within⟩ := sequence.exists_word _ (List.mem_map_of_mem present)
  have normal := form.isNormal fun symbol inWord => spelled symbol (within inWord)
  have own : ∀ slot ∈ definition.slots, slot.IsNormal := fun slot inside =>
    comments slot (List.mem_flatMap.2 ⟨definition, present, inside⟩)
  obtain ⟨leading, others⟩ := List.forall_mem_cons.1 own
  refine ⟨normal.name, ?_, leading⟩
  intro field inside
  have shown := normal.fields _ (List.mem_map_of_mem inside)
  have slots : ∀ slot ∈ field.slots, slot.IsNormal := fun slot isSlot =>
    others slot (List.mem_flatMap.2 ⟨field, inside, isSlot⟩)
  obtain ⟨above, beside⟩ := List.forall_mem_cons.1 slots
  exact ⟨shown.name, (field.type.isNormal_map _).1 shown.type, above,
    List.forall_mem_singleton.1 beside⟩

end StorageSchema
