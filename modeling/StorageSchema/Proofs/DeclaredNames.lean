/-
This file shows that a declared name is not taken for anything else. Where a type begins it is read
as a reference, unless it is one of the words that have a meaning there.
-/
import StorageSchema.Proofs.Check.Resolution
import StorageSchema.Proofs.Draft.Heads
import StorageSchema.Proofs.Word

namespace StorageSchema

variable {legacy : Bool} {text : String} {document : Document Span} {schema : Schema Span}

/-- These words have a meaning where a type begins, and anywhere else they are names. -/
def contextualWords : List String := ["true", "false", "LiveObject", "LiveList", "LiveMap"]

/-- A name is read as a reference if the document has it, it leads to an entry of the schema, and no
other type begins with the name. Arrays and unions only begin as their first items do. -/
structure Document.ReadsAs (document : Document Span) (schema : Schema Span)
    (reference : Reference Span) (entry : ClassifiedDefinition Span) : Prop where
  present : Node.type (.reference reference) ∈ document.nodes
  resolves : schema.resolve? reference = some entry
  only : ∀ type, Node.type type ∈ document.nodes →
    type.mark.start = reference.name.mark.start → type.isJoined = false →
    type = .reference reference

/-- Without problems of names no name is a reserved one. -/
theorem Definition.free_of_allNameProblems {Mark : Type} {seen : List String}
    {definitions : List (Definition Mark)}
    (none : Definition.allNameProblems seen definitions = []) :
    ∀ definition ∈ definitions, lowercase definition.name.text ∉ reservedNames := by
  induction definitions generalizing seen with
  | nil => exact List.forall_mem_nil _
  | cons definition rest inductionHypothesis =>
      obtain ⟨own, later⟩ := List.append_eq_nil_iff.1 none
      refine List.forall_mem_cons.2 ⟨?_, inductionHypothesis later⟩
      intro reserved
      simp [Definition.nameProblems, Name.reservedProblems, reserved] at own

/-- A declared name is no scalar in any spelling, and so it is a name where a type begins, unless it
is a contextual word. -/
theorem Document.word_of_check (accepted : document.check = .ok schema)
    {entry : ClassifiedDefinition Span} (declared : entry ∈ schema.all)
    (plain : entry.name ∉ contextualWords) : Word.ofText entry.name = .name := by
  obtain ⟨_, _, none, -⟩ := (document.check_eq_ok_iff schema).1 accepted
  simp only [Document.problems, List.append_eq_nil_iff] at none
  have isDefinition := (Document.perm_all_of_check accepted).mem_iff.1
    (List.mem_map_of_mem declared)
  have free : lowercase entry.name ∉ reservedNames :=
    Definition.free_of_allNameProblems none.1.1.1 _ isDefinition
  have spellings : ["boolean", "int", "float", "number", "string", "null"].Perm reservedNames := by
    decide
  exact Word.ofText_eq_iff.2 ⟨fun present => free (spellings.mem_iff.1 present), plain⟩

/-- A declared name is never taken for anything else. Where a type begins it is read as a reference
that leads to its definition, unless it is one of the contextual words, and as the argument of a
live object it always is. -/
theorem Document.declared_names_refer (legacy : Bool) (text : String) (document : Document Span)
    (schema : Schema Span) (read : Document.ofText legacy text = .ok document)
    (accepted : document.check = .ok schema) (lexeme : Lexeme Span)
    (isWord : lexeme.kind = .identifier) (entry : ClassifiedDefinition Span)
    (declared : entry ∈ schema.all) (named : entry.name = lexeme.text) :
    (lexeme.StandsAt legacy text .type → lexeme.text ∉ contextualWords →
      document.ReadsAs schema ⟨lexeme.mark, ⟨lexeme.mark, lexeme.text⟩, false⟩ entry) ∧
    (lexeme.StandsAt legacy text .objectName →
      ∃ mark, document.ReadsAs schema ⟨mark, ⟨lexeme.mark, lexeme.text⟩, true⟩ entry) := by
  have resolves (reference : Reference Span) (same : reference.name.text = lexeme.text) :
      schema.resolve? reference = some entry :=
    (ClassifiedDefinition.find?_eq_some_iff (Document.nodup_names_of_check accepted) _ _).2
      ⟨declared, named.trans same.symm⟩
  constructor
  · intro stands plain
    have means : Word.ofText lexeme.text = .name :=
      named ▸ Document.word_of_check accepted declared (named ▸ plain)
    have head : lexeme.head = .reference ⟨lexeme.mark, ⟨lexeme.mark, lexeme.text⟩, false⟩ := by
      simp [Lexeme.head, isWord, means]
    have listed := (Document.mem_heads_iff_standsAt read).2 ⟨lexeme, _, stands, List.mem_cons_self⟩
    rw [head] at listed
    obtain ⟨type, present, own⟩ := Document.mem_heads_iff.1 listed
    obtain rfl := TypeExpr.eq_of_mem_ownHeads own
    refine ⟨present, resolves _ rfl, ?_⟩
    intro other among begins single
    exact TypeExpr.eq_of_mem_ownHeads (Document.own_head read listed among begins single).1
  · intro stands
    have listed := (Document.mem_heads_iff_standsAt read).2 ⟨lexeme, _, stands, List.mem_cons_self⟩
    obtain ⟨type, present, own⟩ := Document.mem_heads_iff.1 listed
    obtain ⟨mark, rfl⟩ := TypeExpr.exists_of_mem_ownHeads own
    refine ⟨mark, present, resolves _ rfl, ?_⟩
    intro other among begins single
    exact absurd rfl ((Document.own_head read listed among begins single).2 _)

/-- Here one name is the item of an array and the argument of a live object. -/
theorem Document.declared_names_refer_of_item :
    ∃ document schema entry,
      Document.ofText false "type Storage \x7ba: A[] | null, b: LiveObject<A>\x7d type A \x7b\x7d" =
        .ok document ∧
      document.check = .ok schema ∧ entry ∈ schema.all ∧ entry.name = "A" ∧
      document.ReadsAs schema ⟨⟨17, 18⟩, ⟨⟨17, 18⟩, "A"⟩, false⟩ entry ∧
      ∃ mark, document.ReadsAs schema ⟨mark, ⟨⟨43, 44⟩, "A"⟩, true⟩ entry := by
  obtain ⟨document, read, computed⟩ := Document.exists_of_text Document.classes?
    (some [("A", false)])
    (by decide +kernel : (Document.ofText false
      "type Storage \x7ba: A[] | null, b: LiveObject<A>\x7d type A \x7b\x7d").toOption.map _ = _)
    fun _ _ viewed => viewed
  obtain ⟨schema, accepted, classes⟩ := Document.exists_schema computed
  obtain ⟨entry, isOther, named, -⟩ := Schema.exists_of_mem_classes
    (classes ▸ List.mem_singleton.2 rfl : ("A", false) ∈ schema.classes)
  have declared : entry ∈ schema.all := List.mem_cons_of_mem _ isOther
  obtain ⟨item, -⟩ := Document.declared_names_refer false _ document schema read accepted
    ⟨.identifier, "A", ⟨17, 18⟩, none, none⟩ rfl entry declared named
  obtain ⟨-, argument⟩ := Document.declared_names_refer false _ document schema read accepted
    ⟨.identifier, "A", ⟨43, 44⟩, none, none⟩ rfl entry declared named
  refine ⟨document, schema, entry, read, accepted, declared, named, item ?_ (by decide),
    argument ?_⟩
  · exact Lexeme.standsAt_of_computed 5 (by decide +kernel) (by decide +kernel)
  · exact Lexeme.standsAt_of_computed 15 (by decide +kernel) (by decide +kernel)

/-- These are the names of the references in a document. -/
def Document.referenceNames (document : Document Span) : List String :=
  document.nodes.filterMap fun node =>
    match node with
    | .type (.reference named) => some named.name.text
    | _ => none

/-- This text declares each contextual word and has it where a type begins. -/
def contextualText : String :=
  "type true\x7b\x7dtype false\x7b\x7dtype LiveObject\x7b\x7dtype LiveList\x7b\x7d" ++
    "type LiveMap\x7b\x7dtype Storage\x7b" ++
    "a:true|false|LiveObject<Storage>|LiveList<LiveMap<string,null>>\x7d"

/-- A contextual word keeps its meaning where a type begins, even if it is a declared name. -/
theorem Document.contextual_words_shadow :
    ∃ document schema, Document.ofText false contextualText = .ok document ∧
      document.check = .ok schema ∧
      ∀ word ∈ contextualWords, (∃ entry ∈ schema.all, entry.name = word) ∧
        (∃ lexeme : Lexeme Span, lexeme.kind = .identifier ∧ lexeme.text = word ∧
          lexeme.StandsAt false contextualText .type) ∧
        ∀ reference, Node.type (.reference reference) ∈ document.nodes →
          reference.name.text ≠ word := by
  obtain ⟨document, read, computed⟩ := Document.exists_of_text
    (fun document => (document.classes?, document.referenceNames))
    (some (contextualWords.map fun word => (word, true)), ["Storage"])
    (by decide +kernel : (Document.ofText false contextualText).toOption.map _ = _)
    fun _ _ viewed => viewed
  obtain ⟨classesComputed, names⟩ := Prod.mk.inj computed
  obtain ⟨schema, accepted, classes⟩ := Document.exists_schema classesComputed
  have places : ∀ place ∈ contextualWords.zip [25, 27, 29, 34, 36],
      (Lexeme.ofText contextualText)[place.2]?.map (fun lexeme => (lexeme.kind, lexeme.text)) =
        some (.identifier, place.1) ∧
      (Draft.empty.addAll false ((Lexeme.ofText contextualText).take place.2)).toOption.map
        (fun draft => draft.stage.expectation) = some .type := by
    decide +kernel
  refine ⟨document, schema, read, accepted, ?_⟩
  intro word contextual
  refine ⟨?_, ?_, ?_⟩
  · have listed : (word, true) ∈ schema.classes := classes ▸ List.mem_map_of_mem contextual
    obtain ⟨entry, isOther, named, -⟩ := Schema.exists_of_mem_classes listed
    exact ⟨entry, List.mem_cons_of_mem _ isOther, named⟩
  · have isListed : ∃ place ∈ contextualWords.zip [25, 27, 29, 34, 36], place.1 = word := by
      revert word
      decide
    obtain ⟨⟨_, index⟩, isPlace, rfl⟩ := isListed
    obtain ⟨found, expects⟩ := places _ isPlace
    obtain ⟨lexeme, present, same⟩ := Option.map_eq_some_iff.1 found
    obtain ⟨isWord, spelled⟩ := Prod.mk.inj same
    exact ⟨lexeme, isWord, spelled, Lexeme.standsAt_of_computed index present expects⟩
  · intro reference present same
    have listed : word ∈ document.referenceNames :=
      List.mem_filterMap.2 ⟨_, present, congrArg some same⟩
    rw [names, List.mem_singleton] at listed
    subst listed
    revert contextual
    decide

end StorageSchema
