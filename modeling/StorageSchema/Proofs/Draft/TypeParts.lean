/-
This file finds the parts of a type in what it has been read from. Each of its subexpressions is
read from some lexemes in a row, and reading them does not depend on what surrounds them.
-/
import Mathlib.Data.List.Infix
import StorageSchema.Proofs.Draft.Step

namespace StorageSchema

variable {Mark : Type}

/-! ### Surroundings -/

/-- The union and the layers around it go on outwards with those of other surroundings. -/
def Surroundings.withinLayers (outer : Surroundings Mark) (members : List (TypeExpr Mark)) :
    List (Layer Mark) → Surroundings Mark
  | [] => ⟨members ++ outer.members, outer.layers⟩
  | layer :: layers =>
      { (outer.withinLayers layer.members layers).enclose layer.enclosure with members }

def Surroundings.within (around outer : Surroundings Mark) : Surroundings Mark :=
  outer.withinLayers around.members around.layers

theorem Surroundings.within_cons (members : List (TypeExpr Mark)) (layers : List (Layer Mark))
    (item : TypeExpr Mark) (outer : Surroundings Mark) :
    (Surroundings.mk (item :: members) layers).within outer =
      ⟨item :: ((Surroundings.mk members layers).within outer).members,
        ((Surroundings.mk members layers).within outer).layers⟩ := by
  cases layers <;> rfl

variable [Union Mark] {legacy : Bool}

/-- No step looks at what is further out. -/
theorem TypeDraft.Step.within {lexeme : Lexeme Mark}
    {state next : Surroundings Mark × TypeDraft Mark}
    (step : TypeDraft.Step legacy lexeme state next) (outer : Surroundings Mark) :
    TypeDraft.Step legacy lexeme (state.1.within outer, state.2) (next.1.within outer, next.2) := by
  cases step with
  | string isString => exact .string isString
  | number isNumber => exact .number isNumber
  | boolean isWord means => exact .boolean isWord means
  | wrapper isWord means => exact .wrapper isWord means
  | scalar isWord means => exact .scalar isWord means
  | reference isWord means => exact .reference isWord means
  | openBracket isBracket => exact .openBracket isBracket
  | closeBracket isBracket => exact .closeBracket isBracket
  | bar isBar =>
      rw [Surroundings.within_cons]
      exact .bar isBar
  | @openAngle _ _ kind isAngle =>
      cases kind <;> exact .openAngle isAngle
  | closeList isAngle => exact .closeList isAngle
  | comma isComma => exact .comma isComma
  | closeMap isAngle => exact .closeMap isAngle
  | objectName isWord means => exact .objectName isWord means
  | closeObject isAngle => exact .closeObject isAngle

/-- No step of a type looks at the comments around its lexeme. -/
theorem TypeDraft.Step.withMargin {lexeme : Lexeme Mark}
    {state next : Surroundings Mark × TypeDraft Mark}
    (step : TypeDraft.Step legacy lexeme state next) (above beside : Option String) :
    TypeDraft.Step legacy { lexeme with above, beside } state next := by
  cases step with
  | string isString => exact .string isString
  | number isNumber => exact .number isNumber
  | boolean isWord means => exact .boolean isWord means
  | wrapper isWord means => exact .wrapper isWord means
  | scalar isWord means => exact .scalar isWord means
  | reference isWord means => exact .reference isWord means
  | openBracket isBracket => exact .openBracket isBracket
  | closeBracket isBracket => exact .closeBracket isBracket
  | bar isBar => exact .bar isBar
  | openAngle isAngle => exact .openAngle isAngle
  | closeList isAngle => exact .closeList isAngle
  | comma isComma => exact .comma isComma
  | closeMap isAngle => exact .closeMap isAngle
  | objectName isWord means => exact .objectName isWord means
  | closeObject isAngle => exact .closeObject isAngle

/-! ### Parts -/

/-- A type draft is read from lexemes by which an item without surroundings begins so. -/
def TypeDraft.IsReadFrom (legacy : Bool) (word : List (Lexeme Mark)) (draft : TypeDraft Mark) :
    Prop :=
  Lexeme.Run (TypeDraft.Step legacy) word (Surroundings.outermost, .empty)
    (Surroundings.outermost, draft)

/-- A type is read from lexemes after which it is complete and nothing surrounds it. -/
def TypeExpr.IsReadFrom (legacy : Bool) (word : List (Lexeme Mark)) (type : TypeExpr Mark) : Prop :=
  ∃ members item, Lexeme.Run (TypeDraft.Step legacy) word (Surroundings.outermost, .empty)
    (⟨members, []⟩, .complete item) ∧ Surroundings.finish ⟨members, []⟩ item = type

/-- A type is found in lexemes if each of its subexpressions is read from some of them. -/
def TypeExpr.IsFoundIn (legacy : Bool) (word : List (Lexeme Mark)) (type : TypeExpr Mark) : Prop :=
  ∀ part ∈ type.subexpressions, ∃ block, block <:+: word ∧ part.IsReadFrom legacy block

theorem TypeDraft.IsReadFrom.complete {word : List (Lexeme Mark)} {item : TypeExpr Mark}
    (read : (TypeDraft.complete item).IsReadFrom legacy word) : item.IsReadFrom legacy word :=
  ⟨[], item, read, rfl⟩

theorem TypeDraft.IsReadFrom.step {word : List (Lexeme Mark)} {lexeme : Lexeme Mark}
    {draft next : TypeDraft Mark} (read : draft.IsReadFrom legacy word)
    (step : TypeDraft.Step legacy lexeme (Surroundings.outermost, draft)
      (Surroundings.outermost, next)) : next.IsReadFrom legacy (word ++ [lexeme]) :=
  read.append (.single step)

theorem TypeExpr.IsFoundIn.mono {word all : List (Lexeme Mark)} {type : TypeExpr Mark}
    (found : type.IsFoundIn legacy word) (within : word <:+: all) : type.IsFoundIn legacy all := by
  intro part present
  obtain ⟨block, inWord, read⟩ := found part present
  exact ⟨block, inWord.trans within, read⟩

/-- A type is found where it is read if each of its other subexpressions is found there. -/
theorem TypeExpr.IsReadFrom.found {word : List (Lexeme Mark)} {type : TypeExpr Mark}
    (read : type.IsReadFrom legacy word)
    (others : ∀ part ∈ type.subexpressions, part = type ∨
      ∃ inner : TypeExpr Mark, inner.IsFoundIn legacy word ∧ part ∈ inner.subexpressions) :
    type.IsFoundIn legacy word := by
  intro part present
  rcases others part present with rfl | ⟨inner, found, below⟩
  · exact ⟨word, List.infix_rfl, read⟩
  · exact found part below

omit [Union Mark] in
theorem TypeExpr.mem_subexpressionsAll_iff {part : TypeExpr Mark} (members : List (TypeExpr Mark)) :
    part ∈ TypeExpr.subexpressionsAll members ↔
      ∃ member ∈ members, part ∈ member.subexpressions := by
  induction members with
  | nil => simp [TypeExpr.subexpressionsAll]
  | cons member rest inductionHypothesis =>
      simp [TypeExpr.subexpressionsAll, inductionHypothesis]

/-- The subexpressions of a union that is finished are it and those of its members. -/
theorem Surroundings.mem_subexpressions_finish {around : Surroundings Mark}
    {item part : TypeExpr Mark} (present : part ∈ (around.finish item).subexpressions) :
    part = around.finish item ∨
      ∃ member ∈ item :: around.members, part ∈ member.subexpressions := by
  rw [Surroundings.finish] at present ⊢
  rcases listed : (item :: around.members).reverse with _ | ⟨first, _ | ⟨second, rest⟩⟩
  · exact absurd (List.reverse_eq_nil_iff.1 listed) (List.cons_ne_nil _ _)
  · rw [listed] at present
    exact .inr ⟨item, List.mem_cons_self, present⟩
  · rw [listed] at present
    refine (List.mem_cons.1 present).imp_right fun below => ?_
    obtain ⟨member, among, inside⟩ := (TypeExpr.mem_subexpressionsAll_iff _).1 below
    rw [← listed, List.mem_reverse] at among
    exact ⟨member, among, inside⟩

/-- The members before an item are each found in what stands before a bar. -/
inductive MembersFound (legacy : Bool) : List (Lexeme Mark) → List (TypeExpr Mark) → Prop where
  | nil : MembersFound legacy [] []
  | cons {words word : List (Lexeme Mark)} {bar : Lexeme Mark} {members : List (TypeExpr Mark)}
      {item : TypeExpr Mark} : MembersFound legacy words members →
      (TypeDraft.complete item).IsReadFrom legacy word → item.IsFoundIn legacy word →
      bar.kind = .bar → MembersFound legacy (words ++ word ++ [bar]) (item :: members)

theorem MembersFound.isFoundIn {words : List (Lexeme Mark)} {members : List (TypeExpr Mark)}
    (found : MembersFound legacy words members) :
    ∀ member ∈ members, member.IsFoundIn legacy words := by
  induction found with
  | nil => exact List.forall_mem_nil _
  | @cons words word bar members item _ _ own _ inductionHypothesis =>
      refine List.forall_mem_cons.2 ⟨own.mono ⟨words, [bar], rfl⟩, ?_⟩
      intro member among
      exact (inductionHypothesis member among).mono ⟨[], word ++ [bar], by simp⟩

/-- An item is read after the members before it. -/
theorem MembersFound.run {words : List (Lexeme Mark)} {members : List (TypeExpr Mark)}
    (found : MembersFound legacy words members) {word : List (Lexeme Mark)} {draft : TypeDraft Mark}
    (read : draft.IsReadFrom legacy word) :
    Lexeme.Run (TypeDraft.Step legacy) (words ++ word) (Surroundings.outermost, .empty)
      (⟨members, []⟩, draft) := by
  induction found generalizing word draft with
  | nil => exact read
  | @cons words earlier bar members item _ own _ isBar inductionHypothesis =>
      have before := inductionHypothesis own
      have after := read.lift (fun state => (state.1.within ⟨item :: members, []⟩, state.2))
        fun _ _ _ step => step.within _
      have ended : TypeDraft.Step legacy bar (⟨members, []⟩, .complete item)
          (⟨item :: members, []⟩, .empty) := .bar isBar
      exact (before.append (.single ended)).append after

/-- The type that an item completes is read from its lexemes and found in them. -/
theorem MembersFound.finish {words word : List (Lexeme Mark)} {around : Surroundings Mark}
    {item : TypeExpr Mark} (before : MembersFound legacy words around.members)
    (read : (TypeDraft.complete item).IsReadFrom legacy word) (found : item.IsFoundIn legacy word) :
    (around.finish item).IsReadFrom legacy (words ++ word) ∧
      (around.finish item).IsFoundIn legacy (words ++ word) := by
  have whole : (around.finish item).IsReadFrom legacy (words ++ word) :=
    ⟨around.members, item, before.run read, rfl⟩
  refine ⟨whole, whole.found ?_⟩
  intro part present
  refine (Surroundings.mem_subexpressions_finish present).imp_right ?_
  rintro ⟨member, among, below⟩
  rcases List.mem_cons.1 among with rfl | earlier
  · exact ⟨member, found.mono ⟨words, [], by simp⟩, below⟩
  · exact ⟨member, (before.isFoundIn member earlier).mono ⟨[], word, rfl⟩, below⟩

/-- An enclosure is read from lexemes that open it, and the key of a map is found in them. -/
structure Enclosure.IsFoundIn (legacy : Bool) (word : List (Lexeme Mark))
    (enclosure : Enclosure Mark) : Prop where
  read : Lexeme.Run (TypeDraft.Step legacy) word (Surroundings.outermost, .empty)
    (Surroundings.outermost.enclose enclosure, .empty)
  key : ∀ keyword key, enclosure = .mapValue keyword key → key.IsFoundIn legacy word

inductive LayersFound (legacy : Bool) : List (Lexeme Mark) → List (Layer Mark) → Prop where
  | nil : LayersFound legacy [] []
  | cons {outer words word : List (Lexeme Mark)} {layers : List (Layer Mark)}
      {members : List (TypeExpr Mark)} {enclosure : Enclosure Mark} :
      LayersFound legacy outer layers → MembersFound legacy words members →
      enclosure.IsFoundIn legacy word →
      LayersFound legacy (outer ++ words ++ word) (⟨enclosure, members⟩ :: layers)

/-- A draft whose first item is complete has that item. -/
def TypeDraft.item? : TypeDraft Mark → Option (TypeExpr Mark)
  | .complete item | .bracket item => some item
  | _ => none

/-- What has been read of a type is found in its lexemes, with its layers first and its last item at
the end. -/
inductive TypeFound (legacy : Bool) :
    List (Lexeme Mark) → Surroundings Mark × TypeDraft Mark → Prop where
  | intro {all outer words word : List (Lexeme Mark)} {around : Surroundings Mark}
      {draft : TypeDraft Mark} : LayersFound legacy outer around.layers →
      MembersFound legacy words around.members → draft.IsReadFrom legacy word →
      (∀ item ∈ draft.item?, item.IsFoundIn legacy word) → outer ++ words ++ word = all →
      TypeFound legacy all (around, draft)

theorem TypeFound.empty :
    TypeFound legacy [] ((Surroundings.outermost : Surroundings Mark), .empty) :=
  .intro .nil .nil .nil (by simp [TypeDraft.item?]) rfl

/-- A complete type without layers is found in its lexemes. -/
theorem TypeFound.finish {word : List (Lexeme Mark)} {members : List (TypeExpr Mark)}
    {item : TypeExpr Mark} (found : TypeFound legacy word (⟨members, []⟩, .complete item)) :
    (Surroundings.finish ⟨members, []⟩ item).IsFoundIn legacy word := by
  obtain ⟨layers, before, read, own, rfl⟩ := found
  cases layers
  exact (before.finish read (own item rfl)).2

/-- The lexemes of a type inside an enclosure are read after those that open it. -/
theorem Enclosure.IsFoundIn.run {words word : List (Lexeme Mark)} {enclosure : Enclosure Mark}
    (opened : enclosure.IsFoundIn legacy word) {members : List (TypeExpr Mark)}
    {item : TypeExpr Mark} {inner : List (Lexeme Mark)} (before : MembersFound legacy words members)
    (read : (TypeDraft.complete item).IsReadFrom legacy inner) :
    Lexeme.Run (TypeDraft.Step legacy) (word ++ (words ++ inner)) (Surroundings.outermost, .empty)
      (⟨members, [⟨enclosure, []⟩]⟩, .complete item) := by
  have inside := (before.run read).lift
    (fun state => (state.1.within (Surroundings.outermost.enclose enclosure), state.2))
    fun _ _ _ step => step.within _
  have same : (Surroundings.mk members []).within (Surroundings.outermost.enclose enclosure) =
      ⟨members, [⟨enclosure, []⟩]⟩ := by
    simp [Surroundings.within, Surroundings.withinLayers, Surroundings.enclose,
      Surroundings.outermost]
  simp only [same] at inside
  exact opened.read.append inside

section Steps

variable {outer words word : List (Lexeme Mark)} {lexeme : Lexeme Mark}

/-- A step that leaves the surroundings as they are only goes on with the item. -/
theorem TypeFound.goesOn {around : Surroundings Mark} {next : TypeDraft Mark}
    (layers : LayersFound legacy outer around.layers)
    (members : MembersFound legacy words around.members)
    (read : next.IsReadFrom legacy (word ++ [lexeme]))
    (own : ∀ item ∈ next.item?, item.IsFoundIn legacy (word ++ [lexeme])) :
    TypeFound legacy (outer ++ words ++ word ++ [lexeme]) (around, next) :=
  .intro layers members read own (List.append_assoc _ _ _).symm

/-- A step that completes an item finds it if its other subexpressions have been found. -/
theorem TypeFound.completes {around : Surroundings Mark} {item : TypeExpr Mark}
    (layers : LayersFound legacy outer around.layers)
    (members : MembersFound legacy words around.members)
    (read : (TypeDraft.complete item).IsReadFrom legacy (word ++ [lexeme]))
    (others : ∀ part ∈ item.subexpressions, part = item ∨
      ∃ inner : TypeExpr Mark, inner.IsFoundIn legacy word ∧ part ∈ inner.subexpressions) :
    TypeFound legacy (outer ++ words ++ word ++ [lexeme]) (around, .complete item) := by
  refine .goesOn layers members read ?_
  rintro _ ⟨⟩
  refine read.complete.found fun part present => (others part present).imp_right ?_
  rintro ⟨inner, found, below⟩
  exact ⟨inner, found.mono (List.prefix_append word _).isInfix, below⟩

/-- A step that opens a layer goes on inside it. -/
theorem TypeFound.opens {around : Surroundings Mark} {enclosure : Enclosure Mark}
    (layers : LayersFound legacy outer around.layers)
    (members : MembersFound legacy words around.members)
    (opened : enclosure.IsFoundIn legacy (word ++ [lexeme])) :
    TypeFound legacy (outer ++ words ++ word ++ [lexeme]) (around.enclose enclosure, .empty) :=
  .intro (layers.cons members opened) .nil .nil (by simp [TypeDraft.item?]) (by simp)

/-- A step that closes the innermost layer completes an item of the union around it. -/
theorem TypeFound.closes {inner members : List (TypeExpr Mark)} {layers : List (Layer Mark)}
    {enclosure : Enclosure Mark} {item type : TypeExpr Mark}
    (enclosed : LayersFound legacy outer (⟨enclosure, members⟩ :: layers))
    (before : MembersFound legacy words inner)
    (read : (TypeDraft.complete item).IsReadFrom legacy word) (own : item.IsFoundIn legacy word)
    (step : TypeDraft.Step legacy lexeme (⟨inner, [⟨enclosure, []⟩]⟩, .complete item)
      (Surroundings.outermost, .complete type))
    (others : ∀ part ∈ type.subexpressions, part = type ∨
      part ∈ (Surroundings.finish ⟨inner, []⟩ item).subexpressions ∨
      ∃ keyword key, enclosure = .mapValue keyword key ∧ part ∈ key.subexpressions) :
    TypeFound legacy (outer ++ words ++ word ++ [lexeme]) (⟨members, layers⟩, .complete type) := by
  rcases enclosed with _ |
    @⟨front, frontWords, opening, _, _, _, outerLayers, outerMembers, opened⟩
  have inside : (Surroundings.finish ⟨inner, []⟩ item).IsFoundIn legacy (words ++ word) :=
    (before.finish read own).2
  have closed := (opened.run before read).append (.single step)
  have whole : front ++ frontWords ++ opening ++ words ++ word ++ [lexeme] =
      front ++ frontWords ++ (opening ++ (words ++ word)) ++ [lexeme] := by simp
  rw [whole]
  refine .completes outerLayers outerMembers closed fun part present => ?_
  rcases others part present with same | inUnion | ⟨keyword, key, rfl, inKey⟩
  · exact .inl same
  · exact .inr ⟨_, inside.mono (List.suffix_append opening _).isInfix, inUnion⟩
  · exact .inr ⟨key, (opened.key keyword key rfl).mono (List.prefix_append opening _).isInfix,
      inKey⟩

/-- The comma in a map completes its key and goes on with its value. -/
theorem TypeFound.comma {inner members : List (TypeExpr Mark)} {layers : List (Layer Mark)}
    {keyword : Mark} {item : TypeExpr Mark}
    (enclosed : LayersFound legacy outer (⟨.mapKey keyword, members⟩ :: layers))
    (before : MembersFound legacy words inner)
    (read : (TypeDraft.complete item).IsReadFrom legacy word) (own : item.IsFoundIn legacy word)
    (isComma : lexeme.kind = .comma) :
    TypeFound legacy (outer ++ words ++ word ++ [lexeme])
      (⟨[], ⟨.mapValue keyword (Surroundings.finish ⟨inner, []⟩ item), members⟩ :: layers⟩,
        .empty) := by
  rcases enclosed with _ |
    @⟨front, frontWords, opening, _, _, _, outerLayers, outerMembers, opened⟩
  have keyed : (Enclosure.mapValue keyword (Surroundings.finish ⟨inner, []⟩ item)).IsFoundIn legacy
      (opening ++ (words ++ word) ++ [lexeme]) := by
    refine ⟨(opened.run before read).append (.single (.comma isComma)), ?_⟩
    rintro _ _ ⟨⟩
    exact (before.finish read own).2.mono ⟨opening, [lexeme], rfl⟩
  have whole : front ++ frontWords ++ opening ++ words ++ word ++ [lexeme] =
      front ++ frontWords ++ (opening ++ (words ++ word)) ++ [lexeme] := by simp
  rw [whole]
  exact @TypeFound.opens _ _ _ _ _ _ _ ⟨members, layers⟩ _ outerLayers outerMembers keyed

end Steps

/-- Each step of a type goes on with what has been found. -/
theorem TypeFound.step {word : List (Lexeme Mark)} {lexeme : Lexeme Mark}
    {state next : Surroundings Mark × TypeDraft Mark} (found : TypeFound legacy word state)
    (step : TypeDraft.Step legacy lexeme state next) :
    TypeFound legacy (word ++ [lexeme]) next := by
  obtain @⟨outer, words, word, around, draft, layers, members, read, own, rfl⟩ := found
  have leaf {item : TypeExpr Mark} (single : item.subexpressions = [item]) :
      ∀ part ∈ item.subexpressions, part = item ∨
        ∃ inner : TypeExpr Mark, inner.IsFoundIn legacy word ∧ part ∈ inner.subexpressions := by
    intro part present
    rw [single, List.mem_singleton] at present
    exact .inl present
  have nothing {draft : TypeDraft Mark} (none : draft.item? = none) :
      ∀ item ∈ draft.item?, item.IsFoundIn legacy (word ++ [lexeme]) := by
    rw [none]
    rintro _ ⟨⟩
  cases step with
  | string isString => exact .completes layers members (read.step (.string isString)) (leaf rfl)
  | number isNumber => exact .completes layers members (read.step (.number isNumber)) (leaf rfl)
  | boolean isWord means =>
      exact .completes layers members (read.step (.boolean isWord means)) (leaf rfl)
  | wrapper isWord means =>
      exact .goesOn layers members (read.step (.wrapper isWord means)) (nothing rfl)
  | scalar isWord means =>
      exact .completes layers members (read.step (.scalar isWord means)) (leaf rfl)
  | reference isWord means =>
      exact .completes layers members (read.step (.reference isWord means)) (leaf rfl)
  | openBracket isBracket =>
      refine .goesOn layers members (read.step (.openBracket isBracket)) ?_
      rintro _ ⟨⟩
      exact (own _ rfl).mono (List.prefix_append word _).isInfix
  | @closeBracket _ item isBracket =>
      refine .completes layers members (read.step (.closeBracket isBracket)) fun part present => ?_
      exact (List.mem_cons.1 present).imp_right fun below => ⟨item, own item rfl, below⟩
  | bar isBar =>
      exact .intro layers (members.cons read (own _ rfl) isBar) .nil
        (by simp [TypeDraft.item?]) (by simp)
  | @openAngle _ keyword kind isAngle =>
      have opened := read.append (.single (.openAngle isAngle))
      cases kind with
      | liveObject => exact .goesOn layers members (read.step (.openAngle isAngle)) (nothing rfl)
      | liveList | liveMap => exact .opens layers members ⟨opened, by simp⟩
  | closeList isAngle =>
      refine .closes layers members read (own _ rfl) (.closeList isAngle) fun part present => ?_
      exact (List.mem_cons.1 present).imp_right .inl
  | comma isComma => exact .comma layers members read (own _ rfl) isComma
  | @closeMap _ _ _ keyword key item isAngle =>
      refine .closes layers members read (own _ rfl) (.closeMap isAngle) fun part present => ?_
      refine (List.mem_cons.1 present).imp_right fun below => ?_
      exact (List.mem_append.1 below).symm.imp_right fun inKey => ⟨keyword, key, rfl, inKey⟩
  | objectName isWord means =>
      exact .goesOn layers members (read.step (.objectName isWord means)) (nothing rfl)
  | closeObject isAngle =>
      exact .completes layers members (read.step (.closeObject isAngle)) (leaf rfl)

end StorageSchema
