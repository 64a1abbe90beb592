/-
This file says how the nodes of a document cover the tokens of a text. A node covers tokens from the
first to the last of them, and its children cover parts of them one after the other.
-/
import Mathlib.Data.List.Infix
import StorageSchema.Document.Node
import StorageSchema.Proofs.Token.Slice

namespace StorageSchema

variable {Mark : Type}

/-! ### Children -/

/-- The children of a type are the types in it, and the name in a reference. -/
def TypeExpr.children : TypeExpr Mark → List (Node Mark)
  | .reference named => [.typeName named.name]
  | .array _ item | .liveList _ item => [.type item]
  | .liveMap _ key value => [.type key, .type value]
  | .union _ members => members.map .type
  | .scalar _ _ | .string _ _ | .number _ _ | .boolean _ _ => []

/-- The children of a node are the parts just below it, in the order of the text. -/
def Node.children : Node Mark → List (Node Mark)
  | .document whole => whole.definitions.map .definition
  | .definition declared => .typeName declared.name :: declared.fields.map .field
  | .field declared => [.fieldName declared.name, .type declared.type]
  | .type expression => expression.children
  | .typeName _ | .fieldName _ => []

/-- The nodes inside a node are it and the children of those inside it. -/
inductive Node.Inside (whole : Node Mark) : Node Mark → Prop where
  | self : Inside whole whole
  | child {parent child : Node Mark} : Inside whole parent → child ∈ parent.children →
      Inside whole child

theorem Node.Inside.trans {whole part inner : Node Mark} (outer : whole.Inside part)
    (inside : part.Inside inner) : whole.Inside inner := by
  induction inside with
  | self => exact outer
  | child _ below inductionHypothesis => exact .child inductionHypothesis below

/-- These are the nodes of a node in the order of the text. -/
def Node.nodes : Node Mark → List (Node Mark)
  | .document whole => whole.nodes
  | .definition declared => declared.nodes
  | .field declared => declared.nodes
  | .type expression => expression.nodes
  | .typeName name => [.typeName name]
  | .fieldName name => [.fieldName name]

theorem TypeExpr.flatMap_subexpressionsAll (members : List (TypeExpr Mark)) :
    (TypeExpr.subexpressionsAll members).flatMap TypeExpr.ownNodes =
      (members.map Node.type).flatMap Node.nodes := by
  induction members with
  | nil => rfl
  | cons member rest inductionHypothesis =>
      rw [TypeExpr.subexpressionsAll, List.flatMap_append, inductionHypothesis]
      rfl

/-- A node comes first, and the nodes of its children follow. -/
theorem Node.nodes_eq (node : Node Mark) :
    node.nodes = node :: node.children.flatMap Node.nodes := by
  cases node with
  | document whole => simp [Node.nodes, Document.nodes, Node.children, List.flatMap_map]
  | definition declared => simp [Node.nodes, Definition.nodes, Node.children, List.flatMap_map]
  | field declared => simp [Node.nodes, Field.nodes, Node.children]
  | typeName _ | fieldName _ => rfl
  | type expression =>
      cases expression with
      | union mark members =>
          exact congrArg (Node.type (.union mark members) :: ·)
            (TypeExpr.flatMap_subexpressionsAll members)
      | _ =>
          simp [Node.nodes, TypeExpr.nodes, TypeExpr.subexpressions, TypeExpr.ownNodes,
            Node.children, TypeExpr.children]

mutual

theorem TypeExpr.inside_of_mem_nodes {node : Node Mark} :
    (type : TypeExpr Mark) → node ∈ type.nodes → (Node.type type).Inside node
  | .scalar .., present | .string .., present | .number .., present | .boolean .., present => by
      rw [List.mem_singleton.1 present]
      exact .self
  | .reference named, present => by
      rcases List.mem_cons.1 present with rfl | below
      · exact .self
      · exact .child .self below
  | .array mark item, present | .liveList mark item, present => by
      rcases List.mem_cons.1 present with rfl | below
      · exact .self
      · have inside := TypeExpr.inside_of_mem_nodes item below
        exact (Node.Inside.child .self (List.mem_singleton.2 rfl)).trans inside
  | .liveMap mark key value, present => by
      rcases List.mem_cons.1 present with rfl | below
      · exact .self
      · have divided : node ∈ key.nodes ++ value.nodes := by
          rwa [TypeExpr.nodes, TypeExpr.nodes, ← List.flatMap_append]
        rcases List.mem_append.1 divided with inKey | inValue
        · have inside := TypeExpr.inside_of_mem_nodes key inKey
          exact (Node.Inside.child .self List.mem_cons_self).trans inside
        · have inside := TypeExpr.inside_of_mem_nodes value inValue
          exact (Node.Inside.child .self (List.mem_cons_of_mem _ List.mem_cons_self)).trans inside
  | .union mark members, present => by
      rcases List.mem_cons.1 present with rfl | below
      · exact .self
      · obtain ⟨member, among, inside⟩ := TypeExpr.inside_of_mem_nodesAll members below
        exact (Node.Inside.child .self (List.mem_map_of_mem among)).trans inside

theorem TypeExpr.inside_of_mem_nodesAll {node : Node Mark} :
    (members : List (TypeExpr Mark)) →
      node ∈ (TypeExpr.subexpressionsAll members).flatMap TypeExpr.ownNodes →
      ∃ member ∈ members, (Node.type member).Inside node
  | [], present => absurd present List.not_mem_nil
  | member :: rest, present => by
      rw [TypeExpr.subexpressionsAll, List.flatMap_append] at present
      rcases List.mem_append.1 present with own | later
      · exact ⟨member, List.mem_cons_self, TypeExpr.inside_of_mem_nodes member own⟩
      · obtain ⟨other, among, inside⟩ := TypeExpr.inside_of_mem_nodesAll rest later
        exact ⟨other, List.mem_cons_of_mem member among, inside⟩

end

/-- What holds of the children of a node holds of the node. -/
theorem Node.inside_of_mem_children {whole node : Node Mark}
    (below : ∀ child ∈ whole.children, node ∈ child.nodes → child.Inside node)
    (present : node ∈ whole.nodes) : whole.Inside node := by
  rw [Node.nodes_eq] at present
  rcases List.mem_cons.1 present with rfl | later
  · exact .self
  · obtain ⟨child, among, within⟩ := List.mem_flatMap.1 later
    exact (Node.Inside.child .self among).trans (below child among within)

/-- The nodes of a document are those inside it. -/
theorem Document.mem_nodes_iff {document : Document Mark} {node : Node Mark} :
    node ∈ document.nodes ↔ (Node.document document).Inside node := by
  constructor
  · change node ∈ (Node.document document).nodes → _
    apply Node.inside_of_mem_children
    simp only [Node.children, List.forall_mem_map]
    intro definition _
    apply Node.inside_of_mem_children
    simp only [Node.children, List.forall_mem_cons, List.forall_mem_map]
    constructor
    · exact Node.inside_of_mem_children (List.forall_mem_nil _)
    · intro field _
      apply Node.inside_of_mem_children
      simp only [Node.children, List.forall_mem_cons]
      refine ⟨Node.inside_of_mem_children (List.forall_mem_nil _), ?_, List.forall_mem_nil _⟩
      exact TypeExpr.inside_of_mem_nodes field.type
  · intro inside
    have nodes : node.nodes ⊆ document.nodes := by
      induction inside with
      | self => exact List.Subset.refl _
      | @child parent child _ below inductionHypothesis =>
          apply List.Subset.trans _ inductionHypothesis
          rw [Node.nodes_eq parent]
          intro inner within
          exact List.mem_cons_of_mem parent (List.mem_flatMap.2 ⟨child, below, within⟩)
    apply nodes
    rw [Node.nodes_eq]
    exact List.mem_cons_self

/-! ### Marks of tokens -/

/-- Tokens span a mark that reaches from the first of them to the last. -/
def Token.Spans (tokens : List Token) (mark : Span) : Prop :=
  ∃ first last, tokens.head? = some first ∧ tokens.getLast? = some last ∧
    mark = ⟨first.start, last.span.stop⟩

theorem Token.Spans.single (token : Token) : Token.Spans [token] token.span :=
  ⟨token, token, rfl, rfl, rfl⟩

theorem Token.Spans.unique {tokens : List Token} {mark other : Span}
    (spans : Token.Spans tokens mark) (same : Token.Spans tokens other) : mark = other := by
  obtain ⟨first, last, heads, ends, rfl⟩ := spans
  obtain ⟨otherFirst, otherLast, otherHeads, otherEnds, rfl⟩ := same
  obtain rfl := Option.some.inj (heads.symm.trans otherHeads)
  obtain rfl := Option.some.inj (ends.symm.trans otherEnds)
  rfl

/-- The mark reaches over every one of its tokens. -/
theorem Token.Spans.covers {tokens : List Token} {mark : Span} (spans : Token.Spans tokens mark)
    (apart : Token.Apart tokens) {token : Token} (present : token ∈ tokens) :
    mark.start ≤ token.start ∧ token.span.stop ≤ mark.stop := by
  obtain ⟨first, last, heads, ends, rfl⟩ := spans
  have solid := apart.solid
  constructor
  · obtain ⟨rest, rfl⟩ := List.head?_eq_some_iff.1 heads
    rcases List.mem_cons.1 present with rfl | later
    · exact Nat.le_refl _
    · have before := (List.pairwise_cons.1 apart.pairwise).1 token later
      exact (solid first List.mem_cons_self).le.trans before
  · obtain ⟨front, rfl⟩ := List.getLast?_eq_some_iff.1 ends
    rcases List.mem_append.1 present with earlier | isLast
    · have before := (List.pairwise_append.1 apart.pairwise).2.2 token earlier last
        (List.mem_singleton.2 rfl)
      have own := solid last (by simp)
      exact before.trans own.le
    · rw [List.mem_singleton.1 isLast]

theorem Token.Spans.placed {tokens : List Token} {mark : Span} (spans : Token.Spans tokens mark)
    (apart : Token.Apart tokens) : mark.start < mark.stop := by
  obtain ⟨first, last, heads, ends, rfl⟩ := spans
  have present := List.mem_of_mem_head? heads
  have reaches := (Token.Spans.covers ⟨first, last, heads, ends, rfl⟩ apart present).2
  exact Nat.lt_of_lt_of_le (apart.solid first present) reaches

/-- The union of two marks spans all tokens from the first mark to the second. -/
theorem Token.Spans.union {left middle right : List Token} {first second : Span}
    (begins : Token.Spans left first) (ends : Token.Spans right second)
    (apart : Token.Apart (left ++ middle ++ right)) :
    Token.Spans (left ++ middle ++ right) (first ∪ second) := by
  have firstPlaced := begins.placed apart.left.left
  have secondPlaced := ends.placed apart.right
  obtain ⟨firstHead, firstLast, leftHeads, leftEnds, rfl⟩ := begins
  obtain ⟨secondHead, secondLast, rightHeads, rightEnds, rfl⟩ := ends
  have before := (List.pairwise_append.1 apart.pairwise).2.2 firstLast
    (List.mem_append_left _ (List.mem_of_getLast? leftEnds)) secondHead
    (List.mem_of_mem_head? rightHeads)
  refine ⟨firstHead, secondLast, ?_, ?_, ?_⟩
  · simp [List.head?_append, leftHeads]
  · simp [List.getLast?_append, rightEnds]
  · rw [Span.union_eq firstPlaced.le secondPlaced.le, Span.mk.injEq]
    change firstHead.start < firstLast.span.stop at firstPlaced
    change secondHead.start < secondLast.span.stop at secondPlaced
    constructor
    · apply Nat.min_eq_left
      exact firstPlaced.le.trans before
    · apply Nat.max_eq_right
      exact before.trans secondPlaced.le

/-! ### Covering -/

/-- Trees stand on parts of the tokens one after the other, with any tokens in between. -/
inductive Token.Blocks {Tree : Type} (form : List Token → Tree → Prop) :
    List Token → List Tree → Prop where
  | gap (tokens : List Token) : Blocks form tokens []
  | single {tokens : List Token} {tree : Tree} : form tokens tree → Blocks form tokens [tree]
  | append {first second : List Token} {trees others : List Tree} : Blocks form first trees →
      Blocks form second others → Blocks form (first ++ second) (trees ++ others)

theorem Token.Blocks.of_forall₂ {Tree : Type} {form : List Token → Tree → Prop}
    {words : List (List Token)} {trees : List Tree} (all : List.Forall₂ form words trees) :
    Token.Blocks form words.flatten trees := by
  induction all with
  | nil => exact .gap []
  | cons own _ inductionHypothesis => exact .append (.single own) inductionHypothesis

theorem Token.Blocks.exists_block {Tree : Type} {form : List Token → Tree → Prop}
    {tokens : List Token} {trees : List Tree} (blocks : Token.Blocks form tokens trees) :
    ∀ tree ∈ trees, ∃ block, block <:+: tokens ∧ form block tree := by
  induction blocks with
  | gap _ => exact List.forall_mem_nil _
  | @single tokens tree own => exact List.forall_mem_singleton.2 ⟨tokens, List.infix_rfl, own⟩
  | @append first second trees others _ _ firstHypothesis secondHypothesis =>
      intro tree present
      rcases List.mem_append.1 present with left | right
      · obtain ⟨block, within, own⟩ := firstHypothesis tree left
        exact ⟨block, within.trans (List.prefix_append _ _).isInfix, own⟩
      · obtain ⟨block, within, own⟩ := secondHypothesis tree right
        exact ⟨block, within.trans (List.suffix_append _ _).isInfix, own⟩

/-- A field begins with its name, and a comma may follow the end of its type. -/
def Field.Spells (word : List Token) (field : Field Span) : Prop :=
  ∃ name middle comma, word = name :: middle ++ comma ∧ name.kind = .identifier ∧
    name.span = field.name.mark ∧
    (name :: middle).getLast?.map (·.span.stop) = some field.type.mark.stop ∧
    (comma = [] ∨ ∃ sign, comma = [sign] ∧ sign.kind = .comma)

/-- A definition has its keyword, its name and its fields between braces. -/
def Definition.Spells (word : List Token) (definition : Definition Span) : Prop :=
  ∃ keyword name opening words closing,
    word = keyword :: name :: opening :: words.flatten ++ [closing] ∧
    keyword.symbol = .word "type" ∧ name.span = definition.name.mark ∧
    opening.kind = .leftBrace ∧ closing.kind = .rightBrace ∧
    (∀ token ∈ words.flatten, token.kind ≠ .rightBrace) ∧
    List.Forall₂ (fun word field => Token.Spans word field.mark ∧ field.Spells word) words
      definition.fields

/-- This says what the tokens are that belong to a node itself. -/
def Node.Spells (word : List Token) : Node Span → Prop
  | .typeName name | .fieldName name => word.map Token.symbol = [.word name.text]
  | .definition declared => declared.Spells word
  | .field declared => declared.Spells word
  | .document _ | .type _ => True

/-- A node covers tokens if its mark spans them, they spell it, and its children cover parts of
them. -/
inductive Node.Covers : List Token → Node Span → Prop where
  | intro {word : List Token} {node : Node Span} : Token.Spans word node.mark →
      node.Spells word → Token.Blocks Covers word node.children → Covers word node

theorem Node.Covers.spans {word : List Token} {node : Node Span} (covers : node.Covers word) :
    Token.Spans word node.mark := by
  cases covers with
  | intro spans _ _ => exact spans

theorem Node.Covers.spells {word : List Token} {node : Node Span} (covers : node.Covers word) :
    node.Spells word := by
  cases covers with
  | intro _ spells _ => exact spells

theorem Node.Covers.blocks {word : List Token} {node : Node Span} (covers : node.Covers word) :
    Token.Blocks Node.Covers word node.children := by
  cases covers with
  | intro _ _ blocks => exact blocks

/-- A node inside another one covers a part of its tokens. -/
theorem Node.Inside.exists_block {word : List Token} {whole node : Node Span}
    (inside : whole.Inside node)
    (blocks : Token.Blocks Node.Covers word whole.children) :
    node = whole ∨ ∃ block, block <:+: word ∧ node.Covers block := by
  induction inside with
  | self => exact .inl rfl
  | child _ below inductionHypothesis =>
      right
      rcases inductionHypothesis with rfl | ⟨block, within, covers⟩
      · exact blocks.exists_block _ below
      · obtain ⟨inner, part, own⟩ := covers.blocks.exists_block _ below
        exact ⟨inner, part.trans within, own⟩

/-- The children of a node that covers tokens stand one after the other in its mark. -/
theorem Node.pairwise_children {word : List Token} {children : List (Node Span)}
    (blocks : Token.Blocks Node.Covers word children)
    (apart : Token.Apart word) :
    children.Pairwise fun first second => first.mark.stop ≤ second.mark.start := by
  induction blocks with
  | gap _ => exact .nil
  | single _ => exact List.pairwise_singleton _ _
  | append left right firstHypothesis secondHypothesis =>
      apply List.pairwise_append.2
      refine ⟨firstHypothesis apart.left, secondHypothesis apart.right, ?_⟩
      intro first isLeft second isRight
      obtain ⟨leftBlock, leftWithin, leftCovers⟩ := left.exists_block first isLeft
      obtain ⟨rightBlock, rightWithin, rightCovers⟩ := right.exists_block second isRight
      obtain ⟨_, last, -, ends, firstMark⟩ := leftCovers.spans
      obtain ⟨head, _, heads, -, secondMark⟩ := rightCovers.spans
      have before := (List.pairwise_append.1 apart.pairwise).2.2 last
        (leftWithin.subset (List.mem_of_getLast? ends)) head
        (rightWithin.subset (List.mem_of_mem_head? heads))
      rw [firstMark, secondMark]
      exact before

end StorageSchema
