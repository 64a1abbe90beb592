/-
This file holds the type expressions of a schema. Every node carries a mark, which is its span where
the expression was read from a text.
-/
import StorageSchema.Number.Double
import StorageSchema.Scalar

namespace StorageSchema

/-- A name is a word at one place. -/
structure Name (Mark : Type) where
  mark : Mark
  text : String
  deriving DecidableEq

/-- A reference names a definition, and its values are live objects if it says so. -/
structure Reference (Mark : Type) where
  mark : Mark
  name : Name Mark
  asLiveObject : Bool
  deriving DecidableEq

/-- A type expression says which values a field may have. -/
inductive TypeExpr (Mark : Type) where
  | scalar (mark : Mark) (scalar : Scalar)
  | string (mark : Mark) (value : String)
  | number (mark : Mark) (value : Double)
  | boolean (mark : Mark) (value : Bool)
  | reference (reference : Reference Mark)
  | array (mark : Mark) (item : TypeExpr Mark)
  | liveList (mark : Mark) (item : TypeExpr Mark)
  | liveMap (mark : Mark) (key value : TypeExpr Mark)
  | union (mark : Mark) (members : List (TypeExpr Mark))

variable {Mark Other : Type}

/-- The mark of a reference is that of the whole expression, not of the name in it. -/
def TypeExpr.mark : TypeExpr Mark → Mark
  | .scalar mark _ | .string mark _ | .number mark _ | .boolean mark _ => mark
  | .reference named => named.mark
  | .array mark _ | .liveList mark _ | .liveMap mark _ _ | .union mark _ => mark

/-- Only a scalar type has a scalar. -/
def TypeExpr.scalar? : TypeExpr Mark → Option Scalar
  | .scalar _ kind => some kind
  | _ => none

/-- This function changes the mark of a name. -/
def Name.map (change : Mark → Other) (name : Name Mark) : Name Other :=
  ⟨change name.mark, name.text⟩

/-- This function changes the marks of a reference. -/
def Reference.map (change : Mark → Other) (reference : Reference Mark) : Reference Other :=
  ⟨change reference.mark, reference.name.map change, reference.asLiveObject⟩

mutual

/-- This function changes the mark of every node and nothing else. -/
def TypeExpr.map (change : Mark → Other) : TypeExpr Mark → TypeExpr Other
  | .scalar mark kind => .scalar (change mark) kind
  | .string mark value => .string (change mark) value
  | .number mark value => .number (change mark) value
  | .boolean mark value => .boolean (change mark) value
  | .reference named => .reference (named.map change)
  | .array mark item => .array (change mark) (item.map change)
  | .liveList mark item => .liveList (change mark) (item.map change)
  | .liveMap mark key value => .liveMap (change mark) (key.map change) (value.map change)
  | .union mark members => .union (change mark) (TypeExpr.mapAll change members)

def TypeExpr.mapAll (change : Mark → Other) : List (TypeExpr Mark) → List (TypeExpr Other)
  | [] => []
  | member :: rest => member.map change :: TypeExpr.mapAll change rest

end

mutual

/-- The nodes of an expression are it and the expressions inside it, in the order of the text. -/
def TypeExpr.subexpressions : TypeExpr Mark → List (TypeExpr Mark)
  | .array mark item => .array mark item :: item.subexpressions
  | .liveList mark item => .liveList mark item :: item.subexpressions
  | .liveMap mark key value =>
      .liveMap mark key value :: (key.subexpressions ++ value.subexpressions)
  | .union mark members => .union mark members :: TypeExpr.subexpressionsAll members
  | simple => [simple]

def TypeExpr.subexpressionsAll : List (TypeExpr Mark) → List (TypeExpr Mark)
  | [] => []
  | member :: rest => member.subexpressions ++ TypeExpr.subexpressionsAll rest

end

mutual

/-- This function compares two expressions node by node. -/
def TypeExpr.isSame [DecidableEq Mark] : TypeExpr Mark → TypeExpr Mark → Bool
  | .scalar mark kind, .scalar otherMark otherKind => mark = otherMark && kind = otherKind
  | .string mark value, .string otherMark otherValue => mark = otherMark && value = otherValue
  | .number mark value, .number otherMark otherValue => mark = otherMark && value = otherValue
  | .boolean mark value, .boolean otherMark otherValue => mark = otherMark && value = otherValue
  | .reference named, .reference otherNamed => named = otherNamed
  | .array mark item, .array otherMark other => mark = otherMark && item.isSame other
  | .liveList mark item, .liveList otherMark other => mark = otherMark && item.isSame other
  | .liveMap mark key value, .liveMap otherMark otherKey otherValue =>
      mark = otherMark && key.isSame otherKey && value.isSame otherValue
  | .union mark members, .union otherMark others =>
      mark = otherMark && TypeExpr.isSameAll members others
  | _, _ => false

def TypeExpr.isSameAll [DecidableEq Mark] : List (TypeExpr Mark) → List (TypeExpr Mark) → Bool
  | [], [] => true
  | member :: rest, other :: others => member.isSame other && TypeExpr.isSameAll rest others
  | _, _ => false

end

mutual

theorem TypeExpr.isSame_iff [DecidableEq Mark] :
    (first second : TypeExpr Mark) → (first.isSame second = true ↔ first = second)
  | .scalar .., second | .string .., second | .number .., second | .boolean .., second
  | .reference .., second => by
      cases second <;> simp [TypeExpr.isSame]
  | .array _ item, second => by
      cases second <;> simp [TypeExpr.isSame, TypeExpr.isSame_iff item]
  | .liveList _ item, second => by
      cases second <;> simp [TypeExpr.isSame, TypeExpr.isSame_iff item]
  | .liveMap _ key value, second => by
      cases second <;>
        simp [TypeExpr.isSame, TypeExpr.isSame_iff key, TypeExpr.isSame_iff value, and_assoc]
  | .union _ members, second => by
      cases second <;> simp [TypeExpr.isSame, TypeExpr.isSameAll_iff members]

theorem TypeExpr.isSameAll_iff [DecidableEq Mark] :
    (first second : List (TypeExpr Mark)) →
      (TypeExpr.isSameAll first second = true ↔ first = second)
  | [], second => by cases second <;> simp [TypeExpr.isSameAll]
  | member :: rest, second => by
      cases second <;>
        simp [TypeExpr.isSameAll, TypeExpr.isSame_iff member, TypeExpr.isSameAll_iff rest]

end

instance [DecidableEq Mark] : DecidableEq (TypeExpr Mark) := fun first second =>
  decidable_of_iff (first.isSame second = true) (first.isSame_iff second)

theorem TypeExpr.mapAll_eq (change : Mark → Other) (members : List (TypeExpr Mark)) :
    mapAll change members = members.map (TypeExpr.map change) := by
  induction members with
  | nil => rfl
  | cons member rest inductionHypothesis => simp [mapAll, inductionHypothesis]

theorem TypeExpr.mark_map (change : Mark → Other) (type : TypeExpr Mark) :
    (type.map change).mark = change type.mark := by
  cases type <;> simp [TypeExpr.map, TypeExpr.mark, Reference.map]

end StorageSchema
