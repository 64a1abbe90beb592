/-
This file reads type expressions by recursive descent.
-/
import StorageSchema.Reader
import StorageSchema.Text.Quoted
import StorageSchema.TypeExpr

namespace StorageSchema

/-- The value of a string is cut out from between its quotes, which are one byte wide. -/
def Text.Quoted.value? (text : String) : Option String :=
  if text.utf8ByteSize = 0 then none
  else
    (Text.part? text ⟨1, text.utf8ByteSize - 1⟩).map fun inside =>
      String.ofList (unescape inside.toList)

/-- A name of an object is any word except a literal, a wrapper and a legacy spelling of a scalar,
which its keyword is too. -/
def isObjectName (text : String) : Bool :=
  (Scalar.ofLegacyKeyword? text).isNone &&
    !(["true", "false", "LiveObject", "LiveList", "LiveMap"].contains text)

namespace Reading

def string (span : Span) : Reading (TypeExpr Span) := do
  let text ← select span
  let value ← ask fun _ => Text.Quoted.value? text
  return .string span value

def number (span : Span) : Reading (TypeExpr Span) := do
  let text ← select span
  match Decimal.ofSpelling? text.toList with
  | some decimal => return .number span (Double.ofDecimal decimal)
  | none => failAt span "invalid number literal"

/-- A word that is nothing else is a scalar, by its keyword or by a legacy spelling that may be
refused, or it refers to a definition. -/
def named (legacy : Bool) (span : Span) (text : String) : Reading (TypeExpr Span) :=
  match Scalar.ofKeyword? text with
  | some scalar => return .scalar span scalar
  | none =>
      match Scalar.ofLegacyKeyword? text with
      | some scalar =>
          if legacy then return .scalar span scalar
          else
            failAt span (String.join ["legacy built-in type `", text,
              "` is not supported, use `", scalar.keyword, "` instead"])
      | none => return .reference ⟨span, ⟨span, text⟩, false⟩

def namesObject (cut : Cut) : Reading Bool :=
  if cut.kind = .identifier then do
    let text ← select cut.span
    return isObjectName text
  else return false

def liveObject (keyword : Span) : Reading (TypeExpr Span) := do
  let _ ← expect .lessThan (.openingAngle .liveObject)
  let cut ← look
  if ← namesObject cut then do
    let _ ← take
    let close ← expect .greaterThan .closingAngle
    let text ← select cut.span
    return .reference ⟨keyword ∪ close.span, ⟨cut.span, text⟩, true⟩
  else failAt cut.span Expectation.objectName.message

/-- The types inside a wrapper are read by the reading that is given. -/
def liveList (inner : Reading (TypeExpr Span)) (keyword : Span) : Reading (TypeExpr Span) := do
  let _ ← expect .lessThan (.openingAngle .liveList)
  let item ← inner
  let close ← expect .greaterThan .closingAngle
  return .liveList (keyword ∪ close.span) item

def liveMap (inner : Reading (TypeExpr Span)) (keyword : Span) : Reading (TypeExpr Span) := do
  let _ ← expect .lessThan (.openingAngle .liveMap)
  let key ← inner
  let _ ← expect .comma .comma
  let value ← inner
  let close ← expect .greaterThan .closingAngle
  return .liveMap (keyword ∪ close.span) key value

/-- The first word of a type tells how it goes on. -/
def ofWord (legacy : Bool) (inner : Reading (TypeExpr Span)) (span : Span) (text : String) :
    Reading (TypeExpr Span) :=
  match text with
  | "true" => return .boolean span true
  | "false" => return .boolean span false
  | "LiveObject" => liveObject span
  | "LiveList" => liveList inner span
  | "LiveMap" => liveMap inner span
  | _ => named legacy span text

def word (legacy : Bool) (inner : Reading (TypeExpr Span)) (span : Span) :
    Reading (TypeExpr Span) := do
  let text ← select span
  ofWord legacy inner span text

/-- The first token of a type tells what it is. -/
def primary (legacy : Bool) (inner : Reading (TypeExpr Span)) : Reading (TypeExpr Span) := do
  let cut ← look
  match cut.kind with
  | .string => do
      let _ ← take
      string cut.span
  | .number => do
      let _ ← take
      number cut.span
  | .identifier => do
      let _ ← take
      word legacy inner cut.span
  | _ => unexpected cut .type

/-- A pair of brackets makes an array of the type before it. -/
def brackets (type : TypeExpr Span) : Reading (TypeExpr Span ⊕ TypeExpr Span) := do
  let cut ← look
  if cut.kind = .leftBracket then do
    let _ ← take
    let close ← expect .rightBracket .closingBracket
    return .inl (.array (type.mark ∪ close.span) type)
  else return .inr type

def item (legacy : Bool) (inner : Reading (TypeExpr Span)) : Reading (TypeExpr Span) := do
  let type ← primary legacy inner
  let rounds ← limit
  loop brackets rounds type

/-- A bar goes on with a union, whose members have the latest one first. -/
def bars (legacy : Bool) (inner : Reading (TypeExpr Span)) (members : List (TypeExpr Span)) :
    Reading (List (TypeExpr Span) ⊕ List (TypeExpr Span)) := do
  let cut ← look
  if cut.kind = .bar then do
    let _ ← take
    let member ← item legacy inner
    return .inl (member :: members)
  else return .inr members.reverse

/-- A union is marked from its members, the first of which must be there. -/
def unionOf? (members : List (TypeExpr Span)) : Option (TypeExpr Span) := do
  let first ← members[0]?
  some (.union (members.foldl (fun mark member => mark ∪ member.mark) first.mark) members)

/-- A type without a bar is its only item. -/
def typeAround (legacy : Bool) (inner : Reading (TypeExpr Span)) : Reading (TypeExpr Span) := do
  let first ← item legacy inner
  let cut ← look
  if cut.kind = .bar then do
    let rounds ← limit
    let members ← loop (bars legacy inner) rounds [first]
    ask fun _ => unionOf? members
  else return first

/-- Types are read inside types down to a depth that must be enough. -/
def type (legacy : Bool) : Nat → Reading (TypeExpr Span)
  | 0 => ask fun _ => none
  | depth + 1 => typeAround legacy (type legacy depth)

end Reading

end StorageSchema
