/-
This file reads type expressions one lexeme at a time.
-/
import StorageSchema.SyntaxError
import StorageSchema.Text.Quoted
import StorageSchema.TypeExpr

namespace StorageSchema

/-- An enclosure is a wrapper that has been opened and holds the type that is being read. -/
inductive Enclosure (Mark : Type) where
  | list (keyword : Mark)
  | mapKey (keyword : Mark)
  | mapValue (keyword : Mark) (key : TypeExpr Mark)
  deriving DecidableEq

/-- A layer is an enclosure with the members before it in its own union, latest first. -/
structure Layer (Mark : Type) where
  enclosure : Enclosure Mark
  members : List (TypeExpr Mark)
  deriving DecidableEq

/-- The surroundings of an item are the members before it in its union, latest first, and the layers
around that union, innermost first. -/
structure Surroundings (Mark : Type) where
  members : List (TypeExpr Mark)
  layers : List (Layer Mark)
  deriving DecidableEq

/-- A type draft is an item of a type as far as it has been read. -/
inductive TypeDraft (Mark : Type) where
  | empty
  | complete (item : TypeExpr Mark)
  | bracket (item : TypeExpr Mark)
  | wrapper (keyword : Mark) (kind : Wrapper)
  | object (keyword : Mark)
  | namedObject (keyword : Mark) (name : Name Mark)
  deriving DecidableEq

variable {Mark : Type}

/-- The type of a field is not enclosed by anything. -/
def Surroundings.outermost : Surroundings Mark := ⟨[], []⟩

/-- The layer that has been opened surrounds a union without members so far. -/
def Surroundings.enclose (around : Surroundings Mark) (enclosure : Enclosure Mark) :
    Surroundings Mark :=
  ⟨[], ⟨enclosure, around.members⟩ :: around.layers⟩

/-- An item ends a union with the members before it, and alone it is no union. -/
def Surroundings.finish [Union Mark] (around : Surroundings Mark) (item : TypeExpr Mark) :
    TypeExpr Mark :=
  match (item :: around.members).reverse with
  | first :: second :: rest =>
      .union ((second :: rest).foldl (fun mark member => mark ∪ member.mark) first.mark)
        (first :: second :: rest)
  | _ => item

/-- A complete item may be followed by what its innermost layer waits for. -/
def Surroundings.expectation (around : Surroundings Mark) : Expectation :=
  match around.layers with
  | [] => .fieldName
  | ⟨.list _, _⟩ :: _ => .closingAngle
  | ⟨.mapKey _, _⟩ :: _ => .comma
  | ⟨.mapValue _ _, _⟩ :: _ => .closingAngle

/-- A type draft knows what may come next. -/
def TypeDraft.expectation (around : Surroundings Mark) : TypeDraft Mark → Expectation
  | .empty => .type
  | .complete _ => around.expectation
  | .bracket _ => .closingBracket
  | .wrapper _ kind => .openingAngle kind
  | .object _ => .objectName
  | .namedObject _ _ => .closingAngle

/-- The lexeme is refused for the sake of the expectation. -/
def Lexeme.refuse {Result : Type} (lexeme : Lexeme Mark) (expectation : Expectation) :
    Except (SyntaxError Mark) Result :=
  .error ⟨lexeme, .expected expectation⟩

/-- A word begins an item as its meaning says. -/
def TypeDraft.ofWord (legacy : Bool) (lexeme : Lexeme Mark) :
    Except (SyntaxError Mark) (TypeDraft Mark) :=
  match Word.ofText lexeme.text with
  | .boolean value => .ok (.complete (.boolean lexeme.mark value))
  | .wrapper kind => .ok (.wrapper lexeme.mark kind)
  | .scalar kind => .ok (.complete (.scalar lexeme.mark kind))
  | .legacyScalar kind =>
      if legacy then .ok (.complete (.scalar lexeme.mark kind))
      else .error ⟨lexeme, .legacyScalar kind⟩
  | .name =>
      .ok (.complete (.reference ⟨lexeme.mark, ⟨lexeme.mark, lexeme.text⟩, false⟩))

/-- The first lexeme of an item is a literal or a word. -/
def TypeDraft.ofLexeme (legacy : Bool) (lexeme : Lexeme Mark) :
    Except (SyntaxError Mark) (TypeDraft Mark) :=
  match lexeme.kind with
  | .string =>
      let value := String.ofList (Text.Quoted.decode lexeme.text.toList)
      .ok (.complete (.string lexeme.mark value))
  | .number =>
      let value := Double.ofDecimal (Decimal.ofSpelling lexeme.text.toList)
      .ok (.complete (.number lexeme.mark value))
  | .identifier => ofWord legacy lexeme
  | _ => lexeme.refuse .type

/-- After a complete item a bracket makes an array of it, a bar goes on with its union, and what the
innermost layer waits for ends that union. -/
def TypeDraft.extend [Union Mark] (around : Surroundings Mark) (item : TypeExpr Mark)
    (lexeme : Lexeme Mark) :
    Except (SyntaxError Mark) (Surroundings Mark × TypeDraft Mark) :=
  match lexeme.kind, around.layers with
  | .leftBracket, _ => .ok (around, .bracket item)
  | .bar, layers => .ok (⟨item :: around.members, layers⟩, .empty)
  | .greaterThan, ⟨.list keyword, members⟩ :: layers =>
      .ok (⟨members, layers⟩,
        .complete (.liveList (keyword ∪ lexeme.mark) (around.finish item)))
  | .comma, ⟨.mapKey keyword, members⟩ :: layers =>
      .ok (⟨[], ⟨.mapValue keyword (around.finish item), members⟩ :: layers⟩, .empty)
  | .greaterThan, ⟨.mapValue keyword key, members⟩ :: layers =>
      .ok (⟨members, layers⟩,
        .complete (.liveMap (keyword ∪ lexeme.mark) key (around.finish item)))
  | _, _ => lexeme.refuse around.expectation

/-- An opening angle after a live object is followed by a name, and after another wrapper by a
type. -/
def TypeDraft.openWrapper (around : Surroundings Mark) (keyword : Mark) :
    Wrapper → Surroundings Mark × TypeDraft Mark
  | .liveObject => (around, .object keyword)
  | .liveList => (around.enclose (.list keyword), .empty)
  | .liveMap => (around.enclose (.mapKey keyword), .empty)

/-- This function reads one lexeme of a type. -/
def TypeDraft.add [Union Mark] (legacy : Bool) (around : Surroundings Mark)
    (draft : TypeDraft Mark) (lexeme : Lexeme Mark) :
    Except (SyntaxError Mark) (Surroundings Mark × TypeDraft Mark) :=
  match draft with
  | .empty => (ofLexeme legacy lexeme).map fun next => (around, next)
  | .complete item => extend around item lexeme
  | .bracket item =>
      if lexeme.kind = .rightBracket then
        .ok (around, .complete (.array (item.mark ∪ lexeme.mark) item))
      else lexeme.refuse .closingBracket
  | .wrapper keyword kind =>
      if lexeme.kind = .lessThan then .ok (openWrapper around keyword kind)
      else lexeme.refuse (.openingAngle kind)
  | .object keyword =>
      if lexeme.kind = .identifier ∧ Word.ofText lexeme.text = .name then
        .ok (around, .namedObject keyword ⟨lexeme.mark, lexeme.text⟩)
      else lexeme.refuse .objectName
  | .namedObject keyword name =>
      if lexeme.kind = .greaterThan then
        .ok (around, .complete (.reference ⟨keyword ∪ lexeme.mark, name, true⟩))
      else lexeme.refuse .closingAngle

end StorageSchema
