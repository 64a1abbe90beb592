/-
This file shows that the JSON value of a document determines the document up to its marks, and that
of a schema its classification too. The order of properties is not needed for that.
-/
import Mathlib.Data.List.Forall2
import Mathlib.Data.List.TFAE
import Mathlib.Tactic.TFAE
import StorageSchema.Json.Document

namespace StorageSchema

/-- Two values are the same if they have the same items in order and the same value for each key. -/
inductive Json.Same : Json → Json → Prop where
  | null : Same .null .null
  | boolean (value : Bool) : Same (.boolean value) (.boolean value)
  | number (text : String) : Same (.number text) (.number text)
  | string (value : String) : Same (.string value) (.string value)
  | array {items others : List Json} (each : List.Forall₂ Same items others) :
      Same (.array items) (.array others)
  | object {properties others : List (String × Json)}
      (each : ∀ key, Option.Rel Same (properties.lookup key) (others.lookup key)) :
      Same (.object properties) (.object others)

mutual

/-- Equal values are the same. -/
theorem Json.Same.refl : (json : Json) → json.Same json
  | .null => .null
  | .boolean value => .boolean value
  | .number text => .number text
  | .string value => .string value
  | .array items => .array (Json.Same.reflAll items)
  | .object properties => .object fun key => Json.Same.reflLookup key properties

theorem Json.Same.reflAll : (items : List Json) → List.Forall₂ Json.Same items items
  | [] => .nil
  | item :: rest => .cons (Json.Same.refl item) (Json.Same.reflAll rest)

theorem Json.Same.reflLookup (key : String) : (properties : List (String × Json)) →
    Option.Rel Json.Same (properties.lookup key) (properties.lookup key)
  | [] => .none
  | (name, value) :: rest => by
      rw [List.lookup_cons]
      split
      · exact .some (Json.Same.refl value)
      · exact Json.Same.reflLookup key rest

end

theorem Json.Same.boolean_eq {first second : Bool}
    (same : (Json.boolean first).Same (.boolean second)) : first = second := by
  cases same
  rfl

theorem Json.Same.string_eq {first second : String}
    (same : (Json.string first).Same (.string second)) : first = second := by
  cases same
  rfl

theorem Json.Same.items {items others : List Json}
    (same : (Json.array items).Same (.array others)) : List.Forall₂ Json.Same items others := by
  cases same with
  | array each => exact each

/-- Lists are compared item by item. -/
theorem Json.Same.forall₂ {First Second : Type} {alike : First → Second → Prop}
    {view : First → Json} {otherView : Second → Json} {firsts : List First} {seconds : List Second}
    (same : (Json.array (firsts.map view)).Same (.array (seconds.map otherView)))
    (each : ∀ first second, (view first).Same (otherView second) → alike first second) :
    List.Forall₂ alike firsts seconds := by
  have items := same.items
  rw [List.forall₂_map_left_iff, List.forall₂_map_right_iff] at items
  exact items.imp each

theorem Json.Same.property {properties others : List (String × Json)} {first second : Json}
    (same : (Json.object properties).Same (.object others)) (key : String)
    (found : properties.lookup key = some first) (otherFound : others.lookup key = some second) :
    first.Same second := by
  cases same with
  | object each =>
      have related := each key
      rw [found, otherFound] at related
      cases related with
      | some related => exact related

/-- Nodes are of the same kind. -/
theorem Json.Same.kind {kind other : String} {properties others : List (String × Json)}
    (same : (Json.node kind properties).Same (.node other others)) : kind = other :=
  (same.property "_kind" rfl rfl).string_eq

theorem Json.Same.comment_eq {first second : Option String}
    (same : (Json.comment first).Same (Json.comment second)) : first = second := by
  cases first <;> cases second <;> cases same
  · rfl
  · rfl

theorem Json.Same.written?_eq {first second : Double}
    (same : first.toJson.Same second.toJson) : first.written? = second.written? := by
  rw [Double.toJson, Double.toJson] at same
  cases written : first.written? <;> cases otherWritten : second.written? <;>
    rw [written, otherWritten] at same <;> cases same
  rfl

variable {Mark Other : Type}

theorem Json.Same.name_eq {kind : String} {first : Name Mark} {second : Name Other}
    (same : (first.toJson kind).Same (second.toJson kind)) : first.text = second.text :=
  (same.property "name" rfl rfl).string_eq

/-- Two types are alike if they are built in the same way from the same scalars, literals and names.
Their marks do not matter, and neither does a difference of numbers that are written alike. -/
inductive TypeExpr.Alike : TypeExpr Mark → TypeExpr Other → Prop where
  | scalar {mark : Mark} {other : Other} (kind : Scalar) :
      Alike (.scalar mark kind) (.scalar other kind)
  | string {mark : Mark} {other : Other} (value : String) :
      Alike (.string mark value) (.string other value)
  | number {mark : Mark} {other : Other} {first second : Double}
      (written : first.written? = second.written?) :
      Alike (.number mark first) (.number other second)
  | boolean {mark : Mark} {other : Other} (value : Bool) :
      Alike (.boolean mark value) (.boolean other value)
  | reference {first : Reference Mark} {second : Reference Other}
      (name : first.name.text = second.name.text)
      (live : first.asLiveObject = second.asLiveObject) :
      Alike (.reference first) (.reference second)
  | array {mark : Mark} {other : Other} {first : TypeExpr Mark} {second : TypeExpr Other}
      (item : Alike first second) : Alike (.array mark first) (.array other second)
  | liveList {mark : Mark} {other : Other} {first : TypeExpr Mark} {second : TypeExpr Other}
      (item : Alike first second) : Alike (.liveList mark first) (.liveList other second)
  | liveMap {mark : Mark} {other : Other} {firstKey firstValue : TypeExpr Mark}
      {secondKey secondValue : TypeExpr Other} (key : Alike firstKey secondKey)
      (value : Alike firstValue secondValue) :
      Alike (.liveMap mark firstKey firstValue) (.liveMap other secondKey secondValue)
  | union {mark : Mark} {other : Other} {members : List (TypeExpr Mark)}
      {others : List (TypeExpr Other)} (each : List.Forall₂ Alike members others) :
      Alike (.union mark members) (.union other others)

/-- Fields are alike if they differ at most in marks and in numbers that are written alike. -/
structure Field.Alike (first : Field Mark) (second : Field Other) : Prop where
  name : first.name.text = second.name.text
  isOptional : first.isOptional = second.isOptional
  type : first.type.Alike second.type
  leadingComment : first.leadingComment = second.leadingComment
  trailingComment : first.trailingComment = second.trailingComment

structure Definition.Alike (first : Definition Mark) (second : Definition Other) : Prop where
  name : first.name.text = second.name.text
  fields : List.Forall₂ Field.Alike first.fields second.fields
  leadingComment : first.leadingComment = second.leadingComment

/-- Documents are alike if their definitions are, in the same order. -/
def Document.Alike (first : Document Mark) (second : Document Other) : Prop :=
  List.Forall₂ Definition.Alike first.definitions second.definitions

/-- Classified definitions are alike if they are of the same class too. -/
structure ClassifiedDefinition.Alike (first : ClassifiedDefinition Mark)
    (second : ClassifiedDefinition Other) : Prop where
  definition : first.definition.Alike second.definition
  isStatic : first.isStatic = second.isStatic

structure Schema.Alike (first : Schema Mark) (second : Schema Other) : Prop where
  root : first.root.Alike second.root
  document : first.document.Alike second.document
  definitions : List.Forall₂ ClassifiedDefinition.Alike first.definitions second.definitions

/-- The kind of a type tells its scalar. -/
theorem TypeExpr.scalar?_eq_lookup (type : TypeExpr Mark) :
    type.scalar? =
      [("BooleanType", Scalar.boolean), ("NumberType", .number), ("StringType", .string),
        ("NullType", .null)].lookup type.kindName := by
  cases type with
  | scalar _ kind => cases kind <;> rfl
  | _ => rfl

theorem TypeExpr.exists_properties (type : TypeExpr Mark) :
    ∃ properties, type.toJson = .node type.kindName properties := by
  cases type <;> exact ⟨_, rfl⟩

theorem TypeExpr.kind_eq_of_same {first : TypeExpr Mark} {second : TypeExpr Other}
    (same : first.toJson.Same second.toJson) :
    first.kindName = second.kindName ∧ first.scalar? = second.scalar? := by
  obtain ⟨properties, node⟩ := first.exists_properties
  obtain ⟨others, otherNode⟩ := second.exists_properties
  rw [node, otherNode] at same
  rw [first.scalar?_eq_lookup, second.scalar?_eq_lookup, same.kind]
  exact ⟨rfl, rfl⟩

mutual

/-- The kind of a node tells how a type is built, and its properties tell from what. -/
theorem TypeExpr.alike_of_same : (first : TypeExpr Mark) → (second : TypeExpr Other) →
    first.toJson.Same second.toJson → first.Alike second
  | .scalar _ kind, second, same => by
      obtain ⟨kinds, scalars⟩ := TypeExpr.kind_eq_of_same same
      cases second with
      | scalar _ other =>
          obtain rfl : kind = other := Option.some.inj scalars
          exact .scalar kind
      | _ => simp [TypeExpr.kindName, TypeExpr.scalar?] at kinds scalars
  | .string _ value, second, same => by
      obtain ⟨kinds, scalars⟩ := TypeExpr.kind_eq_of_same same
      cases second with
      | string _ other =>
          obtain rfl : value = other := (same.property "value" rfl rfl).string_eq
          exact .string value
      | _ => simp [TypeExpr.kindName, TypeExpr.scalar?] at kinds scalars
  | .number _ value, second, same => by
      obtain ⟨kinds, scalars⟩ := TypeExpr.kind_eq_of_same same
      cases second with
      | number _ other => exact .number (same.property "value" rfl rfl).written?_eq
      | _ => simp [TypeExpr.kindName, TypeExpr.scalar?] at kinds scalars
  | .boolean _ value, second, same => by
      obtain ⟨kinds, scalars⟩ := TypeExpr.kind_eq_of_same same
      cases second with
      | boolean _ other =>
          obtain rfl : value = other := (same.property "value" rfl rfl).boolean_eq
          exact .boolean value
      | _ => simp [TypeExpr.kindName, TypeExpr.scalar?] at kinds scalars
  | .reference named, second, same => by
      obtain ⟨kinds, scalars⟩ := TypeExpr.kind_eq_of_same same
      cases second with
      | reference other =>
          exact .reference (same.property "ref" rfl rfl).name_eq
            (same.property "asLiveObject" rfl rfl).boolean_eq
      | _ => simp [TypeExpr.kindName, TypeExpr.scalar?] at kinds scalars
  | .array _ item, second, same => by
      obtain ⟨kinds, scalars⟩ := TypeExpr.kind_eq_of_same same
      cases second with
      | array _ other =>
          exact .array (TypeExpr.alike_of_same item other (same.property "ofType" rfl rfl))
      | _ => simp [TypeExpr.kindName, TypeExpr.scalar?] at kinds scalars
  | .liveList _ item, second, same => by
      obtain ⟨kinds, scalars⟩ := TypeExpr.kind_eq_of_same same
      cases second with
      | liveList _ other =>
          exact .liveList (TypeExpr.alike_of_same item other (same.property "ofType" rfl rfl))
      | _ => simp [TypeExpr.kindName, TypeExpr.scalar?] at kinds scalars
  | .liveMap _ key value, second, same => by
      obtain ⟨kinds, scalars⟩ := TypeExpr.kind_eq_of_same same
      cases second with
      | liveMap _ otherKey otherValue =>
          exact .liveMap
            (TypeExpr.alike_of_same key otherKey (same.property "keyType" rfl rfl))
            (TypeExpr.alike_of_same value otherValue (same.property "valueType" rfl rfl))
      | _ => simp [TypeExpr.kindName, TypeExpr.scalar?] at kinds scalars
  | .union _ members, second, same => by
      obtain ⟨kinds, scalars⟩ := TypeExpr.kind_eq_of_same same
      cases second with
      | union _ others =>
          exact .union (TypeExpr.alikeAll_of_same members others
            (same.property "members" rfl rfl).items)
      | _ => simp [TypeExpr.kindName, TypeExpr.scalar?] at kinds scalars

theorem TypeExpr.alikeAll_of_same : (members : List (TypeExpr Mark)) →
    (others : List (TypeExpr Other)) →
    List.Forall₂ Json.Same (TypeExpr.toJsonAll members) (TypeExpr.toJsonAll others) →
    List.Forall₂ TypeExpr.Alike members others
  | [], [], _ => .nil
  | member :: rest, other :: others, .cons same each =>
      .cons (TypeExpr.alike_of_same member other same)
        (TypeExpr.alikeAll_of_same rest others each)

end

mutual

/-- The JSON value of a type has nothing else in it. -/
theorem TypeExpr.toJson_eq_of_alike : (first : TypeExpr Mark) → (second : TypeExpr Other) →
    first.Alike second → first.toJson = second.toJson
  | _, _, .scalar kind => by cases kind <;> rfl
  | _, _, .string _ | _, _, .boolean _ => rfl
  | _, _, .number written => by
      simp only [TypeExpr.toJson, Double.toJson, written]
  | _, _, .reference name live => by
      simp only [TypeExpr.toJson, Name.toJson, name, live]
  | .array _ first, .array _ second, .array item
  | .liveList _ first, .liveList _ second, .liveList item => by
      simp only [TypeExpr.toJson, TypeExpr.toJson_eq_of_alike first second item]
  | .liveMap _ firstKey firstValue, .liveMap _ secondKey secondValue, .liveMap key value => by
      simp only [TypeExpr.toJson, TypeExpr.toJson_eq_of_alike firstKey secondKey key,
        TypeExpr.toJson_eq_of_alike firstValue secondValue value]
  | .union _ members, .union _ others, .union each => by
      simp only [TypeExpr.toJson, TypeExpr.toJsonAll_eq_of_alike members others each]

theorem TypeExpr.toJsonAll_eq_of_alike : (members : List (TypeExpr Mark)) →
    (others : List (TypeExpr Other)) → List.Forall₂ TypeExpr.Alike members others →
    TypeExpr.toJsonAll members = TypeExpr.toJsonAll others
  | [], [], .nil => rfl
  | member :: rest, other :: others, .cons alike each => by
      rw [TypeExpr.toJsonAll, TypeExpr.toJsonAll, TypeExpr.toJson_eq_of_alike member other alike,
        TypeExpr.toJsonAll_eq_of_alike rest others each]

end

theorem Field.alike_of_same {first : Field Mark} {second : Field Other}
    (same : first.toJson.Same second.toJson) : first.Alike second where
  name := (same.property "name" rfl rfl).name_eq
  isOptional := (same.property "optional" rfl rfl).boolean_eq
  type := TypeExpr.alike_of_same _ _ (same.property "type" rfl rfl)
  leadingComment := (same.property "leadingComment" rfl rfl).comment_eq
  trailingComment := (same.property "trailingComment" rfl rfl).comment_eq

theorem Field.toJson_eq_of_alike {first : Field Mark} {second : Field Other}
    (alike : first.Alike second) : first.toJson = second.toJson := by
  simp only [Field.toJson, Name.toJson, alike.name, alike.isOptional, alike.leadingComment,
    alike.trailingComment, TypeExpr.toJson_eq_of_alike _ _ alike.type]

theorem Definition.alike_of_same {first : Definition Mark} {second : Definition Other}
    (same : first.toJson.Same second.toJson) : first.Alike second where
  name := (same.property "name" rfl rfl).name_eq
  fields := (same.property "fields" rfl rfl).forall₂ fun _ _ => Field.alike_of_same
  leadingComment := (same.property "leadingComment" rfl rfl).comment_eq

/-- What is alike in each place is mapped to the same list. -/
theorem map_eq_of_forall₂ {First Second Value : Type} {alike : First → Second → Prop}
    {view : First → Value} {otherView : Second → Value}
    {firsts : List First} {seconds : List Second} (each : List.Forall₂ alike firsts seconds)
    (views : ∀ first second, alike first second → view first = otherView second) :
    firsts.map view = seconds.map otherView := by
  rw [← List.forall₂_eq_eq_eq, List.forall₂_map_left_iff, List.forall₂_map_right_iff]
  exact each.imp views

theorem Definition.toJson_eq_of_alike {first : Definition Mark} {second : Definition Other}
    (alike : first.Alike second) : first.toJson = second.toJson := by
  simp only [Definition.toJson, Name.toJson, alike.name, alike.leadingComment,
    map_eq_of_forall₂ alike.fields fun _ _ => Field.toJson_eq_of_alike]

theorem Document.alike_of_same {first : Document Mark} {second : Document Other}
    (same : first.toJson.Same second.toJson) : first.Alike second :=
  (same.property "definitions" rfl rfl).forall₂ fun _ _ => Definition.alike_of_same

theorem Document.toJson_eq_of_alike {first : Document Mark} {second : Document Other}
    (alike : first.Alike second) : first.toJson = second.toJson := by
  rw [Document.toJson, Document.toJson,
    map_eq_of_forall₂ alike fun _ _ => Definition.toJson_eq_of_alike]

theorem ClassifiedDefinition.alike_of_same {first : ClassifiedDefinition Mark}
    {second : ClassifiedDefinition Other} (same : first.toJson.Same second.toJson) :
    first.Alike second where
  definition := {
    name := (same.property "name" rfl rfl).name_eq
    fields := (same.property "fields" rfl rfl).forall₂ fun _ _ => Field.alike_of_same
    leadingComment := (same.property "leadingComment" rfl rfl).comment_eq }
  isStatic := (same.property "isStatic" rfl rfl).boolean_eq

theorem ClassifiedDefinition.toJson_eq_of_alike {first : ClassifiedDefinition Mark}
    {second : ClassifiedDefinition Other} (alike : first.Alike second) :
    first.toJson = second.toJson := by
  simp only [ClassifiedDefinition.toJson, Name.toJson, alike.definition.name, alike.isStatic,
    alike.definition.leadingComment,
    map_eq_of_forall₂ alike.definition.fields fun _ _ => Field.toJson_eq_of_alike]

theorem Schema.alike_of_same {first : Schema Mark} {second : Schema Other}
    (same : first.toJson.Same second.toJson) : first.Alike second where
  root := ClassifiedDefinition.alike_of_same (same.property "root" rfl rfl)
  document := Document.alike_of_same (same.property "ast" rfl rfl)
  definitions :=
    (same.property "definitions" rfl rfl).forall₂ fun _ _ => ClassifiedDefinition.alike_of_same

theorem Schema.toJson_eq_of_alike {first : Schema Mark} {second : Schema Other}
    (alike : first.Alike second) : first.toJson = second.toJson := by
  rw [Schema.toJson, Schema.toJson, ClassifiedDefinition.toJson_eq_of_alike alike.root,
    Document.toJson_eq_of_alike alike.document,
    map_eq_of_forall₂ alike.definitions fun _ _ => ClassifiedDefinition.toJson_eq_of_alike]

/-- The JSON value of a document determines it up to marks and to numbers that are written alike,
in whatever order the properties come, and that of a schema determines its classes too. Nothing
else has a part in it. -/
theorem Document.toJson_determines :
    (∀ (first : Document Mark) (second : Document Other),
      List.TFAE [first.toJson = second.toJson, first.toJson.Same second.toJson,
        first.Alike second]) ∧
    ∀ (first : Schema Mark) (second : Schema Other),
      List.TFAE [first.toJson = second.toJson, first.toJson.Same second.toJson,
        first.Alike second] := by
  constructor
  · intro first second
    tfae_have 1 → 2 := fun equal => equal ▸ Json.Same.refl first.toJson
    tfae_have 2 → 3 := Document.alike_of_same
    tfae_have 3 → 1 := Document.toJson_eq_of_alike
    tfae_finish
  · intro first second
    tfae_have 1 → 2 := fun equal => equal ▸ Json.Same.refl first.toJson
    tfae_have 2 → 3 := Schema.alike_of_same
    tfae_have 3 → 1 := Schema.toJson_eq_of_alike
    tfae_finish

end StorageSchema
