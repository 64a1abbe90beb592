/-
This file finds the references of a document and tells which of them are live.
-/
import StorageSchema.Document

namespace StorageSchema

/-- A usage is a reference at its place in a type. -/
structure Usage (Mark : Type) where
  reference : Reference Mark
  isLive : Bool
  deriving DecidableEq

variable {Mark : Type}

mutual

/-- A reference is live if it names a live object or stands anywhere below a live list or a live
map, and all else passes on what stands around it. -/
def TypeExpr.usages (belowLive : Bool) : TypeExpr Mark → List (Usage Mark)
  | .reference named => [⟨named, belowLive || named.asLiveObject⟩]
  | .array _ item => item.usages belowLive
  | .liveList _ item => item.usages true
  | .liveMap _ key value => key.usages true ++ value.usages true
  | .union _ members => TypeExpr.usagesAll belowLive members
  | _ => []

def TypeExpr.usagesAll (belowLive : Bool) : List (TypeExpr Mark) → List (Usage Mark)
  | [] => []
  | member :: rest => member.usages belowLive ++ TypeExpr.usagesAll belowLive rest

end

/-- A usage leads to the definition with this name. -/
def Usage.target (usage : Usage Mark) : String := usage.reference.name.text

/-- The usages in a definition are those in its fields. -/
def Definition.usages (definition : Definition Mark) : List (Usage Mark) :=
  definition.fields.flatMap fun field => field.type.usages false

/-- The references of a document come in the order of the text. -/
def Document.references (document : Document Mark) : List (Reference Mark) :=
  (document.definitions.flatMap Definition.usages).map Usage.reference

/-- A name stands for the first definition that has it. -/
def Document.find? (document : Document Mark) (name : String) : Option (Definition Mark) :=
  document.definitions.find? fun definition => definition.name.text = name

/-- A name is declared if a definition has it. -/
def Document.declares (document : Document Mark) (name : String) : Bool :=
  (document.find? name).isSome

end StorageSchema
