/-
This file says what a word means where a type expression begins.
-/
import StorageSchema.Scalar

namespace StorageSchema

/-- A wrapper makes what it holds live. -/
inductive Wrapper where
  | liveObject
  | liveList
  | liveMap
  deriving DecidableEq, Repr

/-- A wrapper is written by its keyword. -/
def Wrapper.keyword : Wrapper → String
  | .liveObject => "LiveObject"
  | .liveList => "LiveList"
  | .liveMap => "LiveMap"

/-- A keyword of a wrapper is recognised in its exact case only. -/
def Wrapper.ofKeyword? : String → Option Wrapper
  | "LiveObject" => some .liveObject
  | "LiveList" => some .liveList
  | "LiveMap" => some .liveMap
  | _ => none

/-- A word is a literal, a keyword, or else a name. -/
inductive Word where
  | boolean (value : Bool)
  | wrapper (wrapper : Wrapper)
  | scalar (scalar : Scalar)
  | legacyScalar (scalar : Scalar)
  | name
  deriving DecidableEq, Repr

/-- A legacy spelling of a scalar is one that is not its keyword. -/
def Word.ofText (text : String) : Word :=
  if text = "true" then .boolean true
  else if text = "false" then .boolean false
  else
    match Wrapper.ofKeyword? text with
    | some kind => .wrapper kind
    | none =>
        match Scalar.ofKeyword? text with
        | some kind => .scalar kind
        | none =>
            match Scalar.ofLegacyKeyword? text with
            | some kind => .legacyScalar kind
            | none => .name

end StorageSchema
