/-
This file holds the built-in scalar types and their keywords.
-/

namespace StorageSchema

/-- A scalar is a built-in type without parts. -/
inductive Scalar where
  | boolean
  | number
  | string
  | null
  deriving DecidableEq, Repr

/-- A scalar is written by its keyword. -/
def Scalar.keyword : Scalar → String
  | .boolean => "boolean"
  | .number => "number"
  | .string => "string"
  | .null => "null"

/-- A keyword is recognised in lower case only. -/
def Scalar.ofKeyword? : String → Option Scalar
  | "boolean" => some .boolean
  | "number" => some .number
  | "string" => some .string
  | "null" => some .null
  | _ => none

/-- This function puts the ASCII letters of a text in lower case. -/
def lowercase (text : String) : String := String.ofList (text.toList.map Char.toLower)

/-- A legacy keyword is recognised in any case, and two of them mean numbers of one kind. -/
def Scalar.ofLegacyKeyword? (text : String) : Option Scalar :=
  match lowercase text with
  | "boolean" => some .boolean
  | "int" => some .number
  | "float" => some .number
  | "number" => some .number
  | "string" => some .string
  | "null" => some .null
  | _ => none

/-- No definition may have one of these names, in any case. -/
def reservedNames : List String := ["boolean", "float", "int", "null", "number", "string"]

theorem Scalar.ofKeyword?_keyword (scalar : Scalar) :
    ofKeyword? scalar.keyword = some scalar := by
  cases scalar <;> rfl

theorem Scalar.ofLegacyKeyword?_keyword (scalar : Scalar) :
    ofLegacyKeyword? scalar.keyword = some scalar := by
  cases scalar <;> decide

end StorageSchema
