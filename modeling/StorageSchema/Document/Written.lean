/-
This file writes documents as texts, with one field on each line and its comments around it.
-/
import StorageSchema.Document
import StorageSchema.Text.Quoted
import StorageSchema.Word

namespace StorageSchema

variable {Mark : Type}

/-- A wrapper is written with what it holds between angles after its keyword. -/
def Wrapper.written (wrapper : Wrapper) (inside : List Char) : List Char :=
  wrapper.keyword.toList ++ ['<'] ++ inside ++ ['>']

def Reference.written (named : Reference Mark) : List Char :=
  if named.asLiveObject then Wrapper.liveObject.written named.name.text.toList
  else named.name.text.toList

def writtenBoolean (value : Bool) : List Char := (if value then "true" else "false").toList

mutual

/-- The written form of a type spells numbers as it is told. -/
def TypeExpr.written (spell : Double → List Char) : TypeExpr Mark → List Char
  | .scalar _ kind => kind.keyword.toList
  | .string _ value => Text.Quoted.encode '\x22' value.toList
  | .number _ value => spell value
  | .boolean _ value => writtenBoolean value
  | .reference named => named.written
  | .array _ item => item.written spell ++ ['[', ']']
  | .liveList _ item => Wrapper.liveList.written (item.written spell)
  | .liveMap _ key value =>
      Wrapper.liveMap.written (key.written spell ++ [',', ' '] ++ value.written spell)
  | .union _ members => [' ', '|', ' '].intercalate (TypeExpr.writtenAll spell members)

def TypeExpr.writtenAll (spell : Double → List Char) : List (TypeExpr Mark) → List (List Char)
  | [] => []
  | member :: rest => member.written spell :: TypeExpr.writtenAll spell rest

end

/-- A comment above something is written with a marker before each of its lines. -/
def writtenAbove (indent : List Char) (comment : Option String) : List Char :=
  match comment with
  | none => []
  | some text =>
      (text.toList.splitOn '\n').flatMap fun line => indent ++ ['#', ' '] ++ line ++ ['\n']

/-- A comment beside something ends its line. -/
def writtenBeside (comment : Option String) : List Char :=
  match comment with
  | none => []
  | some text => [' ', '#', ' '] ++ text.toList

/-- A field has its line for itself, under those of its comment. -/
def Field.written (spell : Double → List Char) (field : Field Mark) : List Char :=
  writtenAbove [' ', ' '] field.leadingComment ++ [' ', ' '] ++ field.name.text.toList ++
    (if field.isOptional then ['?'] else []) ++ [':', ' '] ++ field.type.written spell ++ [','] ++
    writtenBeside field.trailingComment ++ ['\n']

def Definition.written (spell : Double → List Char) (definition : Definition Mark) : List Char :=
  writtenAbove [] definition.leadingComment ++ "type".toList ++ [' '] ++
    definition.name.text.toList ++ [' ', '\x7b', '\n'] ++
    definition.fields.flatMap (Field.written spell) ++ ['\x7d', '\n']

/-- A document is written with blank lines between its definitions. -/
def Document.written (spell : Double → List Char) (document : Document Mark) : List Char :=
  ['\n'].intercalate (document.definitions.map (Definition.written spell))

end StorageSchema
