/-
This file holds JSON values and writes them over several lines.
-/

namespace StorageSchema

/-- A JSON value keeps the order of its properties, and a number is kept as it is written. -/
inductive Json where
  | null
  | boolean (value : Bool)
  | number (text : String)
  | string (value : String)
  | array (items : List Json)
  | object (properties : List (String × Json))

/-- A hexadecimal digit is written in lower case. -/
def Json.hexDigit (value : Nat) : Char := Nat.digitChar value

/-- Quotes, backslashes and control characters are escaped in a string. -/
def Json.escape (letter : Char) : List Char :=
  if letter = '\x22' then ['\\', '\x22']
  else if letter = '\\' then ['\\', '\\']
  else if letter = '\x08' then ['\\', 'b']
  else if letter = '\t' then ['\\', 't']
  else if letter = '\n' then ['\\', 'n']
  else if letter = '\x0c' then ['\\', 'f']
  else if letter = '\r' then ['\\', 'r']
  else if letter.toNat < 32 then
    ['\\', 'u', '0', '0', hexDigit (letter.toNat / 16), hexDigit (letter.toNat % 16)]
  else [letter]

/-- A string is written between quotes. -/
def Json.quote (text : String) : String :=
  String.ofList ('\x22' :: (text.toList.flatMap escape ++ ['\x22']))

/-- Each level is indented by two spaces. -/
def Json.indentation (level : Nat) : String :=
  String.ofList ('\n' :: List.replicate (2 * level) ' ')

/-- The parts of an array or object stand on lines of their own, unless there are none. -/
def Json.enclose (level : Nat) (opening closing : String) : List String → String
  | [] => String.join [opening, closing]
  | parts =>
      String.join [opening, indentation (level + 1),
        (String.join [",", indentation (level + 1)]).intercalate parts, indentation level, closing]

mutual

/-- This function writes a value whose first line stands at the level. -/
def Json.pretty (level : Nat) : Json → String
  | .null => "null"
  | .boolean value => if value then "true" else "false"
  | .number text => text
  | .string value => Json.quote value
  | .array items => Json.enclose level "[" "]" (Json.prettyItems (level + 1) items)
  | .object properties =>
      Json.enclose level "\x7b" "\x7d" (Json.prettyProperties (level + 1) properties)

def Json.prettyItems (level : Nat) : List Json → List String
  | [] => []
  | item :: rest => item.pretty level :: Json.prettyItems level rest

def Json.prettyProperties (level : Nat) : List (String × Json) → List String
  | [] => []
  | (key, value) :: rest =>
      String.join [Json.quote key, ": ", value.pretty level] :: Json.prettyProperties level rest

end

end StorageSchema
