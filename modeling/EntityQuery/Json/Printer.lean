import EntityQuery.Json.Basic
import EntityQuery.Text.Hex

/-!
# Writing JSON texts

A value is written on one line without blanks, or over several lines with two blanks a level. In a
string only the quotation mark, the backslash and the control characters are escaped.
-/

namespace EntityQuery.Json

/-- A character inside a string. -/
def escapeChar (c : Char) : List Char :=
  if c = '"' then ['\\', '"']
  else if c = '\\' then ['\\', '\\']
  else if c = '\x08' then ['\\', 'b']
  else if c = '\x0c' then ['\\', 'f']
  else if c = '\n' then ['\\', 'n']
  else if c = '\r' then ['\\', 'r']
  else if c = '\t' then ['\\', 't']
  else if c.toNat < 0x20 then
    ['\\', 'u', '0', '0', Text.hexDigit (c.toNat / 16), Text.hexDigit (c.toNat % 16)]
  else [c]

/-- A string with its quotation marks. -/
def stringText (s : String) : String :=
  String.ofList ('"' :: (s.toList.flatMap escapeChar ++ ['"']))

/-- A number. -/
def numberText : JsonNumber → String
  | .natural n => n.repr
  | .other text => text

mutual

/-- The text of a value on one line. -/
def compact : Json → String
  | .null => "null"
  | .bool value => if value then "true" else "false"
  | .number value => numberText value
  | .string value => stringText value
  | .array items => "[" ++ String.intercalate "," (compactItems items) ++ "]"
  | .object members => "\x7b" ++ String.intercalate "," (compactMembers members) ++ "\x7d"
  | .verbatim text => text

/-- The texts of the items of an array. -/
def compactItems : List Json → List String
  | [] => []
  | v :: vs => compact v :: compactItems vs

/-- The texts of the members of an object. -/
def compactMembers : List (String × Json) → List String
  | [] => []
  | (name, v) :: ms => (stringText name ++ ":" ++ compact v) :: compactMembers ms

end

/-- The start of a line at a level. -/
def newLine (level : Nat) : String := "\n" ++ String.ofList (List.replicate (2 * level) ' ')

/-- The parts of an array or object, each on a line of its own, between brackets. -/
def block (level : Nat) (opening closing : String) (parts : List String) : String :=
  if parts.isEmpty then opening ++ closing
  else opening ++ newLine (level + 1) ++ String.intercalate ("," ++ newLine (level + 1)) parts ++
    newLine level ++ closing

mutual

/-- The text of a value at a level over several lines. -/
def prettyAt (level : Nat) : Json → String
  | .null => "null"
  | .bool value => if value then "true" else "false"
  | .number value => numberText value
  | .string value => stringText value
  | .array items => block level "[" "]" (prettyItems (level + 1) items)
  | .object members => block level "\x7b" "\x7d" (prettyMembers (level + 1) members)
  | .verbatim text => text

/-- The texts of the items of an array at a level. -/
def prettyItems (level : Nat) : List Json → List String
  | [] => []
  | v :: vs => prettyAt level v :: prettyItems level vs

/-- The texts of the members of an object at a level. -/
def prettyMembers (level : Nat) : List (String × Json) → List String
  | [] => []
  | (name, v) :: ms => (stringText name ++ ": " ++ prettyAt level v) :: prettyMembers level ms

end

/-- The text of a value over several lines. -/
def pretty (v : Json) : String := prettyAt 0 v

end EntityQuery.Json
