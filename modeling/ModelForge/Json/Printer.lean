/-
Writing JSON documents.

* `Json.compact` writes a value on one line without blanks;
* `Json.pretty` writes each item and member on a line of its own, two columns deeper than
  the value that holds it; an empty array or object stays on one line.

In a string the quote, the backslash and the control characters are escaped.
-/
import ModelForge.Json

namespace ModelForge.Json

/-- A hexadecimal digit. -/
def hexDigit (n : Nat) : Char :=
  if n < 10 then Char.ofNat (48 + n) else Char.ofNat (87 + n)

/-- How a character is written in a string. -/
def escapeChar (c : Char) : List Char :=
  if c = '"' then ['\\', '"']
  else if c = '\\' then ['\\', '\\']
  else if c = '\n' then ['\\', 'n']
  else if c = '\r' then ['\\', 'r']
  else if c = '\t' then ['\\', 't']
  else if c.toNat = 8 then ['\\', 'b']
  else if c.toNat = 12 then ['\\', 'f']
  else if c.toNat < 0x20 then
    ['\\', 'u', '0', '0', hexDigit (c.toNat / 16), hexDigit (c.toNat % 16)]
  else [c]

/-- A string in quotes. -/
def quoted (text : String) : String :=
  String.ofList ('"' :: text.toList.flatMap escapeChar ++ ['"'])

mutual

/-- The value on one line. -/
def compact : Json → String
  | null | fraction | unreadable => "null"
  | bool b => if b then "true" else "false"
  | integer n => toString n
  | string s => quoted s
  | array items => "[" ++ compactItems "" items ++ "]"
  | object members => "\x7b" ++ compactMembers "" members ++ "\x7d"

/-- The items on one line, each after the separator. -/
def compactItems (separator : String) : List Json → String
  | [] => ""
  | item :: items => separator ++ compact item ++ compactItems "," items

/-- The members on one line, each after the separator. -/
def compactMembers (separator : String) : List (String × Json) → String
  | [] => ""
  | (name, value) :: members =>
    separator ++ quoted name ++ ":" ++ compact value ++ compactMembers "," members

end

/-- A new line at a depth. -/
def lineAt (depth : Nat) : String :=
  "\n" ++ String.ofList (List.replicate (2 * depth) ' ')

mutual

/-- The value on several lines, its own first line at the given depth. -/
def prettyAt (depth : Nat) : Json → String
  | null | fraction | unreadable => "null"
  | bool b => if b then "true" else "false"
  | integer n => toString n
  | string s => quoted s
  | array [] => "[]"
  | array (item :: items) =>
    "[" ++ lineAt (depth + 1) ++ prettyAt (depth + 1) item ++ prettyItems (depth + 1) items ++
      lineAt depth ++ "]"
  | object [] => "\x7b\x7d"
  | object ((name, value) :: members) =>
    "\x7b" ++ lineAt (depth + 1) ++ quoted name ++ ": " ++ prettyAt (depth + 1) value ++
      prettyMembers (depth + 1) members ++ lineAt depth ++ "\x7d"

/-- The further items of an array. -/
def prettyItems (depth : Nat) : List Json → String
  | [] => ""
  | item :: items => "," ++ lineAt depth ++ prettyAt depth item ++ prettyItems depth items

/-- The further members of an object. -/
def prettyMembers (depth : Nat) : List (String × Json) → String
  | [] => ""
  | (name, value) :: members =>
    "," ++ lineAt depth ++ quoted name ++ ": " ++ prettyAt depth value ++
      prettyMembers depth members

end

/-- The value on several lines. -/
def pretty (value : Json) : String :=
  prettyAt 0 value

end ModelForge.Json
