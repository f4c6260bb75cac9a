import MixinLink.Json.Basic
import MixinLink.Text.Shown

/-!
# Writing JSON text

Strings have escapes for the quote, the backslash and control characters below U+0020 only. The pretty
form puts every item and every member on a line of its own, indented by two blanks for each array and
object around it.

Main exports: `Json.compact`, `Json.pretty`.
-/

namespace MixinLink.Json

/-- A character inside of a JSON string. -/
def stringChar (c : Char) : List Char :=
  if c = '"' then ['\\', '"']
  else if c = '\\' then ['\\', '\\']
  else if c = '\n' then ['\\', 'n']
  else if c = '\r' then ['\\', 'r']
  else if c = '\t' then ['\\', 't']
  else if c = '\x08' then ['\\', 'b']
  else if c = '\x0c' then ['\\', 'f']
  else if c.toNat < 0x10 then "\\u000".toList ++ Text.hexDigits c.toNat
  else if c.toNat < 0x20 then "\\u00".toList ++ Text.hexDigits c.toNat
  else [c]

/-- A string between quotes. -/
def stringText (value : String) : String :=
  String.ofList ('"' :: (value.toList.flatMap stringChar ++ ['"']))

/-- The text of a value that holds no other values. -/
def leafText : Json → String
  | boolean value => if value then "true" else "false"
  | integer negative magnitude => (if negative then "-" else "") ++ toString magnitude
  | string value => stringText value
  | _ => "null"

mutual

/-- A value without blanks. -/
def compact : Json → String
  | array items => "[" ++ ",".intercalate (compactAll items) ++ "]"
  | object members => "\x7b" ++ ",".intercalate (compactMembers members) ++ "\x7d"
  | null => leafText null
  | boolean value => leafText (boolean value)
  | integer negative magnitude => leafText (integer negative magnitude)
  | fraction => leafText fraction
  | string value => leafText (string value)
  | unusable => leafText unusable

/-- Several values without blanks. -/
def compactAll : List Json → List String
  | [] => []
  | item :: rest => item.compact :: compactAll rest

/-- Several members without blanks. -/
def compactMembers : List (String × Json) → List String
  | [] => []
  | (key, value) :: rest => (stringText key ++ ":" ++ value.compact) :: compactMembers rest

end

/-- A line break and the blanks at the start of a line. -/
def lineStart (level : Nat) : String :=
  String.ofList ('\n' :: List.replicate (2 * level) ' ')

/-- Lines between an opening and a closing mark, nothing between them if there are none. -/
def block (opening closing : String) (level : Nat) (lines : List String) : String :=
  if lines.isEmpty then opening ++ closing
  else
    opening ++ lineStart (level + 1) ++ ("," ++ lineStart (level + 1)).intercalate lines
      ++ lineStart level ++ closing

mutual

/-- A value at some level of indentation. -/
def prettyAt (level : Nat) : Json → String
  | array items => block "[" "]" level (prettyAll (level + 1) items)
  | object members => block "\x7b" "\x7d" level (prettyMembers (level + 1) members)
  | null => leafText null
  | boolean value => leafText (boolean value)
  | integer negative magnitude => leafText (integer negative magnitude)
  | fraction => leafText fraction
  | string value => leafText (string value)
  | unusable => leafText unusable

/-- Several values at some level of indentation. -/
def prettyAll (level : Nat) : List Json → List String
  | [] => []
  | item :: rest => item.prettyAt level :: prettyAll level rest

/-- Several members at some level of indentation. -/
def prettyMembers (level : Nat) : List (String × Json) → List String
  | [] => []
  | (key, value) :: rest =>
    (stringText key ++ ": " ++ value.prettyAt level) :: prettyMembers level rest

end

/-- A value on lines of its own. -/
def pretty (json : Json) : String :=
  json.prettyAt 0

end MixinLink.Json
