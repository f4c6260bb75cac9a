import MixinLink.Text.Invisible

/-!
# Shown text

How messages show a piece of text: between quotes, with the quote and the backslash escaped and every
character that would not be seen written by its code. A shown text stands on one line and can be read
back without doubt.

Main exports: `Text.shown`, `Text.shownChar`, `Text.shownList`.
-/

namespace MixinLink.Text

/-- The control characters: U+0000 to U+001F and U+007F to U+009F. -/
def isControl (c : Char) : Bool :=
  c.toNat < 0x20 || (0x7F ≤ c.toNat && c.toNat < 0xA0)

/-- A number in lowercase hexadecimal digits, without leading zeros. -/
def hexDigits (n : Nat) : List Char :=
  Nat.toDigits 16 n

/-- A character inside shown text that stands between the given quotes. -/
def shownInside (quote c : Char) : List Char :=
  if c = '\x00' then ['\\', '0']
  else if c = '\t' then ['\\', 't']
  else if c = '\r' then ['\\', 'r']
  else if c = '\n' then ['\\', 'n']
  else if c = '\\' ∨ c = quote then ['\\', c]
  else if isControl c || isInvisible c then
    ['\\', 'u', '\x7b'] ++ hexDigits c.toNat ++ ['\x7d']
  else [c]

/-- A text between double quotes. -/
def shown (text : String) : String :=
  String.ofList ('"' :: (text.toList.flatMap (shownInside '"') ++ ['"']))

/-- The single quote. -/
def singleQuote : Char := '\x27'

/-- A character between single quotes. -/
def shownChar (c : Char) : String :=
  String.ofList (singleQuote :: (shownInside singleQuote c ++ [singleQuote]))

/-- Items between square brackets, with commas between them. -/
def bracketed (items : List String) : String :=
  "[" ++ ", ".intercalate items ++ "]"

/-- A list of texts, each of them shown. -/
def shownList (texts : List String) : String :=
  bracketed (texts.map shown)

end MixinLink.Text
