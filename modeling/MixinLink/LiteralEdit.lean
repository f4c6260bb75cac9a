import MixinLink.Annotation

/-!
# Edits of string literals

An edit replaces a whole string literal by one with another value. There is no edit that leaves the
value as it is. `javaLiteral` writes a value as a string literal of Java source code.

Main exports: `LiteralEdit`, `LiteralEdit.plan?`, `javaLiteral`.
-/

namespace MixinLink

/-- Replaces the string literal at a place. -/
structure LiteralEdit where
  span : Span
  /-- The value of the literal that is replaced. -/
  before : String
  /-- The value of the literal that takes its place. -/
  after : String
deriving Repr, DecidableEq

/-- A number below 65536 with four hexadecimal digits. -/
def fourHexDigits (n : Nat) : List Char :=
  let digits := Text.hexDigits n
  List.replicate (4 - digits.length) '0' ++ digits

/-- A character inside of a Java string literal. -/
def javaChar (c : Char) : List Char :=
  if c = '"' then ['\\', '"']
  else if c = '\\' then ['\\', '\\']
  else if c = '\n' then ['\\', 'n']
  else if c = '\r' then ['\\', 'r']
  else if c = '\t' then ['\\', 't']
  else if c = '\x08' then ['\\', 'b']
  else if c = '\x0c' then ['\\', 'f']
  else if Text.isControl c then '\\' :: 'u' :: fourHexDigits c.toNat
  else [c]

/-- A string literal of Java source code. -/
def javaLiteral (value : String) : String :=
  String.ofList ('"' :: (value.toList.flatMap javaChar ++ ['"']))

namespace LiteralEdit

/-- The edit that gives a literal another value, `none` if it has that value already. -/
def plan? (literal : StringLiteral) (after : String) : Option LiteralEdit :=
  if literal.value = after then none else some ⟨literal.span, literal.value, after⟩

/-- The new literal as Java source code. -/
def source (edit : LiteralEdit) : String :=
  javaLiteral edit.after

end LiteralEdit

end MixinLink
