/-!
# JSON tokens

JSON text is divided into brackets, commas and colons, string literals, and words: runs of the other
characters that stand for numbers and constants. Blanks between tokens are dropped.

The scanner reads one character at a time; its state says what the characters so far have begun.

Main exports: `Json.Token`, `Json.scan`.
-/

namespace MixinLink.Json

/-- A piece of a string literal: a character, or a code unit given by an escape. -/
inductive Piece where
  | char (c : Char)
  | unit (code : Nat)

/-- The text of pieces, `none` if a code unit is half of a surrogate pair without the other half. -/
def assemble : List Piece → Option (List Char)
  | [] => some []
  | .char c :: rest => (assemble rest).map (c :: ·)
  | .unit high :: .unit low :: rest =>
    if 0xD800 ≤ high ∧ high < 0xDC00 then
      if 0xDC00 ≤ low ∧ low < 0xE000 then
        (assemble rest).map (Char.ofNat (0x10000 + (high - 0xD800) * 0x400 + (low - 0xDC00)) :: ·)
      else
        none
    else if 0xDC00 ≤ high ∧ high < 0xE000 then none
    else (assemble (.unit low :: rest)).map (Char.ofNat high :: ·)
  | .unit code :: rest =>
    if 0xD800 ≤ code ∧ code < 0xE000 then none
    else (assemble rest).map (Char.ofNat code :: ·)

/-- A token of JSON text. -/
inductive Token where
  /-- One of `[ ] { } , :`. -/
  | mark (c : Char)
  /-- A string literal, `none` if its escapes do not form characters. -/
  | string (value : Option String)
  /-- A run of other characters. -/
  | word (chars : List Char)

/-- What the characters before have begun; pieces and characters come last first. -/
inductive Scan where
  | between
  | word (chars : List Char)
  | string (pieces : List Piece)
  | escape (pieces : List Piece)
  | code (pieces : List Piece) (value digits : Nat)

/-- The value of a hexadecimal digit. -/
def hexValue? (c : Char) : Option Nat :=
  if '0' ≤ c ∧ c ≤ '9' then some (c.toNat - '0'.toNat)
  else if 'a' ≤ c ∧ c ≤ 'f' then some (c.toNat - 'a'.toNat + 10)
  else if 'A' ≤ c ∧ c ≤ 'F' then some (c.toNat - 'A'.toNat + 10)
  else none

/-- The character that a letter stands for after a backslash. -/
def escaped? : Char → Option Char
  | '"' => some '"'
  | '\\' => some '\\'
  | '/' => some '/'
  | 'b' => some '\x08'
  | 'f' => some '\x0c'
  | 'n' => some '\n'
  | 'r' => some '\r'
  | 't' => some '\t'
  | _ => none

/-- A character between tokens. -/
def isBlank (c : Char) : Bool :=
  c = ' ' || c = '\t' || c = '\n' || c = '\r'

/-- A character that is a token of its own. -/
def isMark (c : Char) : Bool :=
  c = '[' || c = ']' || c = '\x7b' || c = '\x7d' || c = ',' || c = ':'

/-- A character outside of string literals: the token that it completes, and the state after it. -/
def scanOutside (c : Char) : List Token × Scan :=
  if isBlank c then ([], .between)
  else if isMark c then ([.mark c], .between)
  else if c = '"' then ([], .string [])
  else ([], .word [c])

/-- A character that ends a word. -/
def endsWord (c : Char) : Bool :=
  isBlank c || isMark c || c = '"'

/-- Reads one character: the tokens that it completes, and the state after it. -/
def scanStep (state : Scan) (c : Char) : Option (List Token × Scan) :=
  match state with
  | .between => some (scanOutside c)
  | .word chars =>
    if endsWord c then
      some (.word chars.reverse :: (scanOutside c).1, (scanOutside c).2)
    else
      some ([], .word (c :: chars))
  | .string pieces =>
    if c = '"' then some ([.string ((assemble pieces.reverse).map String.ofList)], .between)
    else if c = '\\' then some ([], .escape pieces)
    else if c.toNat < 0x20 then none
    else some ([], .string (.char c :: pieces))
  | .escape pieces =>
    if c = 'u' then some ([], .code pieces 0 0)
    else (escaped? c).map fun plain => ([], .string (.char plain :: pieces))
  | .code pieces value digits =>
    (hexValue? c).map fun digit =>
      if digits = 3 then ([], .string (.unit (value * 16 + digit) :: pieces))
      else ([], .code pieces (value * 16 + digit) (digits + 1))

/-- Divides text into tokens, `none` if a string literal is malformed or does not end. -/
def scan (state : Scan) : List Char → Option (List Token)
  | [] =>
    match state with
    | .between => some []
    | .word chars => some [.word chars.reverse]
    | _ => none
  | c :: rest =>
    match scanStep state c with
    | none => none
    | some (tokens, state) => (scan state rest).map (tokens ++ ·)

end MixinLink.Json
