/-!
# JSON numbers

A numeral is the text of a number, taken apart into digits. Numbers are exact, but a number whose
magnitude goes past the largest double-precision number cannot be used. Where that border lies is
found by the usual quick estimate: as many leading digits as fit into 64 bits are taken as an integer,
the others only count for the power of ten, and the product of the two is rounded.

Main exports: `Json.Numeral`, `Json.Numeral.parse?`, `Json.Numeral.isFinite`.
-/

namespace MixinLink.Json

/-- A number as it is written, digits in order. -/
structure Numeral where
  negative : Bool
  whole : List Nat
  /-- The digits after the point, none if there is no point. -/
  decimals : List Nat
  exponent : Option Int
deriving Repr, DecidableEq

/-- A decimal digit. -/
def isDigit (c : Char) : Bool :=
  '0' ≤ c && c ≤ '9'

/-- The values of the decimal digits at the front of a text, and what follows them. -/
def takeDigits (text : List Char) : List Nat × List Char :=
  ((text.takeWhile isDigit).map fun c => c.toNat - '0'.toNat, text.dropWhile isDigit)

/-- The number that digits stand for. -/
def digitsValue (digits : List Nat) : Nat :=
  digits.foldl (fun value digit => value * 10 + digit) 0

/-- Reads the digits of an exponent that make up the whole text. -/
def exponentDigits? (text : List Char) : Option Nat :=
  match takeDigits text with
  | (digit :: digits, []) => some (digitsValue (digit :: digits))
  | _ => none

/-- Reads an exponent with its sign. -/
def exponentValue? : List Char → Option Int
  | '+' :: text => (exponentDigits? text).map fun value => (value : Int)
  | '-' :: text => (exponentDigits? text).map fun value => -(value : Int)
  | text => (exponentDigits? text).map fun value => (value : Int)

/-- Reads an exponent that makes up the whole text, `some none` if the text is empty. -/
def exponent? : List Char → Option (Option Int)
  | [] => some none
  | mark :: text => if mark = 'e' ∨ mark = 'E' then (exponentValue? text).map some else none

/-- Reads the digits after a point, if there is one, and what follows them. -/
def decimals? : List Char → Option (List Nat × List Char)
  | '.' :: text =>
    let (digits, after) := takeDigits text
    if digits.isEmpty then none else some (digits, after)
  | text => some ([], text)

namespace Numeral

/-- Reads a number without sign. There are no leading zeros. -/
def parseUnsigned? (negative : Bool) (text : List Char) : Option Numeral := do
  let (whole, text) := takeDigits text
  if whole.isEmpty ∨ (whole.head? = some 0 ∧ 1 < whole.length) then none
  else
    let (decimals, text) ← decimals? text
    let exponent ← exponent? text
    return { negative, whole, decimals, exponent }

/-- Reads a number. -/
def parse? : List Char → Option Numeral
  | '-' :: text => parseUnsigned? true text
  | text => parseUnsigned? false text

/-- A number without point and exponent. -/
def isInteger (numeral : Numeral) : Bool :=
  numeral.decimals.isEmpty && numeral.exponent.isNone

end Numeral

/-- The first number that does not fit into 64 bits. -/
def wordLimit : Nat := Nat.pow 2 64

/-- Appends digits to a number as long as it fits into 64 bits. Gives the number and the digits that
are left over. -/
def absorb (value : Nat) : List Nat → Nat × List Nat
  | [] => (value, [])
  | digit :: rest =>
    if value * 10 + digit < wordLimit then absorb (value * 10 + digit) rest
    else (value, digit :: rest)

/-- Rounds a number to 53 binary digits, to the nearest one and halves to the even one. -/
def roundDouble (value : Nat) : Nat :=
  let excess := value.log2 + 1 - 53
  let unit := Nat.pow 2 excess
  let low := value / unit
  let rest := value % unit
  if unit < 2 * rest ∨ (unit = 2 * rest ∧ low % 2 = 1) then (low + 1) * unit else low * unit

/-- The least magnitude that is rounded past the largest double-precision number. -/
def doubleLimit : Nat := Nat.pow 2 1024 - Nat.pow 2 970

/-- The greatest power of ten among the double-precision numbers. -/
def maxPowerOfTen : Nat := 308

/-- Whether a number times a power of ten is a double-precision number after rounding. -/
def isFiniteProduct (value : Nat) : Int → Bool
  | .negSucc _ => true
  | .ofNat power =>
    value = 0 ||
      (power ≤ maxPowerOfTen && roundDouble value * roundDouble (Nat.pow 10 power) < doubleLimit)

/-- Whether a number is small enough to be used. Leading digits that fit into 64 bits make up an
integer. Digits of the whole part that do not fit raise the power of ten, and decimals that fit lower
it. -/
def Numeral.isFinite (numeral : Numeral) : Bool :=
  let (value, uncounted) := absorb 0 numeral.whole
  let (value, ignored) := absorb value numeral.decimals
  let power : Int := uncounted.length - (numeral.decimals.length - ignored.length)
  isFiniteProduct value (power + numeral.exponent.getD 0)

end MixinLink.Json
