import MixinLink.Text.UppercaseTable

/-!
# Uppercase text

The full uppercase form of a text: every letter is replaced by its uppercase letters, which are
sometimes more than one (`ß` becomes `SS`). ASCII letters are mapped directly, all others through the
table of case runs.

Main exports: `Text.uppercaseChar`, `Text.uppercase`, `Text.lowercaseAscii`.
-/

namespace MixinLink.Text

/-- The uppercase letter of a code inside a run, if the code belongs to it. -/
def CaseRun.shift? (run : CaseRun) (code : Nat) : Option Nat :=
  if run.first ≤ code ∧ code ≤ run.last ∧ (code - run.first) % run.stride = 0 then
    some (run.upper + (code - run.first))
  else
    none

/-- An ASCII letter from `a` to `z`. -/
def isLowerAscii (c : Char) : Bool :=
  'a' ≤ c && c ≤ 'z'

/-- An ASCII letter from `A` to `Z`. -/
def isUpperAscii (c : Char) : Bool :=
  'A' ≤ c && c ≤ 'Z'

/-- The uppercase letter of an ASCII letter; other characters stay. -/
def uppercaseAscii (c : Char) : Char :=
  if isLowerAscii c then Char.ofNat (c.toNat - 32) else c

/-- The lowercase letter of an ASCII letter; other characters stay. -/
def lowercaseAscii (c : Char) : Char :=
  if isUpperAscii c then Char.ofNat (c.toNat + 32) else c

/-- The uppercase form of a character past ASCII. -/
def uppercaseWide (c : Char) : List Char :=
  match longUppercase.lookup c.toNat with
  | some codes => codes.map Char.ofNat
  | none =>
    match caseRuns.findSome? (·.shift? c.toNat) with
    | some code => [Char.ofNat code]
    | none => [c]

/-- The uppercase form of a character, one or more characters long. -/
def uppercaseChar (c : Char) : List Char :=
  if c.toNat < 128 then [uppercaseAscii c] else uppercaseWide c

/-- The uppercase form of a text. -/
def uppercase (text : List Char) : List Char :=
  text.flatMap uppercaseChar

end MixinLink.Text
