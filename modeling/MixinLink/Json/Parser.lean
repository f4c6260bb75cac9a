import MixinLink.Json.Basic
import MixinLink.Json.Number
import MixinLink.Json.Token

/-!
# Reading JSON text

The parser goes through the tokens once. A stack holds the arrays and objects that are not closed yet,
and the state says which tokens may come next.

Main exports: `Json.parse?`.
-/

namespace MixinLink.Json

/-- The value of a number. -/
def ofNumeral (numeral : Numeral) : Json :=
  if !numeral.isFinite then unusable
  else if numeral.isInteger then integer numeral.negative (digitsValue numeral.whole)
  else fraction

/-- Reads a constant or a number. -/
def parseWord? (chars : List Char) : Option Json :=
  if chars = "null".toList then some null
  else if chars = "true".toList then some (boolean true)
  else if chars = "false".toList then some (boolean false)
  else (Numeral.parse? chars).map ofNumeral

/-- An array or object that is not closed yet, its contents last first. Keys whose escapes do not form
characters are `none`. -/
inductive Frame where
  | array (items : List Json)
  | object (members : List (Option String × Json))
  /-- An object whose last key still needs a value. -/
  | member (members : List (Option String × Json)) (key : Option String)

/-- The object with the given members, which cannot be used if one of its keys cannot. -/
def ofMembers (members : List (Option String × Json)) : Json :=
  match members.mapM fun member => member.1.map (·, member.2) with
  | some members => object members
  | none => unusable

/-- Which tokens may come next. -/
inductive Expect where
  /-- A value. -/
  | value
  /-- A value, or the end of the array that was just opened. -/
  | firstItem
  /-- A key, or the end of the object that was just opened. -/
  | firstKey
  /-- A key. -/
  | key
  /-- A colon. -/
  | colon
  /-- A comma, or the end of the array or object. -/
  | separator
  /-- Nothing: the value is complete. -/
  | done (value : Json)

/-- The unclosed arrays and objects, innermost first, and what may come next. -/
structure State where
  stack : List Frame
  expect : Expect

/-- Puts a complete value where it belongs. -/
def State.complete (value : Json) : List Frame → Option State
  | [] => some ⟨[], .done value⟩
  | .array items :: stack => some ⟨.array (value :: items) :: stack, .separator⟩
  | .member members key :: stack => some ⟨.object ((key, value) :: members) :: stack, .separator⟩
  | .object _ :: _ => none

/-- Closes the innermost array or object. -/
def State.close (mark : Char) : List Frame → Option State
  | .array items :: stack => if mark = ']' then State.complete (.array items.reverse) stack else none
  | .object members :: stack =>
    if mark = '\x7d' then State.complete (ofMembers members.reverse) stack else none
  | _ => none

/-- Reads the first token of a value. -/
def State.startValue (stack : List Frame) : Token → Option State
  | .mark c =>
    if c = '[' then some ⟨.array [] :: stack, .firstItem⟩
    else if c = '\x7b' then some ⟨.object [] :: stack, .firstKey⟩
    else none
  | .string (some text) => State.complete (.string text) stack
  | .string none => State.complete .unusable stack
  | .word chars =>
    match parseWord? chars with
    | some value => State.complete value stack
    | none => none

/-- Reads a key. -/
def State.startMember (token : Token) : List Frame → Option State
  | .object members :: stack =>
    match token with
    | .string key => some ⟨.member members key :: stack, .colon⟩
    | _ => none
  | _ => none

/-- Reads one token. -/
def State.step (state : State) (token : Token) : Option State :=
  match state.expect, token with
  | .value, token => State.startValue state.stack token
  | .firstItem, .mark ']' => State.close ']' state.stack
  | .firstItem, token => State.startValue state.stack token
  | .firstKey, .mark '\x7d' => State.close '\x7d' state.stack
  | .firstKey, token => State.startMember token state.stack
  | .key, token => State.startMember token state.stack
  | .colon, .mark ':' => some ⟨state.stack, .value⟩
  | .separator, .mark ',' =>
    match state.stack with
    | .array _ :: _ => some ⟨state.stack, .value⟩
    | .object _ :: _ => some ⟨state.stack, .key⟩
    | _ => none
  | .separator, .mark c => State.close c state.stack
  | _, _ => none

/-- Reads tokens up to the end. -/
def State.run (state : State) : List Token → Option Json
  | [] =>
    match state.expect with
    | .done value => some value
    | _ => none
  | token :: rest =>
    match state.step token with
    | some state => state.run rest
    | none => none

/-- Reads a whole text as a JSON value. -/
def parse? (text : String) : Option Json :=
  match scan .between text.toList with
  | some tokens => State.run ⟨[], .value⟩ tokens
  | none => none

end MixinLink.Json
