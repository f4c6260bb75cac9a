import MixinLink.Failure
import MixinLink.Json.Parser

/-!
# Taking JSON values apart

A record is an object with known keys, of which none may be repeated; other keys are passed over. It
may also be given as an array of its fields in order. A tagged record says by its field `kind` which
record it is; nothing in it may be unusable, not even what is passed over.

Main exports: `Json.asText`, `Json.asList`, `Json.asNat`, `Json.asInt`, `Json.Record`, `Json.record`,
`Json.variantRecord`, `Json.tagged`, `Json.Form`, `Json.parseWith`.
-/

namespace MixinLink.Json

/-- The value does not have the expected form. -/
def unfit {α : Type} : Checked α :=
  Checked.refuse .notJson

/-- Any string. -/
def asText : Json → Checked String
  | string value => .ok value
  | _ => unfit

/-- A truth value. -/
def asBool : Json → Checked Bool
  | boolean value => .ok value
  | _ => unfit

/-- An integer from 0 up to 2^64 - 1. -/
def asNat : Json → Checked Nat
  | integer false magnitude => if magnitude < Nat.pow 2 64 then .ok magnitude else unfit
  | _ => unfit

/-- An integer from -2^63 up to 2^63 - 1. Zero has no sign. -/
def asInt : Json → Checked Int
  | integer false magnitude => if magnitude < Nat.pow 2 63 then .ok (Int.ofNat magnitude) else unfit
  | integer true (n + 1) => if n < Nat.pow 2 63 then .ok (Int.negSucc n) else unfit
  | _ => unfit

/-- Decodes values from left to right. -/
def decodeAll {α : Type} (decode : Json → Checked α) : List Json → Checked (List α)
  | [] => .ok []
  | item :: rest => do
    let first ← decode item
    let others ← decodeAll decode rest
    return first :: others

/-- An array. -/
def asList {α : Type} (decode : Json → Checked α) : Json → Checked (List α)
  | array items => decodeAll decode items
  | _ => unfit

/-- A value, or `null` for none. -/
def asOption {α : Type} (decode : Json → Checked α) : Json → Checked (Option α)
  | null => .ok none
  | json => some <$> decode json

/-- The fields that a record has. -/
structure Record where
  /-- The record is an array. -/
  positional : Bool
  field? : String → Option Json

/-- The number of members with a key. -/
def countKey (key : String) (members : List (String × Json)) : Nat :=
  members.countP (·.1 = key)

/-- The value of the first member with a key. -/
def member? (key : String) (members : List (String × Json)) : Option Json :=
  (members.find? (·.1 = key)).map (·.2)

/-- The fields of an object. -/
def objectRecord (keys : List String) (members : List (String × Json)) : Checked Record :=
  if keys.all fun key => countKey key members ≤ 1 then
    .ok ⟨false, fun key => member? key members⟩
  else
    unfit

/-- The fields of an array. -/
def arrayRecord (keys : List String) (items : List Json) : Checked Record :=
  if items.length ≤ keys.length then
    .ok ⟨true, fun key => items[keys.idxOf key]?⟩
  else
    unfit

/-- A record with the given keys. -/
def record (keys : List String) : Json → Checked Record
  | object members => objectRecord keys members
  | array items => arrayRecord keys items
  | _ => unfit

/-- How a JSON value is given. -/
inductive Form where
  /-- As text. -/
  | text
  /-- As a value that is part of another one. -/
  | value
deriving Repr, DecidableEq

/-- A record that is one of several variants. Only in a text it may be an array. -/
def variantRecord (form : Form) (keys : List String) : Json → Checked Record
  | object members => objectRecord keys members
  | array items =>
    match form with
    | .text => arrayRecord keys items
    | .value => unfit
  | _ => unfit

/-- The kind of a record of members or items, and how to look at the rest of it. -/
def taggedFields : Json → Checked (String × (List String → Checked Record))
  | object members =>
    if countKey "kind" members = 1 then
      match member? "kind" members with
      | some (string kind) =>
        .ok (kind, fun keys => objectRecord keys (members.filter (·.1 ≠ "kind")))
      | _ => unfit
    else
      unfit
  | array (string kind :: items) => .ok (kind, fun keys => arrayRecord keys items)
  | _ => unfit

/-- The kind of a tagged record, and how to look at the rest of it. -/
def tagged (json : Json) : Checked (String × (List String → Checked Record)) :=
  if json.isUsable then json.taggedFields else unfit

namespace Record

/-- A field that must be there. -/
def required {α : Type} (record : Record) (key : String) (decode : Json → Checked α) : Checked α :=
  match record.field? key with
  | some json => decode json
  | none => unfit

/-- A field that may be missing. -/
def optional {α : Type} (record : Record) (key : String) (absent : α) (decode : Json → Checked α) :
    Checked α :=
  match record.field? key with
  | some json => decode json
  | none => .ok absent

/-- A field that may be `null`, and may be missing unless the record is an array. -/
def nullable {α : Type} (record : Record) (key : String) (decode : Json → Checked α) :
    Checked (Option α) :=
  match record.field? key with
  | some json => asOption decode json
  | none => if record.positional then unfit else .ok none

end Record

/-- The greatest depth at which values that are read from text can be used. -/
def depthLimit : Nat := 127

/-- Reads a text and decodes it. -/
def parseWith {α : Type} (decode : Form → Json → Checked α) (text : String) : Checked α :=
  match parse? text with
  | some json => decode .text (json.limit depthLimit)
  | none => unfit

end MixinLink.Json
