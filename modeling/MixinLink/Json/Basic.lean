/-!
# JSON values

JSON as the library exchanges it. The members of an object are kept in order, repeated keys included.
Of numbers only integers are told apart.

Some values can be passed over but not be used: strings with escapes that stand for no character,
numbers that are too large, and what lies too deep.

Main exports: `Json`, `Json.depth`, `Json.limit`, `Json.isUsable`.
-/

namespace MixinLink

/-- A JSON value. -/
inductive Json where
  | null
  | boolean (value : Bool)
  /-- A number without fraction and exponent, by sign and magnitude. -/
  | integer (negative : Bool) (magnitude : Nat)
  /-- Any other number. -/
  | fraction
  | string (value : String)
  | array (items : List Json)
  | object (members : List (String × Json))
  /-- A value that can only be passed over. -/
  | unusable

namespace Json

/-- The number as JSON. -/
def ofNat (n : Nat) : Json :=
  integer false n

/-- The number as JSON. -/
def ofInt : Int → Json
  | .ofNat n => integer false n
  | .negSucc n => integer true (n + 1)

/-- A value that may be absent as JSON. -/
def ofOption {α : Type} (encode : α → Json) : Option α → Json
  | some value => encode value
  | none => null

/-- Values as JSON. -/
def ofList {α : Type} (encode : α → Json) (values : List α) : Json :=
  array (values.map encode)

mutual

/-- The number of arrays and objects that lie inside one another. -/
def depth : Json → Nat
  | array items => depthAll items + 1
  | object members => depthMembers members + 1
  | _ => 0

/-- The greatest depth of several values. -/
def depthAll : List Json → Nat
  | [] => 0
  | item :: rest => max item.depth (depthAll rest)

/-- The greatest depth of the values of several members. -/
def depthMembers : List (String × Json) → Nat
  | [] => 0
  | (_, value) :: rest => max value.depth (depthMembers rest)

end

mutual

/-- The value with everything that lies more than so many arrays and objects deep made unusable. -/
def limit : Nat → Json → Json
  | 0, array _ => unusable
  | 0, object _ => unusable
  | depth + 1, array items => array (limitAll depth items)
  | depth + 1, object members => object (limitMembers depth members)
  | _, json => json

/-- Several values with their depth limited. -/
def limitAll (depth : Nat) : List Json → List Json
  | [] => []
  | item :: rest => item.limit depth :: limitAll depth rest

/-- Several members with the depth of their values limited. -/
def limitMembers (depth : Nat) : List (String × Json) → List (String × Json)
  | [] => []
  | (key, value) :: rest => (key, value.limit depth) :: limitMembers depth rest

end

mutual

/-- Nothing in the value is unusable. -/
def isUsable : Json → Bool
  | array items => areUsable items
  | object members => membersUsable members
  | unusable => false
  | _ => true

/-- Nothing in the values is unusable. -/
def areUsable : List Json → Bool
  | [] => true
  | item :: rest => item.isUsable && areUsable rest

/-- Nothing in the values of the members is unusable. -/
def membersUsable : List (String × Json) → Bool
  | [] => true
  | (_, value) :: rest => value.isUsable && membersUsable rest

end

end Json

end MixinLink
