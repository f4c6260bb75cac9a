import MixinLink.Text.Split
import MixinLink.Text.Uppercase

/-!
# Names of accessor methods

The name of an accessor method is a lead such as `get` or `call` and the name of the member it is for,
starting with an uppercase letter: `getAge` is for `age`. A member name that is all uppercase keeps its
first letter, so `getMAX` is for `MAX`. What follows `_$md` was added when the method was merged into
its class, and does not count.

Main exports: `AccessorKind`, `AccessorName`, `AccessorName.parse?`, `AccessorName.join`.
-/

namespace MixinLink

/-- What an accessor method does. -/
inductive AccessorKind where
  /-- Gives the value of a field. -/
  | getter
  /-- Changes the value of a field. -/
  | setter
  /-- Calls a method. -/
  | proxy
  /-- Creates an instance. -/
  | factory
deriving Repr, DecidableEq

namespace AccessorKind

/-- All kinds, in the order in which their leads are tried. -/
def all : List AccessorKind :=
  [getter, setter, proxy, factory]

/-- The leads of the names of such methods. -/
def leads : AccessorKind → List String
  | getter => ["get", "is"]
  | setter => ["set"]
  | proxy => ["call", "invoke"]
  | factory => ["new", "create"]

end AccessorKind

/-- The name of an accessor method, taken apart. -/
structure AccessorName where
  /-- The name of the method. -/
  method : String
  lead : String
  /-- The name of the member. -/
  member : String
deriving Repr, DecidableEq

namespace AccessorName

/-- All leads, in the order in which they are tried. -/
def leads : List String :=
  AccessorKind.all.flatMap AccessorKind.leads

/-- What starts the part of a name that was added by merging. -/
def mergeMarker : List Char :=
  "_$md".toList

/-- The text starts with an ASCII uppercase letter. -/
def startsUpper : List Char → Bool
  | c :: _ => Text.isUpperAscii c
  | [] => false

/-- What follows a lead, if an uppercase letter does. -/
def afterLead? (method lead : List Char) : Option (List Char) :=
  (Text.dropLead? lead method).filter startsUpper

/-- The first lead that fits, and what follows it. -/
def splitLead? (method : List Char) : Option (String × List Char) :=
  leads.findSome? fun lead => (afterLead? method lead.toList).map (lead, ·)

/-- Leaves out what merging added. The first character always belongs to the name. -/
def dropMerged : List Char → List Char
  | [] => []
  | c :: rest => c :: Text.beforeMarker mergeMarker rest

/-- The name of the member: the first letter becomes lowercase, unless the whole name is uppercase. -/
def memberCase : List Char → List Char
  | [] => []
  | c :: rest =>
    if Text.uppercase (c :: rest) = c :: rest then c :: rest else Text.lowercaseAscii c :: rest

/-- Takes the name of an accessor method apart. With `toMemberCase` unset, the first letter of the
member name stays as it is. -/
def parseWithCase? (toMemberCase : Bool) (method : String) : Option AccessorName :=
  (splitLead? method.toList).map fun (lead, rest) =>
    let name := dropMerged rest
    { method, lead, member := String.ofList (if toMemberCase then memberCase name else name) }

/-- Takes the name of an accessor method apart. -/
def parse? (method : String) : Option AccessorName :=
  parseWithCase? true method

/-- The text with its first character in uppercase. -/
def capitalize : List Char → List Char
  | [] => []
  | c :: rest => Text.uppercaseChar c ++ rest

/-- The name of the accessor method with a lead for a member. -/
def join (lead member : String) : String :=
  lead ++ String.ofList (capitalize member.toList)

/-- The name of the accessor method of the same sort for another member. -/
def withMember (name : AccessorName) (member : String) : String :=
  join name.lead member

end AccessorName

end MixinLink
