import MixinLink.Signature

/-!
# References in string literals

String literals of annotations refer to classes and members. A class is written with slashes, with
dots, or like a descriptor; a member by its name alone or with its type; and an injection point by a
class, or by a class written like a descriptor and a member of it.

Main exports: `ClassReference`, `MemberReference`, `PointReference`, their `parse` and `text`.
-/

namespace MixinLink

/-- How a class name is written. -/
inductive ClassSpelling where
  /-- `a/b/C` -/
  | slashes
  /-- `a.b.C`, also for names without a package -/
  | dots
  /-- `La/b/C;` -/
  | descriptor
deriving Repr, DecidableEq

/-- A class name as it is written in a literal. -/
structure ClassReference where
  name : ClassName
  spelling : ClassSpelling
deriving DecidableEq

/-- A class name in a spelling. -/
def ClassSpelling.write (spelling : ClassSpelling) (name : ClassName) : String :=
  match spelling with
  | slashes => name.text
  | dots => name.dotted
  | descriptor => "L" ++ name.text ++ ";"

namespace ClassReference

/-- Reads a class name that is written with slashes or with dots. -/
def parse (text : String) : Checked ClassReference :=
  if '/' ∈ text.toList then (⟨·, .slashes⟩) <$> ClassName.parse text
  else (⟨·, .dots⟩) <$> ClassName.parseDotted text

/-- Writes another class the way this one is written. -/
def write (reference : ClassReference) (name : ClassName) : String :=
  reference.spelling.write name

/-- The reference as it is written. -/
def text (reference : ClassReference) : String :=
  reference.write reference.name

end ClassReference

/-- A member of a class that is known from elsewhere. -/
inductive MemberReference where
  /-- Only a name, of a method. -/
  | bare (name : MethodName)
  /-- A method. -/
  | method (signature : MethodSignature)
  /-- A field, always with its type. -/
  | field (name : FieldName) (type : FieldType)
deriving DecidableEq

namespace MemberReference

/-- Reads a member: a method if there is a `(`, else a field if there is a `:`, else a name. -/
def parse (text : String) : Checked MemberReference :=
  match Text.splitFirst? '(' text.toList with
  | some (name, type) => do
    let name ← MethodName.parse (String.ofList name)
    let type ← MethodType.parse (String.ofList ('(' :: type))
    return .method ⟨name, type⟩
  | none =>
    match Text.splitFirst? ':' text.toList with
    | some (name, type) => do
      let name ← FieldName.parse (String.ofList name)
      let type ← FieldType.parse (String.ofList type)
      return .field name type
    | none => .bare <$> MethodName.parse text

/-- The written form. -/
def text : MemberReference → String
  | bare name => name.text
  | method signature => signature.text
  | field name type => name.text ++ ":" ++ type.descriptor

/-- The name of the member. -/
def memberName : MemberReference → String
  | bare name => name.text
  | method signature => signature.name.text
  | field name _ => name.text

end MemberReference

instance : ToString MemberReference := ⟨MemberReference.text⟩

/-- What an injection point refers to. -/
inductive PointReference where
  /-- Just a class. -/
  | ofClass (reference : ClassReference)
  /-- A member of a class. -/
  | ofMember (owner : ClassName) (member : MemberReference)
deriving DecidableEq

/-- A member of a class as an injection point refers to it. -/
def writePointMember (owner : ClassName) (member : MemberReference) : String :=
  "L" ++ owner.text ++ ";" ++ member.text

namespace PointReference

/-- Reads what an injection point refers to. Without a `;` it is a class; else the class before the
first `;` is written like a descriptor, and what follows, if anything, is a member of it. -/
def parse (text : String) : Checked PointReference :=
  match Text.splitFirst? ';' text.toList with
  | none => .ofClass <$> ClassReference.parse text
  | some ('L' :: owner, member) => do
    let owner ← ClassName.parse (String.ofList owner)
    if member.isEmpty then
      return .ofClass ⟨owner, .descriptor⟩
    else
      let member ← MemberReference.parse (String.ofList member)
      return .ofMember owner member
  | some _ => Checked.refuse (.pointWithoutOwner text)

/-- The written form. -/
def text : PointReference → String
  | ofClass reference => reference.text
  | ofMember owner member => writePointMember owner member

end PointReference

end MixinLink
