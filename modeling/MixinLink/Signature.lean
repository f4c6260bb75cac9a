import MixinLink.Descriptor

/-!
# Signatures of members

A member of a class is told apart by its name and its type. The type of a field may be left open: such
a signature stands for the fields of that name.

A field signature is written `name:descriptor`, or just `name`; a method signature is written as the
name followed by the descriptor.

Main exports: `FieldSignature`, `MethodSignature`, their `text` and `parse`.
-/

namespace MixinLink

/-- A field by its name and, if it is known, its type. -/
structure FieldSignature where
  name : FieldName
  type : Option FieldType
deriving DecidableEq

/-- A method by its name and its type. -/
structure MethodSignature where
  name : MethodName
  type : MethodType
deriving DecidableEq

namespace FieldSignature

/-- The signature of the fields of a name, whatever their type. -/
def untyped (name : FieldName) : FieldSignature :=
  ⟨name, none⟩

/-- Leaves the type open. -/
def withoutType (signature : FieldSignature) : FieldSignature :=
  untyped signature.name

/-- The written form. -/
def text (signature : FieldSignature) : String :=
  match signature.type with
  | some type => signature.name.text ++ ":" ++ type.descriptor
  | none => signature.name.text

/-- Reads the written form, divided at the first `:`. -/
def parse (text : String) : Checked FieldSignature :=
  match Text.splitFirst? ':' text.toList with
  | some (name, type) => do
    let name ← FieldName.parse (String.ofList name)
    let type ← FieldType.parse (String.ofList type)
    return ⟨name, some type⟩
  | none => do
    let name ← FieldName.parse text
    return untyped name

/-- The order of signatures: by name, then by descriptor, open types first. -/
def precedes (a b : FieldSignature) : Bool :=
  if a.name.text = b.name.text then
    match a.type, b.type with
    | none, _ => true
    | some _, none => false
    | some first, some second => first.descriptor ≤ second.descriptor
  else
    a.name.text ≤ b.name.text

end FieldSignature

namespace MethodSignature

/-- The written form. -/
def text (signature : MethodSignature) : String :=
  signature.name.text ++ signature.type.descriptor

/-- Reads the written form, divided in front of the first `(`. -/
def parse (text : String) : Checked MethodSignature :=
  match Text.splitFirst? '(' text.toList with
  | some (name, type) => do
    let name ← MethodName.parse (String.ofList name)
    let type ← MethodType.parse (String.ofList ('(' :: type))
    return ⟨name, type⟩
  | none => Checked.refuse (.noMethodDescriptor text)

/-- The order of signatures: by name, then by descriptor. -/
def precedes (a b : MethodSignature) : Bool :=
  if a.name.text = b.name.text then a.type.descriptor ≤ b.type.descriptor
  else a.name.text ≤ b.name.text

/-- The order of methods in mapping text: by descriptor, then by name. -/
def precedesByType (a b : MethodSignature) : Bool :=
  if a.type.descriptor = b.type.descriptor then a.name.text ≤ b.name.text
  else a.type.descriptor ≤ b.type.descriptor

end MethodSignature

instance : ToString FieldSignature := ⟨FieldSignature.text⟩
instance : ToString MethodSignature := ⟨MethodSignature.text⟩

end MixinLink
