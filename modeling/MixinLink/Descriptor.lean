import MixinLink.Name.Basic

/-!
# Types and their descriptors

A descriptor is the text of a type: a letter for a primitive type, `L` and a class name and `;` for a
class, `[` in front for every array dimension, of which there are at most 255. The descriptor of a
method has the parameters between parentheses and then the result, with `V` for none.

The library keeps the types themselves; `descriptor` writes them and `parse` reads them.

Main exports: `FieldType`, `MethodType`, `FieldType.descriptor`, `FieldType.parse`,
`MethodType.descriptor`, `MethodType.parse`.
-/

namespace MixinLink

/-- The types that are no classes. -/
inductive Primitive where
  | byte
  | char
  | double
  | float
  | int
  | long
  | short
  | boolean
deriving Repr, DecidableEq

namespace Primitive

/-- The letter of a primitive type. -/
def letter : Primitive → Char
  | byte => 'B'
  | char => 'C'
  | double => 'D'
  | float => 'F'
  | int => 'I'
  | long => 'J'
  | short => 'S'
  | boolean => 'Z'

/-- The primitive type with a given letter. -/
def ofLetter? : Char → Option Primitive
  | 'B' => some byte
  | 'C' => some char
  | 'D' => some double
  | 'F' => some float
  | 'I' => some int
  | 'J' => some long
  | 'S' => some short
  | 'Z' => some boolean
  | _ => none

end Primitive

/-- A type that is no array. -/
inductive BaseType where
  | primitive (type : Primitive)
  | object (name : ClassName)
deriving DecidableEq

/-- The type of a field: a base type, or an array of it. -/
structure FieldType where
  /-- The number of array dimensions, zero if this is no array. -/
  depth : Nat
  base : BaseType
  depth_le : depth ≤ 255
deriving DecidableEq

/-- The type of a method. -/
structure MethodType where
  parameters : List FieldType
  /-- The type of the result, `none` if there is none. -/
  result : Option FieldType
deriving DecidableEq

namespace BaseType

/-- The descriptor as characters. -/
def chars : BaseType → List Char
  | primitive type => [type.letter]
  | object name => 'L' :: (name.text.toList ++ [';'])

/-- Applies a function to the class name, if there is one. -/
def mapClass (f : ClassName → ClassName) : BaseType → BaseType
  | primitive type => primitive type
  | object name => object (f name)

/-- The class, if this is one. -/
def className? : BaseType → Option ClassName
  | primitive _ => none
  | object name => some name

end BaseType

namespace FieldType

/-- The type of the instances of a class. -/
def ofClass (name : ClassName) : FieldType :=
  ⟨0, .object name, by decide⟩

/-- The descriptor as characters. -/
def chars (type : FieldType) : List Char :=
  List.replicate type.depth '[' ++ type.base.chars

/-- The descriptor of a type. -/
def descriptor (type : FieldType) : String :=
  String.ofList type.chars

/-- Applies a function to the class name in a type, if there is one. -/
def mapClass (f : ClassName → ClassName) (type : FieldType) : FieldType :=
  { type with base := type.base.mapClass f }

end FieldType

namespace MethodType

/-- The result as characters. -/
def resultChars : Option FieldType → List Char
  | some type => type.chars
  | none => ['V']

/-- The descriptor as characters. -/
def chars (type : MethodType) : List Char :=
  '(' :: (type.parameters.flatMap FieldType.chars ++ ')' :: resultChars type.result)

/-- The descriptor of a method type. -/
def descriptor (type : MethodType) : String :=
  String.ofList type.chars

/-- Applies a function to every class name in a type. -/
def mapClass (f : ClassName → ClassName) (type : MethodType) : MethodType :=
  { parameters := type.parameters.map (·.mapClass f), result := type.result.map (·.mapClass f) }

end MethodType

instance : ToString FieldType := ⟨FieldType.descriptor⟩
instance : ToString MethodType := ⟨MethodType.descriptor⟩

namespace BaseType

/-- Reads a base type from the front of a text, and gives what follows it. -/
def read : List Char → Checked (BaseType × List Char)
  | [] => Checked.refuse .abruptEnd
  | 'L' :: rest =>
    match Text.splitFirst? ';' rest with
    | none => Checked.refuse (.unterminatedObject (String.ofList rest))
    | some (name, after) =>
      match ClassName.parse (String.ofList name) with
      | .ok name => .ok (object name, after)
      | .error failure => .error (failure.within .objectType)
  | c :: rest =>
    match Primitive.ofLetter? c with
    | some type => .ok (primitive type, rest)
    | none => Checked.refuse (.unexpectedChar c)

private theorem read_length {text rest : List Char} {type : BaseType}
    (success : read text = .ok (type, rest)) : rest.length < text.length := by
  unfold read at success
  split at success
  · simp [Checked.refuse] at success
  · rename_i body
    split at success
    · simp [Checked.refuse] at success
    · rename_i name after found
      split at success
      · simp only [Except.ok.injEq, Prod.mk.injEq] at success
        obtain ⟨_, rfl⟩ := success
        simp [(Text.splitFirst?_eq_some found).1]
        omega
      · simp at success
  · split at success
    · simp only [Except.ok.injEq, Prod.mk.injEq] at success
      simp [success.2]
    · simp [Checked.refuse] at success

end BaseType

namespace FieldType

/-- The number of leading `[`, and the text after them. -/
def dropDimensions : List Char → Nat × List Char
  | '[' :: text =>
    let inner := dropDimensions text
    (inner.1 + 1, inner.2)
  | text => (0, text)

private theorem dropDimensions_length (text : List Char) :
    (dropDimensions text).1 + (dropDimensions text).2.length = text.length := by
  fun_induction dropDimensions text with
  | case1 text inner ih => simp only [List.length_cons, inner]; omega
  | case2 text => simp

/-- Reads a type from the front of a text, and gives what follows it. -/
def read (text : List Char) : Checked (FieldType × List Char) :=
  if depth_le : (dropDimensions text).1 ≤ 255 then
    match BaseType.read (dropDimensions text).2 with
    | .ok (base, rest) => .ok (⟨(dropDimensions text).1, base, depth_le⟩, rest)
    | .error failure => .error failure
  else
    Checked.refuse .arrayTooDeep

private theorem read_length {text rest : List Char} {type : FieldType}
    (success : read text = .ok (type, rest)) : rest.length < text.length := by
  unfold read at success
  split at success
  · split at success
    · rename_i base after found
      simp only [Except.ok.injEq, Prod.mk.injEq] at success
      obtain ⟨_, rfl⟩ := success
      have shorter := BaseType.read_length found
      have total := dropDimensions_length text
      omega
    · simp at success
  · simp [Checked.refuse] at success

/-- Reads a whole text as a field descriptor. -/
def parseDescriptor (text : String) : Checked FieldType :=
  match read text.toList with
  | .error failure => .error (failure.within (.fieldDescriptor text))
  | .ok (type, []) => .ok type
  | .ok (_, rest) => Checked.refuse (.fieldDescriptorRest text (String.ofList rest))

/-- Reads a field descriptor; a failure names the text. -/
def parse (text : String) : Checked FieldType :=
  Checked.within (.onValue text) (parseDescriptor text)

end FieldType

namespace MethodType

/-- Reads parameters up to the closing parenthesis, and gives what follows it. -/
def readParameters (text : List Char) : Checked (List FieldType × List Char) :=
  match text with
  | ')' :: rest => .ok ([], rest)
  | text =>
    match success : FieldType.read text with
    | .error failure => .error failure
    | .ok (type, rest) =>
      have _shorter := FieldType.read_length success
      match readParameters rest with
      | .error failure => .error failure
      | .ok (types, after) => .ok (type :: types, after)
termination_by text.length

/-- Reads a result from the front of a text, and gives what follows it. -/
def readResult : List Char → Checked (Option FieldType × List Char)
  | 'V' :: rest => .ok (none, rest)
  | text =>
    match FieldType.read text with
    | .error failure => .error failure
    | .ok (type, rest) => .ok (some type, rest)

/-- Reads a whole text as a method descriptor. -/
def parseDescriptor (text : String) : Checked MethodType :=
  match text.toList with
  | '(' :: body =>
    match readParameters body with
    | .error failure => .error (failure.within (.parameterDescriptor text))
    | .ok (parameters, rest) =>
      match readResult rest with
      | .error failure => .error (failure.within (.resultDescriptor text))
      | .ok (result, []) => .ok { parameters, result }
      | .ok (_, rest) => Checked.refuse (.methodDescriptorRest text (String.ofList rest))
  | _ => Checked.refuse (.noParameterList text)

/-- Reads a method descriptor; a failure names the text. -/
def parse (text : String) : Checked MethodType :=
  Checked.within (.onValue text) (parseDescriptor text)

end MethodType

end MixinLink
