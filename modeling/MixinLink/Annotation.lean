import MixinLink.Name.Basic

/-!
# Annotations

Annotations of declarations as they were found in a source file, with everything resolved: class
literals are class names, string literals carry their value and their place in the file, and the names
of annotations are complete.

An annotation that stands on a declaration is called its mark; one that is the value of an element is
called nested.

An element that may be given as a single value or as an array is read the same way in both cases: a
value that is no array counts as an array of one element.

Main exports: `Span`, `StringLiteral`, `ElementValue`, `Annotation`, `Annotation.element?`,
`Annotation.string?`, `Annotation.strings`, `Annotation.classes`, `Annotation.nestedAll`,
`Annotation.requireElements`.
-/

namespace MixinLink

/-- A range of bytes in a source file. -/
structure Span where
  start : Nat
  stop : Nat
deriving Repr, DecidableEq

/-- The range as messages give it. -/
def Span.text (span : Span) : String :=
  toString span.start ++ ".." ++ toString span.stop

instance : ToString Span := ⟨Span.text⟩

/-- A string literal, with the range of its source text including the quotes. -/
structure StringLiteral where
  value : String
  span : Span
deriving Repr, DecidableEq

/-- The value of an annotation element. -/
inductive ElementValue where
  | string (literal : StringLiteral)
  | int (value : Int)
  | boolean (value : Bool)
  | constant (typeName : ClassName) (name : String)
  | classLiteral (name : ClassName)
  | nested (name : String) (span : Span) (elements : List (String × ElementValue))
  | array (values : List ElementValue)

/-- An annotation with its elements in source order. The single element of the short form is named
`value`. -/
structure Annotation where
  /-- The complete name, with dots. -/
  name : String
  span : Span
  elements : List (String × ElementValue)

namespace ElementValue

/-- The values of an array, or the value itself. -/
def values : ElementValue → List ElementValue
  | array values => values
  | value => [value]

/-- The literal, if this is a string. -/
def asString? : ElementValue → Option StringLiteral
  | string literal => some literal
  | _ => none

/-- The class, if this is a class literal. -/
def asClass? : ElementValue → Option ClassName
  | classLiteral name => some name
  | _ => none

/-- The annotation, if this is one. -/
def asNested? : ElementValue → Option Annotation
  | nested name span elements => some ⟨name, span, elements⟩
  | _ => none

end ElementValue

/-- A range inside of a shown value. -/
def Span.shown (span : Span) : String :=
  "Span \x7b start: " ++ toString span.start ++ ", end: " ++ toString span.stop ++ " \x7d"

/-- A literal inside of a shown value. -/
def StringLiteral.shown (literal : StringLiteral) : String :=
  "StringLiteral \x7b value: " ++ Text.shown literal.value ++ ", span: " ++ literal.span.shown ++ " \x7d"

/-- A class name inside of a shown value. -/
def ClassName.shown (name : ClassName) : String :=
  "ClassName(" ++ Text.shown name.text ++ ")"

mutual

/-- A value as messages show it. -/
def ElementValue.shown : ElementValue → String
  | .string literal => "String(" ++ literal.shown ++ ")"
  | .int value => "Int(" ++ toString value ++ ")"
  | .boolean value => "Boolean(" ++ toString value ++ ")"
  | .constant typeName name =>
    "Enum \x7b type_name: " ++ typeName.shown ++ ", const_name: " ++ Text.shown name ++ " \x7d"
  | .classLiteral name => "Class(" ++ name.shown ++ ")"
  | .nested name span elements =>
    "Annotation(Annotation \x7b name: " ++ Text.shown name ++ ", span: " ++ span.shown ++ ", values: "
      ++ Text.bracketed (ElementValue.shownPairs elements) ++ " \x7d)"
  | .array values => "Array(" ++ Text.bracketed (ElementValue.shownAll values) ++ ")"

/-- Several values as messages show them. -/
def ElementValue.shownAll : List ElementValue → List String
  | [] => []
  | value :: rest => value.shown :: ElementValue.shownAll rest

/-- Named values as messages show them. -/
def ElementValue.shownPairs : List (String × ElementValue) → List String
  | [] => []
  | (name, value) :: rest =>
    ("ElementValuePair \x7b name: " ++ Text.shown name ++ ", value: " ++ value.shown ++ " \x7d")
      :: ElementValue.shownPairs rest

end

namespace Annotation

/-- The name after the last dot, for messages. -/
def simpleName (mark : Annotation) : String :=
  match Text.splitLast? '.' mark.name.toList with
  | some (_, simple) => String.ofList simple
  | none => mark.name

/-- The value of the first element with a name. -/
def element? (mark : Annotation) (name : String) : Option ElementValue :=
  (mark.elements.find? (·.1 = name)).map (·.2)

/-- The failure that an element has a value of the wrong kind. -/
def wrongElement (mark : Annotation) (name expected : String) (value : ElementValue) : Failure :=
  .of (.wrongElement name expected mark.simpleName value.shown)

/-- Reads a value, or fails if it is of the wrong kind. -/
def readValue {α : Type} (mark : Annotation) (name expected : String)
    (read : ElementValue → Option α) (value : ElementValue) : Checked α :=
  match read value with
  | some result => .ok result
  | none => .error (mark.wrongElement name expected value)

/-- Reads values from left to right. -/
def readValues {α : Type} (mark : Annotation) (name expected : String)
    (read : ElementValue → Option α) : List ElementValue → Checked (List α)
  | [] => .ok []
  | value :: rest => do
    let first ← mark.readValue name expected read value
    let others ← mark.readValues name expected read rest
    return first :: others

/-- An element that must be a single value of some kind. -/
def single? {α : Type} (mark : Annotation) (name expected : String)
    (read : ElementValue → Option α) : Checked (Option α) :=
  match mark.element? name with
  | none => .ok none
  | some value => some <$> mark.readValue name expected read value

/-- An element that must be a value of some kind or an array of such values. A missing element has no
values. -/
def all {α : Type} (mark : Annotation) (name expected : String)
    (read : ElementValue → Option α) : Checked (List α) :=
  match mark.element? name with
  | none => .ok []
  | some value => mark.readValues name expected read value.values

/-- An element that must be a single string. -/
def string? (mark : Annotation) (name : String) : Checked (Option StringLiteral) :=
  mark.single? name "a string" ElementValue.asString?

/-- An element that must be a string or an array of strings. -/
def strings (mark : Annotation) (name : String) : Checked (List StringLiteral) :=
  mark.all name "a string" ElementValue.asString?

/-- An element that must be a class literal or an array of class literals. -/
def classes (mark : Annotation) (name : String) : Checked (List ClassName) :=
  mark.all name "a class literal" ElementValue.asClass?

/-- An element that must be an annotation or an array of annotations. -/
def nestedAll (mark : Annotation) (name : String) : Checked (List Annotation) :=
  mark.all name "an annotation" ElementValue.asNested?

/-- An element that must be a single annotation. -/
def nested? (mark : Annotation) (name : String) : Checked (Option Annotation) :=
  mark.single? name "an annotation" ElementValue.asNested?

/-- Checks that there are no elements other than the given ones. -/
def requireElements (mark : Annotation) (allowed : List String) : Checked Unit :=
  match mark.elements.find? (·.1 ∉ allowed) with
  | none => .ok ()
  | some element => Checked.refuse (.unknownElement element.1 mark.simpleName)

end Annotation

end MixinLink
