import MixinLink.Cleaning
import MixinLink.Hierarchy
import MixinLink.Json.Basic
import MixinLink.Remapping.Step

/-!
# Domain values as JSON

Every record is written as an object with all of its fields. Names and types are written as strings,
types by their descriptors.

Main exports: a function `toJson` for each type that is exchanged.
-/

namespace MixinLink

/-- A span as JSON. -/
def Span.toJson (span : Span) : Json :=
  .object [("start", .ofNat span.start), ("end", .ofNat span.stop)]

/-- A string literal as JSON. -/
def StringLiteral.toJson (literal : StringLiteral) : Json :=
  .object [("value", .string literal.value), ("span", literal.span.toJson)]

mutual

/-- An element value as JSON: an object with one member that is named for the kind of value. -/
def ElementValue.toJson : ElementValue → Json
  | .string literal => .object [("string", literal.toJson)]
  | .int value => .object [("int", .ofInt value)]
  | .boolean value => .object [("boolean", .boolean value)]
  | .constant typeName name =>
    .object [("enum", .object [("type_name", .string typeName.text), ("const_name", .string name)])]
  | .classLiteral name => .object [("class", .string name.text)]
  | .nested name span elements =>
    .object [("annotation", .object
      [("name", .string name), ("span", span.toJson),
        ("values", .array (ElementValue.pairsToJson elements))])]
  | .array values => .object [("array", .array (ElementValue.allToJson values))]

/-- Several element values as JSON. -/
def ElementValue.allToJson : List ElementValue → List Json
  | [] => []
  | value :: rest => value.toJson :: ElementValue.allToJson rest

/-- Named element values as JSON. -/
def ElementValue.pairsToJson : List (String × ElementValue) → List Json
  | [] => []
  | (name, value) :: rest =>
    .object [("name", .string name), ("value", value.toJson)] :: ElementValue.pairsToJson rest

end

/-- A named element value as JSON. -/
def elementToJson (element : String × ElementValue) : Json :=
  .object [("name", .string element.1), ("value", element.2.toJson)]

/-- An annotation as JSON. -/
def Annotation.toJson (mark : Annotation) : Json :=
  .object
    [("name", .string mark.name), ("span", mark.span.toJson),
     ("values", .ofList elementToJson mark.elements)]

/-- A field signature as JSON. -/
def FieldSignature.toJson (signature : FieldSignature) : Json :=
  .object
    [("name", .string signature.name.text),
     ("desc", .ofOption (fun type => .string type.descriptor) signature.type)]

/-- A method signature as JSON. -/
def MethodSignature.toJson (signature : MethodSignature) : Json :=
  .object [("name", .string signature.name.text), ("desc", .string signature.type.descriptor)]

/-- A declared field as JSON. -/
def FieldInfo.toJson (field : FieldInfo) : Json :=
  .object
    [("name", .string field.name.text), ("desc", .string field.type.descriptor),
     ("is_private", .boolean field.isPrivate), ("is_final", .boolean field.isFinal)]

/-- A declared method as JSON. -/
def MethodInfo.toJson (method : MethodInfo) : Json :=
  .object
    [("name", .string method.name.text), ("desc", .string method.type.descriptor),
     ("is_private", .boolean method.isPrivate), ("is_static", .boolean method.isStatic)]

/-- A known class as JSON. -/
def ClassInfo.toJson (info : ClassInfo) : Json :=
  .object
    [("name", .string info.name.text),
     ("super_class", .ofOption (fun name => .string name.text) info.superClass),
     ("interfaces", .ofList (fun name => .string name.text) info.interfaces),
     ("fields", .ofList FieldInfo.toJson info.fields),
     ("methods", .ofList MethodInfo.toJson info.methods)]

/-- A field declaration as JSON. -/
def FieldDecl.toJson (field : FieldDecl) : Json :=
  .object
    [("name", .string field.name.text), ("desc", .string field.type.descriptor),
     ("annotations", .ofList Annotation.toJson field.annotations)]

/-- A method declaration as JSON. -/
def MethodDecl.toJson (method : MethodDecl) : Json :=
  .object
    [("name", .string method.name.text), ("desc", .string method.type.descriptor),
     ("is_static", .boolean method.isStatic),
     ("annotations", .ofList Annotation.toJson method.annotations)]

mutual

/-- A class declaration as JSON. -/
def ClassDecl.toJson : ClassDecl → Json
  | .mk name annotations fields methods inner =>
    .object
      [("name", .string name.text), ("annotations", .ofList Annotation.toJson annotations),
       ("fields", .ofList FieldDecl.toJson fields), ("methods", .ofList MethodDecl.toJson methods),
       ("inner_classes", .array (ClassDecl.allToJson inner))]

/-- Several class declarations as JSON. -/
def ClassDecl.allToJson : List ClassDecl → List Json
  | [] => []
  | decl :: rest => decl.toJson :: ClassDecl.allToJson rest

end

/-- A source file as JSON. -/
def SourceUnit.toJson (unit : SourceUnit) : Json :=
  .object [("path", .string unit.path), ("classes", .array (ClassDecl.allToJson unit.classes))]

/-- A literal edit as JSON. -/
def LiteralEdit.toJson (edit : LiteralEdit) : Json :=
  .object
    [("span", edit.span.toJson), ("original", .string edit.before), ("replacement", .string edit.after)]

/-- A diagnostic as JSON. -/
def Diagnostic.toJson : Diagnostic → Json
  | .malformedLinkage className member message =>
    .object
      [("kind", .string "malformed_linkage"), ("class", .string className.text),
       ("member", .ofOption .string member), ("message", .string message)]
  | .ambiguousOverload className member target span candidates =>
    .object
      [("kind", .string "ambiguous_overload"), ("class", .string className.text),
       ("member", .ofOption .string member), ("target", .string target), ("span", span.toJson),
       ("candidates", .ofList .string candidates)]
  | .conflictingTargets className member chosen chosenTarget other otherTarget =>
    .object
      [("kind", .string "conflicting_targets"), ("class", .string className.text),
       ("member", .ofOption .string member), ("chosen", .string chosen),
       ("chosen_target", .string chosenTarget.text), ("other", .string other),
       ("other_target", .string otherTarget.text)]

/-- A source edit as JSON. -/
def SourceEdit.toJson : SourceEdit → Json
  | .insertMark after text =>
    .object [("kind", .string "insert_annotation"), ("after", after.toJson), ("text", .string text)]
  | .removeMark span mark =>
    .object
      [("kind", .string "remove_annotation"), ("span", span.toJson), ("annotation", .string mark)]
  | .addImport className => .object [("kind", .string "add_import"), ("class", .string className)]

/-- What remapping puts out as JSON. -/
def Output.toJson (output : Output) : Json :=
  .object
    [("instructions", .ofList LiteralEdit.toJson output.edits),
     ("diagnostics", .ofList Diagnostic.toJson output.diagnostics)]

/-- What cleaning puts out as JSON. -/
def CleanOutput.toJson (output : CleanOutput) : Json :=
  .object
    [("edits", .ofList SourceEdit.toJson output.edits),
     ("diagnostics", .ofList Diagnostic.toJson output.diagnostics)]

end MixinLink
