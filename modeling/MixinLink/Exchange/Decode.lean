import MixinLink.Cleaning
import MixinLink.Hierarchy
import MixinLink.Json.Decoder
import MixinLink.Remapping.Step

/-!
# Domain values from JSON

The counterpart of writing domain values as JSON. Fields that have a default may be left out; names
and descriptors are checked.

Values that hold values of their own type are decoded with a bound on how deep they go. The depth of
the JSON value is always enough.

A constant of an enumeration in a text may be an array; otherwise it makes no difference how the JSON
is given.

Main exports: a function `ofJson` for each type that is exchanged.
-/

namespace MixinLink

/-- A class name. -/
def ClassName.ofJson (json : Json) : Checked ClassName :=
  json.asText >>= ClassName.parse

/-- A field name. -/
def FieldName.ofJson (json : Json) : Checked FieldName :=
  json.asText >>= FieldName.parse

/-- A method name. -/
def MethodName.ofJson (json : Json) : Checked MethodName :=
  json.asText >>= MethodName.parse

/-- A field type by its descriptor. -/
def FieldType.ofJson (json : Json) : Checked FieldType :=
  json.asText >>= FieldType.parse

/-- A method type by its descriptor. -/
def MethodType.ofJson (json : Json) : Checked MethodType :=
  json.asText >>= MethodType.parse

/-- A field signature. -/
def FieldSignature.ofJson (json : Json) : Checked FieldSignature := do
  let record ← json.record ["name", "desc"]
  let name ← record.required "name" FieldName.ofJson
  let type ← record.nullable "desc" FieldType.ofJson
  return { name, type }

/-- A method signature. -/
def MethodSignature.ofJson (json : Json) : Checked MethodSignature := do
  let record ← json.record ["name", "desc"]
  let name ← record.required "name" MethodName.ofJson
  let type ← record.required "desc" MethodType.ofJson
  return { name, type }

/-- A declared field. -/
def FieldInfo.ofJson (json : Json) : Checked FieldInfo := do
  let record ← json.record ["name", "desc", "is_private", "is_final"]
  let name ← record.required "name" FieldName.ofJson
  let type ← record.required "desc" FieldType.ofJson
  let isPrivate ← record.optional "is_private" false Json.asBool
  let isFinal ← record.optional "is_final" false Json.asBool
  return { name, type, isPrivate, isFinal }

/-- A declared method. -/
def MethodInfo.ofJson (json : Json) : Checked MethodInfo := do
  let record ← json.record ["name", "desc", "is_private", "is_static"]
  let name ← record.required "name" MethodName.ofJson
  let type ← record.required "desc" MethodType.ofJson
  let isPrivate ← record.optional "is_private" false Json.asBool
  let isStatic ← record.optional "is_static" false Json.asBool
  return { name, type, isPrivate, isStatic }

/-- A known class. -/
def ClassInfo.ofJson (json : Json) : Checked ClassInfo := do
  let record ← json.record ["name", "super_class", "interfaces", "fields", "methods"]
  let name ← record.required "name" ClassName.ofJson
  let superClass ← record.optional "super_class" none (Json.asOption ClassName.ofJson)
  let interfaces ← record.optional "interfaces" [] (Json.asList ClassName.ofJson)
  let fields ← record.optional "fields" [] (Json.asList FieldInfo.ofJson)
  let methods ← record.optional "methods" [] (Json.asList MethodInfo.ofJson)
  return { name, superClass, interfaces, fields, methods }

/-- A span. -/
def Span.ofJson (json : Json) : Checked Span := do
  let record ← json.record ["start", "end"]
  let start ← record.required "start" Json.asNat
  let stop ← record.required "end" Json.asNat
  return { start, stop }

/-- A string literal. -/
def StringLiteral.ofJson (json : Json) : Checked StringLiteral := do
  let record ← json.record ["value", "span"]
  let value ← record.required "value" Json.asText
  let span ← record.required "span" Span.ofJson
  return { value, span }

/-- A named element value, given how to decode the value. -/
def elementOfJson (decode : Json → Checked ElementValue) (json : Json) :
    Checked (String × ElementValue) := do
  let record ← json.record ["name", "value"]
  let name ← record.required "name" Json.asText
  let value ← record.required "value" decode
  return (name, value)

/-- An annotation, given how to decode the values of its elements. -/
def markOfJson (decode : Json → Checked ElementValue) (json : Json) : Checked Annotation := do
  let record ← json.record ["name", "span", "values"]
  let name ← record.required "name" Json.asText
  let span ← record.required "span" Span.ofJson
  let elements ← record.optional "values" [] (Json.asList (elementOfJson decode))
  return { name, span, elements }

/-- A constant of an enumeration. -/
def constantOfJson (form : Json.Form) (json : Json) : Checked ElementValue := do
  let record ← json.variantRecord form ["type_name", "const_name"]
  let typeName ← record.required "type_name" ClassName.ofJson
  let name ← record.required "const_name" Json.asText
  return .constant typeName name

namespace ElementValue

/-- An element value of a kind, given how to decode the values in it. -/
def ofKind (form : Json.Form) (decode : Json → Checked ElementValue) (kind : String) (json : Json) :
    Checked ElementValue :=
  match kind with
  | "string" => .string <$> StringLiteral.ofJson json
  | "int" => .int <$> json.asInt
  | "boolean" => .boolean <$> json.asBool
  | "enum" => constantOfJson form json
  | "class" => .classLiteral <$> ClassName.ofJson json
  | "annotation" => (fun a => .nested a.name a.span a.elements) <$> markOfJson decode json
  | "array" => .array <$> json.asList decode
  | _ => Json.unfit

/-- An element value that lies at most so deep. -/
def ofJsonWithin (form : Json.Form) : Nat → Json → Checked ElementValue
  | depth + 1, .object [(kind, json)] => ofKind form (ofJsonWithin form depth) kind json
  | _, _ => Json.unfit

/-- An element value. -/
def ofJson (form : Json.Form) (json : Json) : Checked ElementValue :=
  ofJsonWithin form json.depth json

end ElementValue

/-- A named element value. -/
def elementPairOfJson (form : Json.Form) (json : Json) : Checked (String × ElementValue) :=
  elementOfJson (ElementValue.ofJson form) json

/-- An annotation. -/
def Annotation.ofJson (form : Json.Form) (json : Json) : Checked Annotation :=
  markOfJson (ElementValue.ofJson form) json

/-- A field declaration. -/
def FieldDecl.ofJson (form : Json.Form) (json : Json) : Checked FieldDecl := do
  let record ← json.record ["name", "desc", "annotations"]
  let name ← record.required "name" FieldName.ofJson
  let type ← record.required "desc" FieldType.ofJson
  let annotations ← record.optional "annotations" [] (Json.asList ( Annotation.ofJson form))
  return { name, type, annotations }

/-- A method declaration. -/
def MethodDecl.ofJson (form : Json.Form) (json : Json) : Checked MethodDecl := do
  let record ← json.record ["name", "desc", "is_static", "annotations"]
  let name ← record.required "name" MethodName.ofJson
  let type ← record.required "desc" MethodType.ofJson
  let isStatic ← record.optional "is_static" false Json.asBool
  let annotations ← record.optional "annotations" [] (Json.asList ( Annotation.ofJson form))
  return { name, type, isStatic, annotations }

namespace ClassDecl

/-- A class declaration, given how to decode the classes nested in it. -/
def ofRecord (form : Json.Form) (decode : Json → Checked ClassDecl) (json : Json) :
    Checked ClassDecl := do
  let record ← json.record ["name", "annotations", "fields", "methods", "inner_classes"]
  let name ← record.required "name" ClassName.ofJson
  let annotations ← record.optional "annotations" [] (Json.asList ( Annotation.ofJson form))
  let fields ← record.optional "fields" [] (Json.asList (FieldDecl.ofJson form))
  let methods ← record.optional "methods" [] (Json.asList (MethodDecl.ofJson form))
  let inner ← record.optional "inner_classes" [] (Json.asList decode)
  return .mk name annotations fields methods inner

/-- A class declaration that lies at most so deep. -/
def ofJsonWithin (form : Json.Form) : Nat → Json → Checked ClassDecl
  | 0, _ => Json.unfit
  | depth + 1, json => ofRecord form (ofJsonWithin form depth) json

/-- A class declaration. -/
def ofJson (form : Json.Form) (json : Json) : Checked ClassDecl :=
  ofJsonWithin form json.depth json

end ClassDecl

/-- A source file. -/
def SourceUnit.ofJson (form : Json.Form) (json : Json) : Checked SourceUnit := do
  let record ← json.record ["path", "classes"]
  let path ← record.required "path" Json.asText
  let classes ← record.optional "classes" [] (Json.asList (ClassDecl.ofJson form))
  return { path, classes }

/-- A literal edit. -/
def LiteralEdit.ofJson (json : Json) : Checked LiteralEdit := do
  let record ← json.record ["span", "original", "replacement"]
  let span ← record.required "span" Span.ofJson
  let before ← record.required "original" Json.asText
  let after ← record.required "replacement" Json.asText
  return { span, before, after }

/-- A diagnostic. -/
def Diagnostic.ofJson (json : Json) : Checked Diagnostic := do
  let (kind, fields) ← json.tagged
  match kind with
  | "malformed_linkage" =>
    let record ← fields ["class", "member", "message"]
    let className ← record.required "class" ClassName.ofJson
    let member ← record.nullable "member" Json.asText
    let message ← record.required "message" Json.asText
    return .malformedLinkage className member message
  | "ambiguous_overload" =>
    let record ← fields ["class", "member", "target", "span", "candidates"]
    let className ← record.required "class" ClassName.ofJson
    let member ← record.nullable "member" Json.asText
    let target ← record.required "target" Json.asText
    let span ← record.required "span" Span.ofJson
    let candidates ← record.required "candidates" (Json.asList Json.asText)
    return .ambiguousOverload className member target span candidates
  | "conflicting_targets" =>
    let record ← fields ["class", "member", "chosen", "chosen_target", "other", "other_target"]
    let className ← record.required "class" ClassName.ofJson
    let member ← record.nullable "member" Json.asText
    let chosen ← record.required "chosen" Json.asText
    let chosenTarget ← record.required "chosen_target" ClassName.ofJson
    let other ← record.required "other" Json.asText
    let otherTarget ← record.required "other_target" ClassName.ofJson
    return .conflictingTargets className member chosen chosenTarget other otherTarget
  | _ => Json.unfit

/-- A source edit. -/
def SourceEdit.ofJson (json : Json) : Checked SourceEdit := do
  let (kind, fields) ← json.tagged
  match kind with
  | "insert_annotation" =>
    let record ← fields ["after", "text"]
    let after ← record.required "after" Span.ofJson
    let text ← record.required "text" Json.asText
    return .insertMark after text
  | "remove_annotation" =>
    let record ← fields ["span", "annotation"]
    let span ← record.required "span" Span.ofJson
    let mark ← record.required "annotation" Json.asText
    return .removeMark span mark
  | "add_import" =>
    let record ← fields ["class"]
    let className ← record.required "class" Json.asText
    return .addImport className
  | _ => Json.unfit

/-- What remapping puts out. -/
def Output.ofJson (json : Json) : Checked Output := do
  let record ← json.record ["instructions", "diagnostics"]
  let edits ← record.required "instructions" (Json.asList LiteralEdit.ofJson)
  let diagnostics ← record.required "diagnostics" (Json.asList Diagnostic.ofJson)
  return { edits, diagnostics }

/-- What cleaning puts out. -/
def CleanOutput.ofJson (json : Json) : Checked CleanOutput := do
  let record ← json.record ["edits", "diagnostics"]
  let edits ← record.required "edits" (Json.asList SourceEdit.ofJson)
  let diagnostics ← record.required "diagnostics" (Json.asList Diagnostic.ofJson)
  return { edits, diagnostics }

end MixinLink
