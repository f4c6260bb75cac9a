import MixinLink.Text.Shown
import MixinLink.Tiny.Line

/-!
# Failures

A failure is a cause, together with the trail of what was being done when it arose. Its message names
the outermost step first and the cause last, with colons between them.

Main exports: `Cause`, `Context`, `Failure`, `Failure.message`, `Checked`.
-/

namespace MixinLink

/-- Why something was refused. -/
inductive Cause where
  | invalidClassName
  | invalidFieldName
  | invalidMethodName
  | arrayTooDeep
  | unexpectedChar (c : Char)
  | abruptEnd
  | unterminatedObject (text : String)
  | fieldDescriptorRest (text rest : String)
  | methodDescriptorRest (text rest : String)
  | noParameterList (text : String)
  | noMethodDescriptor (text : String)
  | invalidInnerName (inner parent : String)
  | emptyNamespace (first second : String)
  | duplicateNamespace (name : String)
  | namespaceCount (names : List String)
  | namespaceMismatch (expected found : List String)
  | invalidMappedName (name className : String)
  | noHeader
  | headerVersion (line : Tiny.Line)
  | missingField (line : Tiny.Line)
  | extraFields (line : Tiny.Line)
  | indentation (expected : Nat) (line : Tiny.Line)
  | notUtf8
  | expectedEnd (next : Option Tiny.Line)
  | unknownElement (element mark : String)
  | wrongElement (element expected mark value : String)
  | wrongMark (expected found : String)
  | noInterfaceClass
  | pointWithoutOwner (text : String)
  | setterParameters (method : String) (count : Nat)
  | getterWithoutResult (method : String)
  | notOnFields (label : String)
  | fieldShadowOnMethod
  | notJson
  | system (text : String)
deriving Repr, DecidableEq

/-- What was being done when a failure arose. -/
inductive Context where
  | onValue (text : String)
  | objectType
  | fieldDescriptor (text : String)
  | parameterDescriptor (text : String)
  | resultDescriptor (text : String)
  | obfuscatedName (line : Nat)
  | deobfuscatedName (line : Nat)
  | onLine (line : Nat)
  | inLine (line : Nat)
  | classSections
  | allLines
  | mappedClass (className : String)
  | mixinOf (className : String)
  | implementsOf (className : String)
  | shadowOf (className field : String)
  | mappingsFile (path : String)
  | openClasses (path : String)
  | readClasses (path : String)
  | searchSources (path : String)
  | openSource (path : String)
  | readSource (path : String)
  | createReport (path : String)
  | createMappings (path : String)
  | writeMappings (path : String)
deriving Repr, DecidableEq

/-- The wording of a cause. -/
def Cause.text : Cause → String
  | invalidClassName =>
    "invalid class name: must consist out of `/` separated non-empty parts, and not contain any of `.`, `;`, `[`"
  | invalidFieldName =>
    "invalid field name: must be non-empty and not contain any of `.`, `;`, `[` and `/`"
  | invalidMethodName =>
    "invalid method name: must be either `<init>`, `<clinit>` or non-empty and not contain any of `.`, `;`, `[`, `/`, `<` and `>`"
  | arrayTooDeep => "array dimension of descriptor exceeds 255"
  | unexpectedChar c => "unexpected char " ++ Text.shownChar c ++ " in descriptor"
  | abruptEnd => "unexpected abrupt ending of descriptor"
  | unterminatedObject text => "object type " ++ Text.shown text ++ " of descriptor isn't terminated by ';'"
  | fieldDescriptorRest text rest =>
    "expected end of field descriptor " ++ Text.shown text ++ ", got " ++ Text.shown rest ++ " remaining"
  | methodDescriptorRest text rest =>
    "expected end of method descriptor " ++ Text.shown text ++ ", got " ++ Text.shown rest ++ " remaining"
  | noParameterList text => "method descriptor " ++ Text.shown text ++ " doesn't start with '('"
  | noMethodDescriptor text => "method signature " ++ Text.shown text ++ " has no descriptor"
  | invalidInnerName inner parent =>
    "invalid inner class name " ++ Text.shown inner ++ " for parent ClassNameSlice("
      ++ Text.shown parent ++ ")"
  | emptyNamespace first second =>
    "namespace names must not be empty: " ++ Text.shownList [first, second]
  | duplicateNamespace name => "duplicate namespace name " ++ Text.shown name
  | namespaceCount names =>
    "expected exactly two namespaces, got " ++ toString names.length ++ ": " ++ Text.shownList names
  | namespaceMismatch expected found =>
    "namespaces don't match, expected " ++ Text.shownList expected ++ ", found " ++ Text.shownList found
  | invalidMappedName name className =>
    "invalid deobfuscated name " ++ Text.shown name ++ " for inner class " ++ className
  | noHeader => "no header line"
  | headerVersion line => "header version isn't tiny v2.0, in line " ++ line.shown
  | missingField line => "expected another field in line " ++ toString line.number ++ ": " ++ line.shown
  | extraFields line =>
    "line " ++ toString line.number ++ " contained more fields than expected: " ++ line.shown
  | indentation expected line =>
    "expected an indentation of " ++ toString expected ++ " for line " ++ toString line.number ++ ": "
      ++ line.shown
  | notUtf8 => "stream did not contain valid UTF-8"
  | expectedEnd (some line) => "expected end of input, got: Ok(" ++ line.shown ++ ")"
  | expectedEnd none => "expected end of input, got: Err(stream did not contain valid UTF-8)"
  | unknownElement element mark => "unknown element `" ++ element ++ "` in @" ++ mark
  | wrongElement element expected mark value =>
    "expected " ++ expected ++ " for element `" ++ element ++ "` of @" ++ mark ++ ", got " ++ value
  | wrongMark expected found => "expected " ++ expected ++ " annotation, got @" ++ found
  | noInterfaceClass => "@Interface needs a class literal as `iface`"
  | pointWithoutOwner text =>
    "expected the class of " ++ Text.shown text ++ " to be given as `L<class>;`"
  | setterParameters method count =>
    "setter " ++ method ++ " must take exactly one argument, got " ++ toString count
  | getterWithoutResult method => "getter " ++ method ++ " must not return void"
  | notOnFields label => label ++ " can't be used on fields"
  | fieldShadowOnMethod => "@Shadow on a method parsed as field shadow"
  | notJson => "invalid data"
  | system text => text

/-- The wording of a context. -/
def Context.text : Context → String
  | onValue text => "on value " ++ Text.shown text
  | objectType => "in object type of descriptor"
  | fieldDescriptor text => "failed to read field descriptor " ++ Text.shown text
  | parameterDescriptor text => "failed to read parameter descriptor of " ++ Text.shown text
  | resultDescriptor text => "failed to read return descriptor of " ++ Text.shown text
  | obfuscatedName line => "invalid obfuscated name on line " ++ toString line
  | deobfuscatedName line => "invalid deobfuscated name on line " ++ toString line
  | onLine line => "on line " ++ toString line
  | inLine line => "in line " ++ toString line
  | classSections => "reading class sub-sections"
  | allLines => "reading lines"
  | mappedClass className => "deobfuscated name of class " ++ className ++ " is invalid"
  | mixinOf className => "failed to read @Mixin of " ++ className
  | implementsOf className => "failed to read @Implements of " ++ className
  | shadowOf className field => "failed to read @Shadow of " ++ className ++ "." ++ field
  | mappingsFile path => "failed to read mappings file " ++ Text.shown path ++ " as tiny v2 file"
  | openClasses path => "failed to open classes file " ++ Text.shown path
  | readClasses path => "failed to read classes file " ++ Text.shown path
  | searchSources path => "failed to search " ++ Text.shown path ++ " for source files"
  | openSource path => "failed to open source file " ++ Text.shown path
  | readSource path => "failed to read source file " ++ Text.shown path
  | createReport path => "failed to create report file " ++ Text.shown path
  | createMappings path => "failed to create mappings file " ++ Text.shown path
  | writeMappings path => "failed to write mappings to " ++ Text.shown path

/-- A cause, and the steps around it from the outermost to the innermost. -/
structure Failure where
  trail : List Context := []
  cause : Cause
deriving Repr, DecidableEq

namespace Failure

/-- A failure without any steps around it. -/
def of (cause : Cause) : Failure :=
  { cause }

/-- Puts one more step around a failure. -/
def within (context : Context) (failure : Failure) : Failure :=
  { failure with trail := context :: failure.trail }

/-- The texts of the steps and of the cause, outermost first. -/
def lines (failure : Failure) : List String :=
  failure.trail.map Context.text ++ [failure.cause.text]

/-- The whole message. -/
def message (failure : Failure) : String :=
  ": ".intercalate failure.lines

/-- The text of the outermost step, or of the cause if there is none. -/
def headline (failure : Failure) : String :=
  failure.lines.headD ""

end Failure

/-- The result of something that can fail. -/
abbrev Checked (α : Type) := Except Failure α

namespace Checked

/-- Fails with a cause. -/
def refuse {α : Type} (cause : Cause) : Checked α :=
  .error (.of cause)

/-- Puts a step around the failure, if there is one. -/
def within {α : Type} (context : Context) : Checked α → Checked α
  | .ok value => .ok value
  | .error failure => .error (failure.within context)

/-- Two steps succeed if the first does and then the second. -/
theorem bind_eq_ok {α β : Type} {result : Checked α} {next : α → Checked β} {value : β} :
    result >>= next = .ok value ↔ ∃ first, result = .ok first ∧ next first = .ok value := by
  cases result with
  | error failure => simp [bind, Except.bind]
  | ok first => simp [bind, Except.bind]

/-- A plain value is a success with that value. -/
theorem pure_eq_ok {α : Type} {first value : α} : (pure first : Checked α) = .ok value ↔ first = value := by
  simp [pure, Except.pure]

/-- Changing the value does not change whether there is one. -/
theorem map_eq_ok {α β : Type} {result : Checked α} {f : α → β} {value : β} :
    f <$> result = .ok value ↔ ∃ first, result = .ok first ∧ f first = value := by
  cases result with
  | error failure => simp [Functor.map, Except.map]
  | ok first => simp [Functor.map, Except.map]

/-- A refusal is no success. -/
@[simp] theorem refuse_ne_ok {α : Type} {cause : Cause} {value : α} : refuse cause ≠ .ok value := by
  simp [refuse]

/-- A step around a failure does not matter to a success. -/
@[simp] theorem within_eq_ok {α : Type} {context : Context} {result : Checked α} {value : α} :
    within context result = .ok value ↔ result = .ok value := by
  cases result with
  | error failure => simp [within]
  | ok first => simp [within]

end Checked

end MixinLink
