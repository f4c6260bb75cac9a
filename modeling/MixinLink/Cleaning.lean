import MixinLink.Diagnostic
import MixinLink.Hierarchy
import MixinLink.Linkage
import MixinLink.SourceEdit

/-!
# Cleaning mixin classes

A shadow of a final field needs `@Final`, or `@Mutable` if the mixin assigns it; a shadow of any other
field needs neither. Cleaning looks at the first target of a mixin class and finds the annotations to
add and to remove. A field that cannot be cleaned is reported, and the others are still cleaned.

Main exports: `CleanOutput`, `FieldCleaning`, `findDeclaredField?`, `cleanClass`, `cleanUnit`.
-/

namespace MixinLink

/-- The edits of a source file, and the problems found on the way. -/
structure CleanOutput where
  edits : List SourceEdit
  diagnostics : List Diagnostic
deriving DecidableEq

/-- The field with a name and type that a class declares, or else the one that the nearest ancestor
declares for classes below it to see. -/
def findDeclaredField? (hierarchy : Hierarchy) (target : ClassName) (name : FieldName)
    (type : FieldType) : Option FieldInfo :=
  let own := (hierarchy.find? target).bind fun info =>
    info.fields.find? fun field => field.name = name && field.type = type
  own.or ((hierarchy.ancestors target).findSome? fun ancestor =>
    (hierarchy.find? ancestor).bind fun info =>
      info.fields.find? fun field => !field.isPrivate && (field.name = name && field.type = type))

/-- The edits for a field, and whether they add `@Final` to it. -/
structure FieldCleaning where
  edits : List SourceEdit
  addsFinal : Bool
deriving DecidableEq

/-- Nothing to edit. -/
def FieldCleaning.nothing : FieldCleaning :=
  ⟨[], false⟩

/-- Cleans a shadow field, given the field it stands for. -/
def cleanShadow (field : FieldDecl) (shadow : Annotation) (info : FieldInfo) : FieldCleaning :=
  let final := findAnnotation? field.annotations AnnotationName.final
  let mutable := findAnnotation? field.annotations AnnotationName.mutable
  if info.isFinal then
    if final.isNone && mutable.isNone then ⟨[.insertMark shadow.span "@Final"], true⟩ else .nothing
  else
    ⟨(final.toList ++ mutable.toList).map fun mark => .removeMark mark.span mark.name, false⟩

/-- What the log tells about the edits for a field. -/
def editNote (className : ClassName) (field : FieldDecl) : SourceEdit → LogEntry
  | .removeMark span name =>
    let mark : Annotation := ⟨name, span, []⟩
    ⟨.trace, .cleaning, s!"{className}.{field.name}: removing @{mark.simpleName}"⟩
  | _ => ⟨.trace, .cleaning, s!"{className}.{field.name}: adding @Final"⟩

/-- Cleans a field. -/
def cleanField (hierarchy : Hierarchy) (className target : ClassName) (field : FieldDecl) :
    Reading FieldCleaning := do
  match findAnnotation? field.annotations AnnotationName.shadow with
  | none => return .nothing
  | some shadow =>
    let data ← Reading.check
      (Checked.within (.shadowOf className.text field.name.text) (ShadowData.ofMark shadow))
    let name ← Reading.check (FieldName.parse ((data.strip? field.name.text).getD field.name.text))
    match findDeclaredField? hierarchy target name field.type with
    | none =>
      Reading.note (Noted.write .trace .cleaning
        s!"{className}: no field {name} in {target} or its super classes")
      return .nothing
    | some info =>
      let cleaning := cleanShadow field shadow info
      Reading.note ⟨(), cleaning.edits.map (editNote className field)⟩
      return cleaning

/-- Tells about a problem. -/
def noteMalformed (className : ClassName) (member : Option String) (failure : Failure) :
    Noted Diagnostic := do
  let diagnostic := Diagnostic.malformedLinkage className member failure.message
  Noted.write .warn .cleaning diagnostic.text
  return diagnostic

/-- Cleans fields one after the other, and says whether `@Final` was added to one of them. -/
def cleanFields (hierarchy : Hierarchy) (className target : ClassName) :
    List FieldDecl → Noted (CleanOutput × Bool)
  | [] => return (⟨[], []⟩, false)
  | field :: rest => do
    match ← (cleanField hierarchy className target field).run with
    | .ok cleaning =>
      let (others, addsFinal) ← cleanFields hierarchy className target rest
      return ({ others with edits := cleaning.edits ++ others.edits }, cleaning.addsFinal || addsFinal)
    | .error failure =>
      let diagnostic ← noteMalformed className (some field.signature.text) failure
      let (others, addsFinal) ← cleanFields hierarchy className target rest
      return ({ others with diagnostics := diagnostic :: others.diagnostics }, addsFinal)

/-- The first target of a mixin class, if something is known about it. -/
def cleanTarget? (hierarchy : Hierarchy) (decl : ClassDecl) : Reading (Option ClassName) := do
  match ← MixinData.ofClass? decl with
  | none => return none
  | some mixin =>
    match mixin.targetNames with
    | [] => return none
    | target :: _ =>
      if (hierarchy.find? target).isSome then
        return some target
      else
        Reading.note (Noted.write .debug .cleaning
          s!"not cleaning {decl.name}: nothing known about {target}")
        return none

/-- Cleans the shadow fields of a class. Classes nested in it are left alone. -/
def cleanClass (hierarchy : Hierarchy) (decl : ClassDecl) : Noted CleanOutput := do
  match ← (cleanTarget? hierarchy decl).run with
  | .error failure =>
    let diagnostic ← noteMalformed decl.name none failure
    return ⟨[], [diagnostic]⟩
  | .ok none => return ⟨[], []⟩
  | .ok (some target) =>
    let (output, addsFinal) ← cleanFields hierarchy decl.name target decl.fields
    if addsFinal then
      return { output with edits := output.edits ++ [.addImport AnnotationName.final] }
    else
      return output

/-- Cleans classes one after the other. -/
def cleanClasses (hierarchy : Hierarchy) : List ClassDecl → Noted CleanOutput
  | [] => return ⟨[], []⟩
  | decl :: rest => do
    let first ← cleanClass hierarchy decl
    let others ← cleanClasses hierarchy rest
    return ⟨first.edits ++ others.edits, first.diagnostics ++ others.diagnostics⟩

/-- Cleans all classes of a source file. -/
def cleanUnit (hierarchy : Hierarchy) (unit : SourceUnit) : Noted CleanOutput :=
  cleanClasses hierarchy unit.walk

end MixinLink
