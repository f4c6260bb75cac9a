import MixinLink.AccessorName
import MixinLink.Declaration
import MixinLink.Log
import MixinLink.Reference

/-!
# Linkages

The annotations of a mixin class and of its members say how they are linked to the target classes. An
annotation of the wrong shape is a failure. A string literal that cannot be read as a reference is no
failure: it is noted and kept as it is, since it may mean something that is not mapped.

Main exports: `ParsedLiteral`, `ShadowData`, `AccessorData`, `PointData`, `SliceData`, `InjectData`,
`MixinData`, `InterfaceData`, `Linkage`, `Linkage.ofField?`, `Linkage.ofMethod?`.
-/

namespace MixinLink

/-! ## The complete names of the annotations -/

namespace AnnotationName

def mixin : String := "org.spongepowered.asm.mixin.Mixin"
def shadow : String := "org.spongepowered.asm.mixin.Shadow"
def overwrite : String := "org.spongepowered.asm.mixin.Overwrite"
def final : String := "org.spongepowered.asm.mixin.Final"
def mutable : String := "org.spongepowered.asm.mixin.Mutable"
def implements : String := "org.spongepowered.asm.mixin.Implements"
def interface : String := "org.spongepowered.asm.mixin.Interface"
def accessor : String := "org.spongepowered.asm.mixin.gen.Accessor"
def invoker : String := "org.spongepowered.asm.mixin.gen.Invoker"
def inject : String := "org.spongepowered.asm.mixin.injection.Inject"
def redirect : String := "org.spongepowered.asm.mixin.injection.Redirect"
def modifyConstant : String := "org.spongepowered.asm.mixin.injection.ModifyConstant"
def modifyVariable : String := "org.spongepowered.asm.mixin.injection.ModifyVariable"
def point : String := "org.spongepowered.asm.mixin.injection.At"
def slice : String := "org.spongepowered.asm.mixin.injection.Slice"

end AnnotationName

/-! ## Reading with notes -/

/-- Reading that can fail and that notes what it passes over. -/
abbrev Reading := ExceptT Failure Noted

namespace Reading

/-- Something that can fail, with nothing noted. -/
def check {α : Type} (result : Checked α) : Reading α :=
  ExceptT.mk (pure result)

/-- Something noted that cannot fail. -/
def note {α : Type} (result : Noted α) : Reading α :=
  ExceptT.lift result

/-- Puts a step around the failure, if there is one. -/
def within {α : Type} (context : Context) (reading : Reading α) : Reading α :=
  ExceptT.mk ⟨Checked.within context reading.run.value, reading.run.log⟩

/-- Reads something from each item, from left to right. -/
def each {α β : Type} (read : α → Reading β) : List α → Reading (List β)
  | [] => pure []
  | item :: rest => do
    let first ← read item
    let others ← each read rest
    return first :: others

/-- Reads something from an item that may be missing. -/
def optional {α β : Type} (read : α → Reading β) : Option α → Reading (Option β)
  | none => pure none
  | some item => some <$> read item

end Reading

/-- A string literal with what was read from it, `none` if it could not be read. -/
structure ParsedLiteral (α : Type) where
  literal : StringLiteral
  parsed : Option α

/-- Reads a string literal; one that cannot be read is noted. -/
def parseLiteral {α : Type} (parse : String → Checked α) (literal : StringLiteral) :
    Noted (ParsedLiteral α) :=
  match parse literal.value with
  | .ok value => pure ⟨literal, some value⟩
  | .error failure => do
    Noted.write .debug .linkage
      ("keeping " ++ Text.shown literal.value ++ " at " ++ literal.span.text ++ " as it is: "
        ++ failure.message)
    pure ⟨literal, none⟩

/-- Reads string literals from left to right. -/
def parseLiterals {α : Type} (parse : String → Checked α) :
    List StringLiteral → Noted (List (ParsedLiteral α))
  | [] => pure []
  | literal :: rest => do
    let first ← parseLiteral parse literal
    let others ← parseLiterals parse rest
    return first :: others

/-! ## The data of each annotation -/

/-- The lead of shadow members whose annotation gives none. -/
def defaultShadowLead : String := "shadow$"

/-- A member that stands for a member of the target: its name may have a lead. -/
structure ShadowData where
  lead : String
deriving Repr, DecidableEq

namespace ShadowData

/-- Reads a `@Shadow`. -/
def ofMark (mark : Annotation) : Checked ShadowData := do
  mark.requireElements ["prefix", "remap", "aliases"]
  let lead ← mark.string? "prefix"
  return ⟨(lead.map StringLiteral.value).getD defaultShadowLead⟩

/-- The name without the lead, if it has the lead and more than that. -/
def strip? (data : ShadowData) (name : String) : Option String :=
  match Text.dropLead? data.lead.toList name.toList with
  | some [] => none
  | some rest => some (String.ofList rest)
  | none => none

/-- Puts the lead in front of a name. -/
def addLead (data : ShadowData) (name : String) : String :=
  data.lead ++ name

end ShadowData

/-- An accessor method, with the member it is for if the annotation names one. -/
structure AccessorData where
  target : Option StringLiteral
deriving Repr, DecidableEq

/-- Reads an `@Accessor` or `@Invoker`. An empty name counts as none. -/
def AccessorData.ofMark (mark : Annotation) : Checked AccessorData := do
  mark.requireElements ["value", "remap"]
  let target ← mark.string? "value"
  return ⟨target.filter (·.value ≠ "")⟩

/-- What an accessor method does, by its annotation and its shape. -/
def AccessorKind.ofMethod (isInvoker : Bool) (method : MethodDecl) : AccessorKind :=
  if isInvoker then
    if method.isStatic then factory else proxy
  else if method.type.result = none then setter
  else getter

/-- An injection point. -/
structure PointData where
  /-- The sort of injection point. -/
  value : Option String
  target : Option (ParsedLiteral PointReference)

/-- Reads an `@At`. -/
def PointData.ofMark (mark : Annotation) : Reading PointData := do
  if mark.name = AnnotationName.point then
    let value ← Reading.check (mark.string? "value")
    let target ← Reading.check (mark.string? "target")
    let target ← Reading.optional
      (fun literal => Reading.note (parseLiteral PointReference.parse literal)) target
    return ⟨value.map StringLiteral.value, target⟩
  else
    Reading.check (Checked.refuse (.wrongMark "an @At" mark.simpleName))

/-- The part of a method between two injection points. -/
structure SliceData where
  start : Option PointData
  stop : Option PointData

/-- Reads a `@Slice`. -/
def SliceData.ofMark (mark : Annotation) : Reading SliceData := do
  if mark.name = AnnotationName.slice then
    let start ← Reading.check (mark.nested? "from")
    let start ← Reading.optional PointData.ofMark start
    let stop ← Reading.check (mark.nested? "to")
    let stop ← Reading.optional PointData.ofMark stop
    return ⟨start, stop⟩
  else
    Reading.check (Checked.refuse (.wrongMark "a @Slice" mark.simpleName))

/-- An injection: the target methods, the injection points, and the slices to look for them in. -/
structure InjectData where
  methods : List (ParsedLiteral MemberReference)
  points : List PointData
  slices : List SliceData

namespace InjectData

/-- Reads an injecting annotation. -/
def ofMark (mark : Annotation) : Reading InjectData := do
  let methods ← Reading.check (mark.strings "method")
  let methods ← Reading.note (parseLiterals MemberReference.parse methods)
  let points ← Reading.check (mark.nestedAll "at")
  let points ← Reading.each PointData.ofMark points
  let slices ← Reading.check (mark.nestedAll "slice")
  let slices ← Reading.each SliceData.ofMark slices
  return ⟨methods, points, slices⟩

/-- All injection points, those at the ends of slices included. -/
def allPoints (data : InjectData) : List PointData :=
  data.points ++ data.slices.flatMap fun slice => slice.start.toList ++ slice.stop.toList

end InjectData

/-- The target classes of a mixin. -/
structure MixinData where
  /-- The targets given as class literals. -/
  targets : List ClassName
  /-- The targets given as strings. -/
  privateTargets : List (ParsedLiteral ClassReference)

namespace MixinData

/-- Reads a `@Mixin`. -/
def ofMark (mark : Annotation) : Reading MixinData := do
  let targets ← Reading.check (mark.classes "value")
  let privateTargets ← Reading.check (mark.strings "targets")
  let privateTargets ← Reading.note (parseLiterals ClassReference.parse privateTargets)
  return ⟨targets, privateTargets⟩

/-- Reads the `@Mixin` of a class, if it has one. -/
def ofClass? (decl : ClassDecl) : Reading (Option MixinData) :=
  Reading.within (.mixinOf decl.name.text)
    (Reading.optional ofMark (findAnnotation? decl.annotations AnnotationName.mixin))

/-- All targets, the class literals first. -/
def targetNames (data : MixinData) : List ClassName :=
  data.targets ++ data.privateTargets.filterMap fun target => target.parsed.map ClassReference.name

end MixinData

/-- An interface whose methods a mixin implements under names with a lead. -/
structure InterfaceData where
  interface : ClassName
  lead : String
deriving DecidableEq

namespace InterfaceData

/-- Reads an `@Interface`. -/
def ofMark (mark : Annotation) : Checked InterfaceData := do
  if mark.name = AnnotationName.interface then
    match (mark.element? "iface").bind ElementValue.asClass? with
    | none => Checked.refuse .noInterfaceClass
    | some interface =>
      let lead ← mark.string? "prefix"
      return ⟨interface, (lead.map StringLiteral.value).getD ""⟩
  else
    Checked.refuse (.wrongMark "an @Interface" mark.simpleName)

/-- Reads several `@Interface`. -/
def ofMarks : List Annotation → Checked (List InterfaceData)
  | [] => .ok []
  | mark :: rest => do
    let first ← ofMark mark
    let others ← ofMarks rest
    return first :: others

/-- Reads an `@Implements`. -/
def ofImplements (mark : Annotation) : Checked (List InterfaceData) := do
  let interfaces ← mark.nestedAll "value"
  ofMarks interfaces

/-- Reads the `@Implements` of a class, if it has one. -/
def ofClass? (decl : ClassDecl) : Checked (Option (List InterfaceData)) :=
  match findAnnotation? decl.annotations AnnotationName.implements with
  | none => .ok none
  | some mark =>
    Checked.within (.implementsOf decl.name.text) (some <$> ofImplements mark)

end InterfaceData

/-! ## Linkages of members -/

/-- How a member of a mixin class is linked to its targets. -/
inductive Linkage where
  | shadowField (data : ShadowData)
  | shadowMethod (data : ShadowData)
  | overwrite
  | getter (data : AccessorData)
  | setter (data : AccessorData)
  | proxy (data : AccessorData)
  | factory (data : AccessorData)
  | inject (data : InjectData)
  | redirect (data : InjectData)
  | modifyConstant (data : InjectData)
  | modifyVariable (data : InjectData)

namespace Linkage

/-- The linkage that an annotation of a field makes, if any. -/
def ofField? (mark : Annotation) : Checked (Option Linkage) :=
  if mark.name = AnnotationName.shadow then
    (fun data => some (shadowField data)) <$> ShadowData.ofMark mark
  else
    .ok none

/-- The linkage of an accessor method. -/
def ofAccessor (kind : AccessorKind) (data : AccessorData) : Linkage :=
  match kind with
  | .getter => getter data
  | .setter => setter data
  | .proxy => proxy data
  | .factory => factory data

/-- The linkage that an annotation of a method makes, if any. -/
def ofMethod? (mark : Annotation) (method : MethodDecl) : Reading (Option Linkage) := do
  if mark.name = AnnotationName.shadow then
    let data ← Reading.check (ShadowData.ofMark mark)
    return some (shadowMethod data)
  else if mark.name = AnnotationName.overwrite then
    return some overwrite
  else if mark.name = AnnotationName.accessor then
    let data ← Reading.check (AccessorData.ofMark mark)
    return some (ofAccessor (.ofMethod false method) data)
  else if mark.name = AnnotationName.invoker then
    let data ← Reading.check (AccessorData.ofMark mark)
    return some (ofAccessor (.ofMethod true method) data)
  else if mark.name = AnnotationName.inject then
    let data ← InjectData.ofMark mark
    return some (inject data)
  else if mark.name = AnnotationName.redirect then
    let data ← InjectData.ofMark mark
    return some (redirect data)
  else if mark.name = AnnotationName.modifyConstant then
    let data ← InjectData.ofMark mark
    return some (modifyConstant data)
  else if mark.name = AnnotationName.modifyVariable then
    let data ← InjectData.ofMark mark
    return some (modifyVariable data)
  else
    return none

/-- The annotation that makes the linkage, for messages. -/
def label : Linkage → String
  | shadowField _ => "@Shadow"
  | shadowMethod _ => "@Shadow"
  | overwrite => "@Overwrite"
  | getter _ => "@Accessor"
  | setter _ => "@Accessor"
  | proxy _ => "@Invoker"
  | factory _ => "@Invoker"
  | inject _ => "@Inject"
  | redirect _ => "@Redirect"
  | modifyConstant _ => "@ModifyConstant"
  | modifyVariable _ => "@ModifyVariable"

end Linkage

end MixinLink
