import MixinLink.Remapping.Resolve

/-!
# Remapping members of mixin classes

Every linkage of a member is resolved against the targets of the mixin. Shadow members, overwrites,
accessors without an explicit target and soft implementations get a mapped name of their own; string
literals that name something are edited. What cannot be resolved stays as it is. A linkage that fails
is reported and does not keep the others from being remapped.

Main exports: `remapField`, `remapMethod`.
-/

namespace MixinLink

/-- Reports that a linkage is malformed. -/
def reportMalformed (className : ClassName) (member : Option String) (failure : Failure) : Remap Unit :=
  Remap.report (.malformedLinkage className member failure.message)

/-- Reports that a literal means several methods. -/
def reportAmbiguous (place : Place) (literal : StringLiteral) (candidates : List String) : Remap Unit :=
  Remap.report
    (.ambiguousOverload place.className (some place.member) literal.value literal.span candidates)

/-- Gives a field of a mixin class a mapped name. -/
def nameField (className : ClassName) (field : FieldDecl) (mapped : String) : Attempt Unit := do
  let mapped ← Attempt.check (FieldName.parse mapped)
  Remap.log .trace s!"{className}.{field.signature} -> {mapped}"
  Remap.change (·.update className (·.mapField field.signature mapped))

/-- Gives a method of a mixin class a mapped name. -/
def nameMethod (className : ClassName) (method : MethodDecl) (mapped : String) : Attempt Unit := do
  let mapped ← Attempt.check (MethodName.parse mapped)
  Remap.log .trace s!"{className}.{method.signature} -> {mapped}"
  Remap.change (·.update className (·.mapMethod method.signature mapped))

/-- Goes on with what was found, and tells the log if there is nothing. -/
def whenFound {α : Type} (find : Attempt (Resolved α)) (missing : String) (use : α → Attempt Unit) :
    Attempt Unit := do
  match ← find with
  | .found value => use value
  | _ => Remap.log .debug missing

/-- The mapped name of a shadow member: with the lead, if the member has it. -/
def shadowName (shadow : ShadowData) (stripped : Option String) (mapped : String) : String :=
  match stripped with
  | some _ => shadow.addLead mapped
  | none => mapped

/-- A shadow field gets the mapped name of the field it stands for. -/
def remapShadowField (place : Place) (field : FieldDecl) (shadow : ShadowData) : Attempt Unit := do
  let stripped := shadow.strip? field.name.text
  let name ← Attempt.check (FieldName.parse (stripped.getD field.name.text))
  let signature : FieldSignature := ⟨name, some field.type⟩
  whenFound (findField place signature) s!"{place.className}: no target has a field {signature}"
    fun mapped => nameField place.className field (shadowName shadow stripped mapped.text)

/-- A shadow method gets the mapped name of the method it stands for. -/
def remapShadowMethod (place : Place) (method : MethodDecl) (shadow : ShadowData) : Attempt Unit := do
  let stripped := shadow.strip? method.name.text
  let name ← Attempt.check (MethodName.parse (stripped.getD method.name.text))
  let signature : MethodSignature := ⟨name, method.type⟩
  whenFound (findMethod place signature) s!"{place.className}: no target has a method {signature}"
    fun mapped => nameMethod place.className method (shadowName shadow stripped mapped.text)

/-- An overwriting method gets the mapped name of the method it overwrites. -/
def remapOverwrite (place : Place) (method : MethodDecl) : Attempt Unit :=
  whenFound (findMethod place method.signature)
    s!"{place.className}: no target has a method {method.signature} to overwrite"
    fun mapped => nameMethod place.className method mapped.text

/-- The name that an explicit target of an accessor gives, `none` if it cannot be read. -/
def explicitName {α : Type} (parse : String → Checked α) (literal : StringLiteral) : Remap (Option α) := do
  let parsed ← Remap.note (parseLiteral parse literal)
  return parsed.parsed

/-- The type of the field that an accessor is for. -/
def accessedType (method : MethodDecl) (isGetter : Bool) : Checked FieldType :=
  if isGetter then
    match method.type.result with
    | some type => .ok type
    | none => Checked.refuse (.getterWithoutResult method.name.text)
  else
    match method.type.parameters with
    | [type] => .ok type
    | parameters => Checked.refuse (.setterParameters method.name.text parameters.length)

/-- How an accessor follows its member: by the literal that names the member, or by its own name. -/
inductive AccessorUse where
  | explicit (literal : StringLiteral)
  | inflected (accessor : AccessorName)

/-- The member that an accessor is for: the explicit one, else the one that its own name tells. There is
none if a literal cannot be read, or if the name tells nothing. -/
def accessedMember {α : Type} (parse : String → Checked α) (method : MethodDecl) (data : AccessorData)
    (untold : String) : Attempt (Option (α × AccessorUse)) := do
  match data.target with
  | some literal =>
    match ← explicitName parse literal with
    | none => return none
    | some name => return some (name, .explicit literal)
  | none =>
    match AccessorName.parse? method.name.text with
    | none =>
      Remap.log .debug untold
      return none
    | some accessor =>
      let name ← Attempt.check (parse accessor.member)
      return some (name, .inflected accessor)

/-- The literal that names the member of an accessor is edited; without one, the accessor gets the name that
belongs to the mapped name of the member. -/
def followMember (place : Place) (method : MethodDecl) (use : AccessorUse) (mapped : String) :
    Attempt Unit :=
  match use with
  | .explicit literal => Remap.edit literal mapped
  | .inflected accessor => nameMethod place.className method (accessor.withMember mapped)

/-- An accessor of a field. -/
def remapFieldAccessor (place : Place) (method : MethodDecl) (data : AccessorData) (isGetter : Bool) :
    Attempt Unit := do
  let type ← Attempt.check (accessedType method isGetter)
  match ← accessedMember FieldName.parse method data
    s!"{place.className}: can't get the field name from accessor {method.name}" with
  | none => return ()
  | some (name, use) =>
    let signature : FieldSignature := ⟨name, some type⟩
    whenFound (findField place signature) s!"{place.className}: no target has a field {signature}"
      fun mapped => followMember place method use mapped.text

/-- An accessor that calls a method. -/
def remapProxy (place : Place) (method : MethodDecl) (data : AccessorData) : Attempt Unit := do
  match ← accessedMember MethodName.parse method data
    s!"{place.className}: can't get the method name from invoker {method.name}" with
  | none => return ()
  | some (name, use) =>
    let signature : MethodSignature := ⟨name, method.type⟩
    whenFound (findMethod place signature) s!"{place.className}: no target has a method {signature}"
      fun mapped => followMember place method use mapped.text

/-- Edits a literal that names a class, if the class is mapped. -/
def remapClassLiteral (literal : StringLiteral) (reference : ClassReference) : Attempt Unit := do
  let table ← Remap.table
  match ← Attempt.check (table.mapClass? reference.name) with
  | none => return ()
  | some mapped => Remap.edit literal (reference.write mapped)

/-- The explicit target of a factory that means whatever constructor fits. -/
def constructorTarget : String := "<init>"

/-- An accessor that creates instances: its explicit target is the class to create. -/
def remapFactory (data : AccessorData) : Attempt Unit := do
  match data.target with
  | none => return ()
  | some literal =>
    if literal.value = constructorTarget then
      return ()
    else
      match ← explicitName ClassReference.parse literal with
      | none => return ()
      | some reference => remapClassLiteral literal reference

/-- A target method of an injection. -/
def remapTargetMethod (place : Place) (target : ParsedLiteral MemberReference) : Attempt Unit := do
  match target.parsed with
  | none => return ()
  | some member =>
    match ← acrossTargets place (resolveMember · member) with
    | .found member => Remap.edit target.literal member.text
    | .ambiguous candidates => reportAmbiguous place target.literal candidates
    | .missing =>
      Remap.log .trace
        (place.className.text ++ ": keeping target method " ++ Text.shown target.literal.value)

/-- The literal of an injection point that stays, as the log tells it. -/
def keptPoint (place : Place) (point : PointData) (literal : StringLiteral) : String :=
  place.className.text ++ ": keeping @At(" ++ point.value.getD "" ++ ") target "
    ++ Text.shown literal.value

/-- An injection point at a member of a class that something is known about. -/
def remapPointMember (place : Place) (point : PointData) (literal : StringLiteral) (owner : ClassName)
    (member : MemberReference) : Attempt Unit := do
  match ← resolveMember owner member with
  | .found member =>
    let table ← Remap.table
    let owner ← Attempt.check (table.mapClass owner)
    Remap.edit literal (writePointMember owner member)
  | .ambiguous candidates => reportAmbiguous place literal candidates
  | .missing => Remap.log .trace (keptPoint place point literal)

/-- An injection point. -/
def remapPoint (hierarchy : Hierarchy) (place : Place) (point : PointData) : Attempt Unit := do
  match point.target with
  | none => return ()
  | some target =>
    match target.parsed with
    | none => return ()
    | some (.ofClass reference) => remapClassLiteral target.literal reference
    | some (.ofMember owner member) =>
      if ← resolveClass hierarchy owner then
        remapPointMember place point target.literal owner member
      else
        Remap.log .trace (keptPoint place point target.literal ++ ", unknown class")

/-- An injection: first its target methods, then its injection points. -/
def remapInjection (hierarchy : Hierarchy) (place : Place) (data : InjectData) : Attempt Unit := do
  Attempt.each (remapTargetMethod place) data.methods
  Attempt.each (remapPoint hierarchy place) data.allPoints

/-- A method with the lead of an interface gets the mapped name of the method of the interface, with
the lead. -/
def remapSoftImplementation (hierarchy : Hierarchy) (place : Place) (method : MethodDecl)
    (data : InterfaceData) : Attempt Unit := do
  if data.lead = "" then
    return ()
  else
    match Text.dropLead? data.lead.toList method.name.text.toList with
    | none => return ()
    | some [] => return ()
    | some stripped =>
      if ← resolveClass hierarchy data.interface then
        let name ← Attempt.check (MethodName.parse (String.ofList stripped))
        let signature : MethodSignature := ⟨name, method.type⟩
        whenFound (lookUpMethod signature data.interface)
          s!"{place.className}: interface {data.interface} has no method {signature}"
          fun mapped => nameMethod place.className method (data.lead ++ mapped.text)
      else
        return ()

/-- Remaps the linkage that an annotation of a field makes. -/
def remapFieldMark (place : Place) (field : FieldDecl) (mark : Annotation) :
    Attempt Unit := do
  match ← Attempt.check (Linkage.ofField? mark) with
  | none => return ()
  | some (.shadowField shadow) => remapShadowField place field shadow
  | some other => Attempt.check (Checked.refuse (.notOnFields other.label))

/-- Remaps a linkage of a method. -/
def remapMethodLinkage (hierarchy : Hierarchy) (place : Place) (method : MethodDecl) :
    Linkage → Attempt Unit
  | .shadowField _ => Attempt.check (Checked.refuse .fieldShadowOnMethod)
  | .shadowMethod shadow => remapShadowMethod place method shadow
  | .overwrite => remapOverwrite place method
  | .getter data => remapFieldAccessor place method data true
  | .setter data => remapFieldAccessor place method data false
  | .proxy data => remapProxy place method data
  | .factory data => remapFactory data
  | .inject data => remapInjection hierarchy place data
  | .redirect data => remapInjection hierarchy place data
  | .modifyConstant data => remapInjection hierarchy place data
  | .modifyVariable data => remapInjection hierarchy place data

/-- Remaps the linkage that an annotation of a method makes. -/
def remapMethodMark (hierarchy : Hierarchy) (place : Place) (method : MethodDecl)
    (mark : Annotation) : Attempt Unit := do
  match ← Attempt.read (Linkage.ofMethod? mark method) with
  | none => return ()
  | some linkage =>
    Remap.log .trace s!"{place.className}.{method.signature}: {linkage.label}"
    remapMethodLinkage hierarchy place method linkage

/-- Reports the failure of an attempt for a member. -/
def orReport (place : Place) (attempt : Attempt Unit) : Remap Unit :=
  attempt.orElse (reportMalformed place.className (some place.member))

/-- Remaps a field of a mixin class. -/
def remapField (place : Place) (field : FieldDecl) : Remap Unit :=
  Remap.each (fun mark => orReport place (remapFieldMark place field mark))
    field.annotations

/-- Remaps a method of a mixin class: its linkages, and then what it softly implements. -/
def remapMethod (hierarchy : Hierarchy) (place : Place) (interfaces : List InterfaceData)
    (method : MethodDecl) : Remap Unit := do
  Remap.each
    (fun mark => orReport place (remapMethodMark hierarchy place method mark))
    method.annotations
  Remap.each (fun data => orReport place (remapSoftImplementation hierarchy place method data))
    interfaces

end MixinLink
