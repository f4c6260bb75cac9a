import MixinLink.Completion
import MixinLink.Remapping.Step
import MixinLink.Table.Mapping

/-!
# Resolving members

A member reference is resolved against the entry of a class, which gives the same reference with
mapped names. A mixin can have several targets: every linkage is looked up in all of them, the first
result counts, and results that differ from it are reported.

Main exports: `Resolved`, `resolveClass`, `resolveMember`, `acrossTargets`, `findField`, `findMethod`.
-/

namespace MixinLink

/-- The outcome of a look-up. -/
inductive Resolved (α : Type) where
  | found (value : α)
  | missing
  /-- Several results that differ, each described for a diagnostic. -/
  | ambiguous (candidates : List String)
deriving DecidableEq

/-- Found, if there is something. -/
def Resolved.ofOption {α : Type} : Option α → Resolved α
  | some value => found value
  | none => missing

/-- The place of a linkage, and the classes that it is about. -/
structure Place where
  className : ClassName
  /-- The signature of the member. -/
  member : String
  targets : List ClassName

/-- Makes sure that the entry of a class is complete, if there is one or something is known about the
class. Says whether that is so. -/
def resolveClass (hierarchy : Hierarchy) (name : ClassName) : Remap Bool := do
  let table ← Remap.table
  if (table.find? name).isNone && (hierarchy.find? name).isNone then
    return false
  else
    let completed ← Remap.note (table.complete hierarchy name)
    Remap.change fun _ => completed
    return true

/-- The mapped name of the methods with a name: found if they all have the same one. -/
def resolveBare (entry : ClassEntry) (name : MethodName) : Resolved MemberReference :=
  match entry.methodsNamed name with
  | [] => .missing
  | first :: others =>
    if others.all (·.mapped = first.mapped) then .found (.bare first.mapped)
    else
      .ambiguous ((first :: others).map fun method =>
        method.signature.text ++ " -> " ++ method.mapped.text)

/-- Looks up a field with its type; other fields of that name do not count. -/
def resolveTypedField (owner : ClassName) (name : FieldName) (type : FieldType) :
    Remap (Option FieldName) := do
  let table ← Remap.table
  let (mapping, table) := table.resolveField owner ⟨name, some type⟩
  Remap.change fun _ => table
  return (mapping.filter fun mapping =>
    mapping.signature.type = none || mapping.signature.type = some type).map FieldMapping.mapped

/-- Resolves a member of a class. -/
def resolveMember (owner : ClassName) : MemberReference → Attempt (Resolved MemberReference)
  | .bare name => do
    let table ← Remap.table
    match table.find? owner with
    | none => return .missing
    | some entry => return resolveBare entry name
  | .method signature => do
    let table ← Remap.table
    match table.method? owner signature with
    | none => return .missing
    | some mapping =>
      let type ← Attempt.check (table.mapMethodType signature.type)
      return .found (.method ⟨mapping.mapped, type⟩)
  | .field name type => do
    match ← resolveTypedField owner name type with
    | none => return .missing
    | some mapped =>
      let table ← Remap.table
      let type ← Attempt.check (table.mapFieldType type)
      return .found (.field mapped type)

/-- Looks up a field in a class. -/
def lookUpField (signature : FieldSignature) (target : ClassName) : Attempt (Resolved FieldName) := do
  let table ← Remap.table
  let (mapping, table) := table.resolveField target signature
  Remap.change fun _ => table
  return .ofOption (mapping.map FieldMapping.mapped)

/-- Looks up a method in a class. -/
def lookUpMethod (signature : MethodSignature) (target : ClassName) : Attempt (Resolved MethodName) := do
  let table ← Remap.table
  return .ofOption ((table.method? target signature).map MethodMapping.mapped)

/-- The first result with its target, and the first ambiguity. -/
structure Choice (α : Type) where
  chosen : Option (α × ClassName)
  candidates : Option (List String)

/-- The outcome of a choice: a result, else an ambiguity, else nothing. -/
def Choice.outcome {α : Type} (choice : Choice α) : Resolved α :=
  match choice.chosen, choice.candidates with
  | some (value, _), _ => .found value
  | none, some candidates => .ambiguous candidates
  | none, none => .missing

/-- Looks something up in targets, after what was found in other targets. -/
def chooseFrom {α : Type} [DecidableEq α] [ToString α] (place : Place)
    (lookUp : ClassName → Attempt (Resolved α)) (choice : Choice α) :
    List ClassName → Attempt (Choice α)
  | [] => return choice
  | target :: rest => do
    match ← lookUp target with
    | .missing => chooseFrom place lookUp choice rest
    | .ambiguous candidates =>
      chooseFrom place lookUp { choice with candidates := choice.candidates.or (some candidates) } rest
    | .found value =>
      match choice.chosen with
      | none => chooseFrom place lookUp { choice with chosen := some (value, target) } rest
      | some (first, firstTarget) =>
        if first ≠ value then
          Remap.report (.conflictingTargets place.className (some place.member) (toString first)
            firstTarget (toString value) target)
        chooseFrom place lookUp choice rest

/-- Looks something up in all targets of a place. -/
def acrossTargets {α : Type} [DecidableEq α] [ToString α] (place : Place)
    (lookUp : ClassName → Attempt (Resolved α)) : Attempt (Resolved α) := do
  let choice ← chooseFrom place lookUp ⟨none, none⟩ place.targets
  return choice.outcome

/-- Looks up a field in all targets of a place. -/
def findField (place : Place) (signature : FieldSignature) : Attempt (Resolved FieldName) :=
  acrossTargets place (lookUpField signature)

/-- Looks up a method in all targets of a place. -/
def findMethod (place : Place) (signature : MethodSignature) : Attempt (Resolved MethodName) :=
  acrossTargets place (lookUpMethod signature)

end MixinLink
