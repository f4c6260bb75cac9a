import MixinLink.Hierarchy
import MixinLink.Log
import MixinLink.Table.Basic

/-!
# Completing a class with what it inherits

The entry of a class is completed once with every member that the class declares, and every member its
ancestors declare that is visible below them. A member that has no entry yet gets one. Its mapped name
is the one that the nearest class of the lineage, counted from the declaring class, has for it; without
any, the member keeps its name.

Main exports: `Table.inheritedFields`, `Table.inheritedMethods`, `Table.complete`.
-/

namespace MixinLink

namespace Table

/-- The mapped name that the nearest of some classes has for a field. -/
def nearestFieldName (table : Table) (lineage : List ClassName) (signature : FieldSignature) : FieldName :=
  let nearest := lineage.findSome? fun owner => (table.find? owner).bind (·.field? signature)
  (nearest.map FieldMapping.mapped).getD signature.name

/-- The mapped name that the nearest of some classes has for a method. -/
def nearestMethodName (table : Table) (lineage : List ClassName) (signature : MethodSignature) :
    MethodName :=
  let nearest := lineage.findSome? fun owner => (table.find? owner).bind (·.method? signature)
  (nearest.map MethodMapping.mapped).getD signature.name

/-- The fields that a class brings to the bottom of a lineage that starts with it. -/
def declaredFields (hierarchy : Hierarchy) (isBottom : Bool) (owner : ClassName) : List FieldSignature :=
  match hierarchy.find? owner with
  | none => []
  | some info => (info.fields.filter fun field => isBottom || !field.isPrivate).map FieldInfo.signature

/-- The methods that a class brings to the bottom of a lineage that starts with it. -/
def declaredMethods (hierarchy : Hierarchy) (isBottom : Bool) (owner : ClassName) :
    List MethodSignature :=
  match hierarchy.find? owner with
  | none => []
  | some info =>
    (info.methods.filter fun method => isBottom || method.isInheritable).map MethodInfo.signature

/-- Collects the fields declared along a lineage with their mapped names. Of several declarations of a
field the first one counts. -/
def collectFields (table : Table) (hierarchy : Hierarchy) (isBottom : Bool) :
    List ClassName → List (FieldSignature × FieldName) → List (FieldSignature × FieldName)
  | [], collected => collected
  | owner :: above, collected =>
    let named := (declaredFields hierarchy isBottom owner).foldl
      (fun found signature =>
        Assoc.addNew signature (table.nearestFieldName (owner :: above) signature) found) collected
    collectFields table hierarchy false above named

/-- Collects the methods declared along a lineage with their mapped names. Of several declarations of
a method the first one counts. -/
def collectMethods (table : Table) (hierarchy : Hierarchy) (isBottom : Bool) :
    List ClassName → List (MethodSignature × MethodName) → List (MethodSignature × MethodName)
  | [], collected => collected
  | owner :: above, collected =>
    let named := (declaredMethods hierarchy isBottom owner).foldl
      (fun found signature =>
        Assoc.addNew signature (table.nearestMethodName (owner :: above) signature) found) collected
    collectMethods table hierarchy false above named

/-- The fields that completing a class is about, with their mapped names. -/
def inheritedFields (table : Table) (hierarchy : Hierarchy) (name : ClassName) :
    List (FieldSignature × FieldName) :=
  table.collectFields hierarchy true (hierarchy.lineage name) []

/-- The methods that completing a class is about, with their mapped names. -/
def inheritedMethods (table : Table) (hierarchy : Hierarchy) (name : ClassName) :
    List (MethodSignature × MethodName) :=
  table.collectMethods hierarchy true (hierarchy.lineage name) []

/-- The members of a list that an entry does not have yet. -/
def missing {σ μ ν : Type} [DecidableEq σ] (known : List (σ × μ)) (members : List (σ × ν)) :
    List (σ × ν) :=
  members.filter fun member => !Assoc.contains member.1 known

/-- The class was completed before. -/
def isCompleted (table : Table) (name : ClassName) : Bool :=
  match table.find? name with
  | some entry => entry.completed
  | none => false

/-- A member with its mapped name, as an entry stores it: the mapping under its signature. -/
def storedAs {σ μ ν : Type} (mapping : σ → ν → μ) (member : σ × ν) : σ × μ :=
  (member.1, mapping member.1 member.2)

/-- Completes the entry of a class, which is added if it is missing. Completing a class again changes
nothing. -/
def complete (table : Table) (hierarchy : Hierarchy) (name : ClassName) : Noted Table :=
  if table.isCompleted name then
    pure table
  else
    let entry := table.entryOf name
    let fields := missing entry.fields (table.inheritedFields hierarchy name)
    let methods := missing entry.methods (table.inheritedMethods hierarchy name)
    { value := table.update name fun entry =>
        { entry with
          fields := entry.fields ++ fields.map (storedAs FieldMapping.mk)
          methods := entry.methods ++ methods.map (storedAs MethodMapping.mk)
          completed := true }
      log :=
        fields.map (fun field => ⟨.trace, .completion,
          "completing " ++ name.text ++ " with field " ++ field.1.text ++ " -> " ++ field.2.text⟩)
        ++ methods.map (fun method => ⟨.trace, .completion,
          "completing " ++ name.text ++ " with method " ++ method.1.text ++ " -> " ++ method.2.text⟩) }

end Table

end MixinLink
