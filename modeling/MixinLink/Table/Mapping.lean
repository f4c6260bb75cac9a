import MixinLink.Table.Basic

/-!
# Mapping classes and types

A class name is mapped part by part along its nesting: a part with an entry gets the mapped name of
that entry, a part without one stays. A class whose top level class has no entry is not mapped at all.
Types are mapped through the class names in them, and descriptors through their types.

Main exports: `Table.mapClass?`, `Table.mapClass`, `Table.mapFieldType`, `Table.mapMethodType`,
`Table.mapFieldDescriptor`, `Table.mapMethodDescriptor`.
-/

namespace MixinLink

/-- The mapped names along a path of keys. From the first missing entry on, the keys stay. -/
def ClassForest.mappedPath : ClassForest → List String → List String
  | nil, keys => keys
  | cons _ _ _ _, [] => []
  | cons key entry inner rest, k :: ks =>
    if key = k then entry.mapped :: inner.mappedPath ks else rest.mappedPath (k :: ks)

namespace Table

/-- The mapped name of a class, before it is checked. -/
def mappedText (table : Table) (name : ClassName) : String :=
  "$".intercalate (table.classes.mappedPath name.path)

/-- The mapped name of a class, `none` if its top level class has no entry. -/
def mapClass? (table : Table) (name : ClassName) : Checked (Option ClassName) :=
  match table.topNode? name.nesting.top with
  | none => .ok none
  | some _ =>
    match ClassName.parse (table.mappedText name) with
    | .ok mapped => .ok (some mapped)
    | .error failure => .error (failure.within (.mappedClass name.text))

/-- The mapped name of a class, which stays if there is none. -/
def mapClass (table : Table) (name : ClassName) : Checked ClassName :=
  match table.mapClass? name with
  | .ok (some mapped) => .ok mapped
  | .ok none => .ok name
  | .error failure => .error failure

/-- Maps the class of a base type. -/
def mapBaseType (table : Table) : BaseType → Checked BaseType
  | .primitive type => .ok (.primitive type)
  | .object name =>
    match table.mapClass name with
    | .ok mapped => .ok (.object mapped)
    | .error failure => .error failure

/-- Maps the class in a type. -/
def mapFieldType (table : Table) (type : FieldType) : Checked FieldType :=
  match table.mapBaseType type.base with
  | .ok base => .ok { type with base }
  | .error failure => .error failure

/-- Maps the classes in types, from left to right. -/
def mapFieldTypes (table : Table) : List FieldType → Checked (List FieldType)
  | [] => .ok []
  | type :: types => do
    let mapped ← table.mapFieldType type
    let others ← table.mapFieldTypes types
    return mapped :: others

/-- Maps the classes in a method type. -/
def mapMethodType (table : Table) (type : MethodType) : Checked MethodType := do
  let parameters ← table.mapFieldTypes type.parameters
  match type.result with
  | none => return { parameters, result := none }
  | some result =>
    let result ← table.mapFieldType result
    return { parameters, result := some result }

/-- Maps a field descriptor: it is read, and written again with its class mapped. -/
def mapFieldDescriptor (table : Table) (text : String) : Checked String := do
  let type ← FieldType.parse text
  let mapped ← table.mapFieldType type
  return mapped.descriptor

/-- Maps a method descriptor: it is read, and written again with its classes mapped. -/
def mapMethodDescriptor (table : Table) (text : String) : Checked String := do
  let type ← MethodType.parse text
  let mapped ← table.mapMethodType type
  return mapped.descriptor

end Table

end MixinLink
