import MixinLink.Name.Nesting
import MixinLink.Namespaces
import MixinLink.Signature
import MixinLink.Table.Assoc

/-!
# The mapping table

The table holds an entry for every class that has something mapped, with the mapped name of the class
and of its fields and methods. Nested classes are stored below the class around them, so the entries
form a forest. Entries are never removed, and every level keeps the order in which they were added.

A top level class is stored under its full name, a nested class under its simple name; likewise the
mapped name of a top level class is a full name and that of a nested class is a simple name.

Main exports: `ClassEntry`, `ClassForest`, `Table`, `Table.find?`, `Table.access?`, `Table.update`,
`Table.literalNode?`, `Table.resolveField`, `ClassEntry.rename`.
-/

namespace MixinLink

/-- The mapping of a field. -/
structure FieldMapping where
  signature : FieldSignature
  mapped : FieldName
deriving DecidableEq

/-- The mapping of a method. -/
structure MethodMapping where
  signature : MethodSignature
  mapped : MethodName
deriving DecidableEq

namespace FieldMapping

/-- The mapping of a field that keeps its name. -/
def identity (signature : FieldSignature) : FieldMapping :=
  ⟨signature, signature.name⟩

/-- The field has another name than before. -/
def isRenamed (mapping : FieldMapping) : Bool :=
  mapping.mapped ≠ mapping.signature.name

end FieldMapping

namespace MethodMapping

/-- The mapping of a method that keeps its name. -/
def identity (signature : MethodSignature) : MethodMapping :=
  ⟨signature, signature.name⟩

/-- The method has another name than before. -/
def isRenamed (mapping : MethodMapping) : Bool :=
  mapping.mapped ≠ mapping.signature.name

end MethodMapping

/-- What is known about one class. -/
structure ClassEntry where
  /-- The full obfuscated name. -/
  name : ClassName
  /-- The deobfuscated name: a full name for top level classes, a simple name for nested ones. -/
  mapped : String
  /-- The mappings of fields, each under the signature that it is looked up by. -/
  fields : List (FieldSignature × FieldMapping)
  /-- The mappings of methods, each under the signature that it is looked up by. -/
  methods : List (MethodSignature × MethodMapping)
  /-- The inherited members were added. -/
  completed : Bool
deriving DecidableEq

/-- Class entries with the entries nested in them: the first entry with its key, what is nested in it,
and the entries after it. -/
inductive ClassForest where
  | nil
  | cons (key : String) (entry : ClassEntry) (inner rest : ClassForest)
deriving DecidableEq

/-- A mapping table. -/
structure Table where
  namespaces : Namespaces
  classes : ClassForest
deriving DecidableEq

namespace ClassEntry

/-- An entry that keeps the name of the class, stored under the given key. -/
def fresh (name : ClassName) (key : String) : ClassEntry :=
  { name, mapped := key, fields := [], methods := [], completed := false }

/-- The class has another name than before. -/
def isRenamed (entry : ClassEntry) : Bool :=
  entry.mapped ≠ entry.name.key

/-- A character that may not stand in the mapped name of a nested class. -/
def isReserved (c : Char) : Bool :=
  c = '$' || c = '/' || c = '.' || c = ';' || c = '['

/-- Checks a mapped name: a full name for a top level class, one simple name without `$` for a nested
class. -/
def checkMapped (entry : ClassEntry) (mapped : String) : Checked Unit :=
  if entry.name.isInner then
    if mapped.toList.isEmpty || mapped.toList.any isReserved then
      Checked.refuse (.invalidMappedName mapped entry.name.text)
    else
      .ok ()
  else
    ClassName.check mapped

/-- Gives the class a mapped name, if it is a valid one. -/
def rename (entry : ClassEntry) (mapped : String) : Checked ClassEntry := do
  entry.checkMapped mapped
  return { entry with mapped }

/-- The fields as mappings, in table order. -/
def fieldMappings (entry : ClassEntry) : List FieldMapping :=
  entry.fields.map (·.2)

/-- The methods as mappings, in table order. -/
def methodMappings (entry : ClassEntry) : List MethodMapping :=
  entry.methods.map (·.2)

/-- The mapping under exactly this signature. -/
def field? (entry : ClassEntry) (signature : FieldSignature) : Option FieldMapping :=
  Assoc.find? signature entry.fields

/-- The mapping under exactly this signature. There is no weaker look-up: only the type tells overloads
apart. -/
def method? (entry : ClassEntry) (signature : MethodSignature) : Option MethodMapping :=
  Assoc.find? signature entry.methods

/-- All mappings of fields with a name. -/
def fieldsNamed (entry : ClassEntry) (name : FieldName) : List FieldMapping :=
  entry.fieldMappings.filter (·.signature.name = name)

/-- All mappings of methods with a name. -/
def methodsNamed (entry : ClassEntry) (name : MethodName) : List MethodMapping :=
  entry.methodMappings.filter (·.signature.name = name)

/-- Adds a field that keeps its name, unless it has a mapping. -/
def touchField (entry : ClassEntry) (signature : FieldSignature) : ClassEntry :=
  { entry with fields := Assoc.upsert signature (.identity signature) id entry.fields }

/-- Adds a method that keeps its name, unless it has a mapping. -/
def touchMethod (entry : ClassEntry) (signature : MethodSignature) : ClassEntry :=
  { entry with methods := Assoc.upsert signature (.identity signature) id entry.methods }

/-- Maps a field to a name. -/
def mapField (entry : ClassEntry) (signature : FieldSignature) (mapped : FieldName) : ClassEntry :=
  { entry with fields := Assoc.upsert signature (.identity signature) ({ · with mapped }) entry.fields }

/-- Maps a method to a name. -/
def mapMethod (entry : ClassEntry) (signature : MethodSignature) (mapped : MethodName) : ClassEntry :=
  { entry with methods := Assoc.upsert signature (.identity signature) ({ · with mapped }) entry.methods }

/-- Looks up a field with partial knowledge, and gives the entry as it is afterwards.

Without a type, the first field of that name is meant. With a type, it is the field itself; else the
mapping of that name that leaves the type open, which is then added for the full signature as well;
else the only field of that name. -/
def resolveField (entry : ClassEntry) (signature : FieldSignature) : Option FieldMapping × ClassEntry :=
  if signature.type = none then
    ((entry.fieldsNamed signature.name).head?, entry)
  else
    match entry.field? signature with
    | some mapping => (some mapping, entry)
    | none =>
      match entry.field? signature.withoutType with
      | some untyped =>
        let mapping : FieldMapping := ⟨signature, untyped.mapped⟩
        (some mapping, { entry with fields := entry.fields ++ [(signature, mapping)] })
      | none =>
        match entry.fieldsNamed signature.name with
        | [only] => (some only, entry)
        | _ => (none, entry)

end ClassEntry

namespace ClassForest

/-- The entry under a path of keys, with what is nested in it. -/
def find? : ClassForest → List String → Option (ClassEntry × ClassForest)
  | nil, _ => none
  | cons _ _ _ _, [] => none
  | cons key entry inner rest, k :: ks =>
    if key = k then
      match ks with
      | [] => some (entry, inner)
      | _ :: _ => find? inner ks
    else
      find? rest (k :: ks)

/-- Entries that keep their names along a trail of classes, the last of them changed. -/
def chain (change : ClassEntry → ClassEntry) : List (String × ClassName) → ClassForest
  | [] => nil
  | [(key, name)] => cons key (change (.fresh name key)) nil nil
  | (key, name) :: rest => cons key (.fresh name key) (chain change rest) nil

/-- Changes the entry at the end of a trail of classes. Entries that are missing on the way are added
first, each keeping its name. -/
def update (change : ClassEntry → ClassEntry) : List (String × ClassName) → ClassForest → ClassForest
  | trail, nil => chain change trail
  | [], forest => forest
  | (k, name) :: ks, cons key entry inner rest =>
    if key = k then
      match ks with
      | [] => cons key (change entry) inner rest
      | _ :: _ => cons key entry (update change ks inner) rest
    else
      cons key entry inner (update change ((k, name) :: ks) rest)

/-- Takes hold of the entry under a path of keys, if there is one: gives what is made of it, and the forest
with the entry as it was left. -/
def access? {α : Type} (use : ClassEntry → α × ClassEntry) :
    ClassForest → List String → Option (α × ClassForest)
  | nil, _ => none
  | cons _ _ _ _, [] => none
  | cons key entry inner rest, k :: ks =>
    if key = k then
      match ks with
      | [] => some ((use entry).1, cons key (use entry).2 inner rest)
      | _ :: _ => (access? use inner ks).map fun result => (result.1, cons key entry result.2 rest)
    else
      (access? use rest (k :: ks)).map fun result => (result.1, cons key entry inner result.2)

/-- The keys on the first level. -/
def keys : ClassForest → List String
  | nil => []
  | cons key _ _ rest => key :: rest.keys

end ClassForest

namespace Table

/-- A table without entries. -/
def empty (namespaces : Namespaces) : Table :=
  { namespaces, classes := .nil }

/-- The entry of a class, with what is nested in it. -/
def node? (table : Table) (name : ClassName) : Option (ClassEntry × ClassForest) :=
  table.classes.find? name.path

/-- The entry of a class. -/
def find? (table : Table) (name : ClassName) : Option ClassEntry :=
  (table.node? name).map (·.1)

/-- The entry of a class, or else the one that it would get: an entry that keeps the name. -/
def entryOf (table : Table) (name : ClassName) : ClassEntry :=
  (table.find? name).getD (.fresh name name.key)

/-- Takes hold of the entry of a class, if there is one: gives what is made of it, and the table with the
entry as it was left. -/
def access? {α : Type} (table : Table) (name : ClassName) (use : ClassEntry → α × ClassEntry) :
    Option (α × Table) :=
  (table.classes.access? use name.path).map fun result => (result.1, { table with classes := result.2 })

/-- The entry stored on the top level under a full name, with what is nested in it. -/
def topNode? (table : Table) (name : ClassName) : Option (ClassEntry × ClassForest) :=
  table.classes.find? [name.text]

/-- The class that a piece of source code means, written with dots or slashes: a top level class of
that name if there is one, else a nested one. -/
def literalNode? (table : Table) (literal : String) : Option (ClassEntry × ClassForest) :=
  match ClassName.parseDotted literal with
  | .error _ => none
  | .ok name => (table.topNode? name).or (table.node? name)

/-- Changes the entry of a class, which is added first if it is missing, along with the classes
around it. -/
def update (table : Table) (name : ClassName) (change : ClassEntry → ClassEntry) : Table :=
  { table with classes := table.classes.update change name.trail }

/-- Looks up a field of a class with partial knowledge, and gives the table as it is afterwards. -/
def resolveField (table : Table) (owner : ClassName) (signature : FieldSignature) :
    Option FieldMapping × Table :=
  match table.find? owner with
  | none => (none, table)
  | some entry =>
    ((entry.resolveField signature).1,
      table.update owner fun entry => (entry.resolveField signature).2)

/-- The mapping of a method of a class. -/
def method? (table : Table) (owner : ClassName) (signature : MethodSignature) : Option MethodMapping :=
  (table.find? owner).bind (·.method? signature)

end Table

end MixinLink
