import MixinLink.Table.Mapping
import MixinLink.Table.Walk

/-!
# Writing mapping text

Mapping text lists the classes by their obfuscated names, each with its renamed fields, by name and
descriptor, and its renamed methods, by descriptor and name. Nested classes stand on lines of their
own, with full names. Members that keep their names and fields whose type is open are left out, and so
is a class that keeps its name and has no member to list.

Main exports: `Tiny.write`.
-/

namespace MixinLink.Tiny

/-- The fields of an entry that are written, sorted. -/
def writtenFields (entry : ClassEntry) : List FieldMapping :=
  (entry.fieldMappings.filter fun field => field.isRenamed && field.signature.type.isSome).mergeSort
    fun a b => a.signature.precedes b.signature

/-- The methods of an entry that are written, sorted. -/
def writtenMethods (entry : ClassEntry) : List MethodMapping :=
  (entry.methodMappings.filter MethodMapping.isRenamed).mergeSort
    fun a b => a.signature.precedesByType b.signature

/-- The line of a field. -/
def fieldLine (field : FieldMapping) : String :=
  "\tf\t" ++ (field.signature.type.map FieldType.descriptor).getD "" ++ "\t" ++ field.signature.name.text
    ++ "\t" ++ field.mapped.text ++ "\n"

/-- The line of a method. -/
def methodLine (method : MethodMapping) : String :=
  "\tm\t" ++ method.signature.type.descriptor ++ "\t" ++ method.signature.name.text ++ "\t"
    ++ method.mapped.text ++ "\n"

/-- The lines of a class, none if there is nothing to tell about it. -/
def classLines (table : Table) (entry : ClassEntry) : Checked (List String) := do
  let fields := writtenFields entry
  let methods := writtenMethods entry
  let mapped ← table.mapClass entry.name
  if mapped = entry.name ∧ fields = [] ∧ methods = [] then
    return []
  else
    return ("c\t" ++ entry.name.text ++ "\t" ++ mapped.text ++ "\n")
      :: (fields.map fieldLine ++ methods.map methodLine)

/-- The lines of several classes. -/
def allClassLines (table : Table) : List ClassEntry → Checked (List String)
  | [] => .ok []
  | entry :: entries => do
    let first ← classLines table entry
    let others ← allClassLines table entries
    return first ++ others

/-- The header line. -/
def headerLine (namespaces : Namespaces) : String :=
  "tiny\t2\t0\t" ++ namespaces.obfuscated ++ "\t" ++ namespaces.deobfuscated ++ "\n"

/-- The classes of a table by their names. -/
def sortedClasses (table : Table) : List ClassEntry :=
  table.allClasses.mergeSort fun a b => a.name.precedes b.name

/-- Writes a table. -/
def write (table : Table) : Checked String := do
  let lines ← allClassLines table (sortedClasses table)
  return String.join (headerLine table.namespaces :: lines)

end MixinLink.Tiny
