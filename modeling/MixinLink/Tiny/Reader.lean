import MixinLink.Table.Basic
import MixinLink.Tiny.Level

/-!
# Reading mapping text

Mapping text starts with a header that names the format and two namespaces. After it come class lines
without indentation, each followed by the lines of its members with one tab; lines of other kinds, and
everything below the lines of members, are passed over. A line may be indented by at most one tab more
than the line before it. When the level without indentation ends, no line may be left.

Main exports: `Tiny.read`, `Tiny.readText`, `Tiny.readBytes`.
-/

namespace MixinLink.Tiny

namespace Line

/-- Takes the next field off a line. -/
def next (line : Line) : Checked (String × Line) :=
  match line.rest with
  | [] => Checked.refuse (.missingField line)
  | field :: rest => .ok (field, { line with rest })

/-- Reads the last two fields of a line: an obfuscated name and a deobfuscated name. The latter may be
missing or empty. -/
def names {α : Type} (parse : String → Checked α) (line : Line) : Checked (α × Option α) := do
  let (first, line) ← line.next
  let obfuscated ← Checked.within (.obfuscatedName line.number) (parse first)
  let deobfuscated ←
    match line.rest.head? with
    | none => pure none
    | some second =>
      if second = "" then pure none
      else some <$> Checked.within (.deobfuscatedName line.number) (parse second)
  if line.rest.length ≤ 1 then
    return (obfuscated, deobfuscated)
  else
    Checked.refuse (.extraFields { line with rest := line.rest.drop 1 })

end Line

/-- The name that an entry gets from the deobfuscated name on a class line: the whole name for a top
level class, the part after the last separating `$` or else after the package for a nested one. -/
def mappedPart (entry : ClassEntry) (deobfuscated : ClassName) : String :=
  if entry.name.isInner then
    match deobfuscated.nesting.inner.getLast? with
    | some simple => simple.text
    | none => deobfuscated.unpackaged
  else
    deobfuscated.text

/-- Reads the class of a class line into a table. -/
def readClass (table : Table) (line : Line) : Checked (ClassName × Table) := do
  let (name, deobfuscated) ← line.names ClassName.parse
  match deobfuscated with
  | none => return (name, table.update name id)
  | some deobfuscated =>
    let entry := table.entryOf name
    let renamed ← entry.rename (mappedPart entry deobfuscated)
    return (name, table.update name fun entry => { entry with mapped := renamed.mapped })

/-- Reads a member line below a class line into a table. Lines of other kinds change nothing. -/
def readMember (table : Table) (owner : ClassName) (line : Line) : Checked Table := do
  if line.head = "f" then
    let (descriptor, line) ← line.next
    let type ← FieldType.parse descriptor
    let (name, deobfuscated) ← line.names FieldName.parse
    let signature : FieldSignature := ⟨name, some type⟩
    match deobfuscated with
    | none => return table.update owner (·.touchField signature)
    | some deobfuscated => return table.update owner (·.mapField signature deobfuscated)
  else if line.head = "m" then
    let (descriptor, line) ← line.next
    let type ← MethodType.parse descriptor
    let (name, deobfuscated) ← line.names MethodName.parse
    let signature : MethodSignature := ⟨name, type⟩
    match deobfuscated with
    | none => return table.update owner (·.touchMethod signature)
    | some deobfuscated => return table.update owner (·.mapMethod signature deobfuscated)
  else
    return table

/-- Reads the lines below a class line. -/
def readMembers (owner : ClassName) (level : Level) (table : Table) :
    Checked (Remainder Table level.lines) :=
  level.forEachLine (fun after _ table line => do
    let table ← readMember table owner line
    let below ← after.nested.skipAll
    return below.withState table) table

/-- Reads the lines without indentation, each with the lines below it. -/
def readClasses (level : Level) (table : Table) : Checked (Remainder Table level.lines) :=
  level.forEachLine (fun after _ table line =>
    if line.head = "c" then do
      let (name, table) ← readClass table line
      Checked.within .classSections (readMembers name after.nested table)
    else do
      let below ← after.nested.skipAll
      return below.withState table) table

/-- Reads the header line. -/
def readHeader (line : Line) : Checked Namespaces := do
  if line.head = "tiny" then
    let (major, line) ← line.next
    if major = "2" then
      let (minor, line) ← line.next
      if minor = "0" then
        Checked.within (.onLine line.number) (Namespaces.ofList line.rest)
      else
        Checked.refuse (.headerVersion line)
    else
      Checked.refuse (.headerVersion line)
  else
    Checked.refuse (.headerVersion line)

/-- Reads lines into a table. -/
def read : List (Option Line) → Checked Table
  | [] => Checked.refuse .noHeader
  | none :: _ => Checked.refuse .notUtf8
  | some header :: lines => do
    let namespaces ← readHeader header
    let left ← Checked.within .allLines (readClasses ⟨0, lines⟩ (.empty namespaces))
    match left.rest with
    | [] => return left.state
    | line :: _ => Checked.refuse (.expectedEnd line)

/-- Numbers lines, counted from the given number on. -/
def numberLines (number : Nat) : List (Option String) → List (Option Line)
  | [] => []
  | text :: texts => text.map (Line.ofText number) :: numberLines (number + 1) texts

/-- Reads a text. -/
def readText (text : String) : Checked Table :=
  read (numberLines 1 ((textLines text.toList).map fun line => some (String.ofList line)))

/-- Reads a text given by its bytes. -/
def readBytes (bytes : List UInt8) : Checked Table :=
  read (numberLines 1 (byteLines bytes))

end MixinLink.Tiny
