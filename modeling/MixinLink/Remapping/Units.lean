import MixinLink.Remapping.Members

/-!
# Remapping source files

A class with a `@Mixin` is remapped if something is known about at least one of its targets. Its
fields come first and then its methods. A source file is remapped class by class, nested classes right
after the class around them; what one class adds to the table is there for the next one. Running over
all files several times lets mixins see what later ones add.

Main exports: `remapMixin`, `remapClass`, `remapUnit`, `remapUnits`, `remapPasses`.
-/

namespace MixinLink

/-- Edits the strings that name targets of a mixin. -/
def remapPrivateTarget (target : ParsedLiteral ClassReference) : Attempt Unit := do
  match target.parsed with
  | none => return ()
  | some reference =>
    let table ← Remap.table
    match table.literalNode? target.literal.value with
    | none => return ()
    | some (entry, _) =>
      let mapped ← Attempt.check (table.mapClass entry.name)
      Remap.edit target.literal (reference.write mapped)

/-- The targets that something is known about, their entries completed. -/
def knownTargets (hierarchy : Hierarchy) (className : ClassName) :
    List ClassName → Remap (List ClassName)
  | [] => return []
  | target :: rest => do
    if ← resolveClass hierarchy target then
      let others ← knownTargets hierarchy className rest
      return target :: others
    else
      Remap.log .trace s!"{className}: nothing known about target {target}"
      knownTargets hierarchy className rest

/-- The interfaces that a mixin class softly implements. If they cannot be read, that is reported. -/
def softInterfaces (decl : ClassDecl) : Remap (List InterfaceData) := do
  match InterfaceData.ofClass? decl with
  | .ok interfaces => return interfaces.getD []
  | .error failure =>
    reportMalformed decl.name none failure
    return []

/-- Remaps the members of a mixin class with known targets. -/
def remapMembers (hierarchy : Hierarchy) (decl : ClassDecl) (targets : List ClassName) : Remap Unit := do
  let interfaces ← softInterfaces decl
  Remap.each (fun field => remapField ⟨decl.name, field.signature.text, targets⟩ field) decl.fields
  Remap.each
    (fun method => remapMethod hierarchy ⟨decl.name, method.signature.text, targets⟩ interfaces method)
    decl.methods

/-- Remaps a class, if it is a mixin. Classes nested in it are left alone. -/
def remapMixin (hierarchy : Hierarchy) (decl : ClassDecl) : Attempt Unit := do
  match ← Attempt.read (MixinData.ofClass? decl) with
  | none => return ()
  | some mixin =>
    Attempt.each remapPrivateTarget mixin.privateTargets
    match ← knownTargets hierarchy decl.name mixin.targetNames with
    | [] => Remap.log .debug s!"skipping mixin {decl.name}: none of its targets is known"
    | targets => remapMembers hierarchy decl targets

/-- Remaps a class, and reports if its `@Mixin` is malformed. -/
def remapOne (hierarchy : Hierarchy) (decl : ClassDecl) : Remap Unit :=
  (remapMixin hierarchy decl).orElse (reportMalformed decl.name none)

/-- Remaps a class and the classes nested in it. -/
def remapClass (hierarchy : Hierarchy) (decl : ClassDecl) : Remap Unit :=
  Remap.each (remapOne hierarchy) decl.walk

/-- What remapping a source file puts out, and the table afterwards. -/
def remapUnit (hierarchy : Hierarchy) (table : Table) (unit : SourceUnit) : Noted (Output × Table) :=
  let step := Remap.each (remapOne hierarchy) unit.walk table
  let edits := step.output.edits.length
  let diagnostics := step.output.diagnostics.length
  { value := (step.output, step.table)
    log := step.log ++
      [⟨.debug, .remapping, s!"{unit.path}: {edits} rewrites, {diagnostics} diagnostics"⟩] }

/-- Remaps source files one after the other. -/
def remapUnits (hierarchy : Hierarchy) (table : Table) : List SourceUnit → Noted (List Output × Table)
  | [] => return ([], table)
  | unit :: rest => do
    let (output, table) ← remapUnit hierarchy table unit
    let (outputs, table) ← remapUnits hierarchy table rest
    return (output :: outputs, table)

/-- Runs over all source files as many times as remain of the total, and gives what the last pass puts
out. -/
def runPasses (hierarchy : Hierarchy) (units : List SourceUnit) (total : Nat) :
    Nat → List Output → Table → Noted (List Output × Table)
  | 0, outputs, table => return (outputs, table)
  | remaining + 1, _, table => do
    let (outputs, table) ← remapUnits hierarchy table units
    let edits := (outputs.flatMap Output.edits).length
    Noted.write .debug .commandLine s!"pass {total - remaining} of {total}: {edits} rewrites"
    runPasses hierarchy units total remaining outputs table

/-- Runs over all source files several times, and gives what the last pass puts out. -/
def remapPasses (hierarchy : Hierarchy) (table : Table) (units : List SourceUnit) (passes : Nat) :
    Noted (List Output × Table) :=
  runPasses hierarchy units passes passes [] table

end MixinLink
