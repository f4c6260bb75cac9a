import MixinLink.Cleaning
import MixinLink.Exchange.Encode
import MixinLink.Remapping.Units

/-!
# The report of a run

For every source file the report lists the literal edits, the annotation edits if there are any, and
the diagnostics.

Main exports: `UnitReport`, `reportUnits`, `reportJson`.
-/

namespace MixinLink.CommandLine

/-- What was found for a source file. -/
structure UnitReport where
  /-- The file that the declarations were read from. -/
  file : String
  /-- The path of the source file itself. -/
  path : String
  edits : List LiteralEdit
  sourceEdits : List SourceEdit
  diagnostics : List Diagnostic

/-- The report of a source file as JSON. -/
def UnitReport.toJson (report : UnitReport) : Json :=
  .object
    ([("file", .string report.file), ("path", .string report.path),
      ("instructions", .ofList LiteralEdit.toJson report.edits)]
    ++ (if report.sourceEdits.isEmpty then []
        else [("edits", .ofList SourceEdit.toJson report.sourceEdits)])
    ++ [("diagnostics", .ofList Diagnostic.toJson report.diagnostics)])

/-- The report of a run as JSON. -/
def reportJson (reports : List UnitReport) : Json :=
  .object [("units", .ofList UnitReport.toJson reports)]

/-- What cleaning adds to the report of a source file. -/
def cleanIf (clean : Bool) (hierarchy : Hierarchy) (unit : SourceUnit) : Noted CleanOutput :=
  if clean then cleanUnit hierarchy unit else return ⟨[], []⟩

/-- Reports source files, each given by its file, its declarations and what remapping put out. -/
def reportUnits (clean : Bool) (hierarchy : Hierarchy) :
    List ((String × SourceUnit) × Output) → Noted (List UnitReport)
  | [] => return []
  | ((file, unit), output) :: rest => do
    let cleaned ← cleanIf clean hierarchy unit
    let others ← reportUnits clean hierarchy rest
    let report : UnitReport :=
      { file
        path := unit.path
        edits := output.edits
        sourceEdits := cleaned.edits
        diagnostics := output.diagnostics ++ cleaned.diagnostics }
    return report :: others

end MixinLink.CommandLine
