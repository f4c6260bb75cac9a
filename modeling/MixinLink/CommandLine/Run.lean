import MixinLink.CommandLine.Files
import MixinLink.CommandLine.Options
import MixinLink.CommandLine.Report
import MixinLink.Exchange.Decode
import MixinLink.Json.Printer
import MixinLink.Tiny.Reader
import MixinLink.Tiny.Writer

/-!
# A run of the command line

A run reads the mappings, the known classes and the source files, remaps all source files, and writes
the report and, if asked for, the mappings. The first failure ends the run; what was printed and
written before it stays.

Main exports: `CommandLine.Session`, `CommandLine.Batch`, `CommandLine.run`, `CommandLine.Exit`,
`CommandLine.execute`.
-/

namespace MixinLink.CommandLine

/-- What a run has printed so far. -/
structure Session where
  log : List LogEntry
  printed : String

/-- A part of a run that can fail. -/
abbrev Batch (m : Type → Type) := ExceptT Failure (StateT Session m)

namespace Batch

variable {m : Type → Type} [Monad m]

/-- An operation on files. -/
def file {α : Type} (operation : m α) : Batch m α :=
  ExceptT.lift (StateT.lift operation)

/-- Something that can fail. -/
def check {α : Type} (result : Checked α) : Batch m α :=
  ExceptT.mk (pure result)

/-- Takes the log entries of a result over. -/
def note {α : Type} (result : Noted α) : Batch m α := do
  modify fun session => { session with log := session.log ++ result.log }
  return result.value

/-- Tells how the run goes. -/
def inform (text : String) : Batch m Unit :=
  note (Noted.write .info .commandLine text)

/-- Prints to the standard output. -/
def print (text : String) : Batch m Unit :=
  modify fun session => { session with printed := session.printed ++ text }

end Batch

variable {m : Type → Type} [Monad m]

/-- Decodes the JSON text in some bytes. -/
def decodeBytes {α : Type} (decode : Json.Form → Json → Checked α) (bytes : ByteArray) : Checked α :=
  match String.fromUTF8? bytes with
  | some text => Json.parseWith decode text
  | none => Checked.refuse .notUtf8

/-- Reads the mappings. -/
def readMappings (files : Files m) (path : String) : Batch m Table := do
  match ← Batch.file (files.read path) with
  | .closed failure => Batch.check (.error failure)
  | .unreadable failure => Batch.check (Checked.within (.mappingsFile path) (.error failure))
  | .bytes bytes =>
    Batch.check (Checked.within (.mappingsFile path) (Tiny.readBytes bytes.toList))

/-- Reads a file with JSON text. -/
def readJson {α : Type} (files : Files m) (decode : Json.Form → Json → Checked α)
    (opening reading : Context) (path : String) : Batch m α := do
  match ← Batch.file (files.read path) with
  | .closed failure => Batch.check (Checked.within opening (.error failure))
  | .unreadable failure => Batch.check (Checked.within reading (.error failure))
  | .bytes bytes => Batch.check (Checked.within reading (decodeBytes decode bytes))

/-- Reads the known classes. -/
def readClasses (files : Files m) : Option String → Batch m Hierarchy
  | none => return .empty
  | some path => do
    let decode := fun _ => Json.asList ClassInfo.ofJson
    let infos ← readJson files decode (.openClasses path) (.readClasses path) path
    return .ofList infos

/-- Reads source files one after the other. -/
def readUnits (files : Files m) : List String → Batch m (List (String × SourceUnit))
  | [] => return []
  | path :: rest => do
    let unit ← readJson files SourceUnit.ofJson (.openSource path) (.readSource path) path
    let others ← readUnits files rest
    return (path, unit) :: others

/-- Prints the report, or writes it to a file. -/
def writeReport (files : Files m) (reports : List UnitReport) : Option String → Batch m Unit
  | none => Batch.print ((reportJson reports).pretty ++ "\n")
  | some path => do
    let result ← Batch.file (files.write path (reportJson reports).pretty)
    Batch.check (Checked.within (.createReport path) result)

/-- Writes the mappings to a file, if asked for. -/
def writeMappings (files : Files m) (table : Table) : Option String → Batch m Unit
  | none => return ()
  | some path => do
    let created ← Batch.file (files.write path "")
    Batch.check (Checked.within (.createMappings path) created)
    let text ← Batch.check (Checked.within (.writeMappings path) (Tiny.write table))
    let written ← Batch.file (files.write path text)
    Batch.check (Checked.within (.writeMappings path) written)
    Batch.inform ("wrote mappings to " ++ Text.shown path)

/-- Carries out a run. -/
def run (files : Files m) (options : Options) : Batch m Unit := do
  let table ← readMappings files options.mappings
  Batch.check (table.namespaces.requireNames [options.fromNamespace, options.toNamespace])
  let hierarchy ← readClasses files options.classes
  let tree ← Batch.file (files.tree options.input)
  let tree ← Batch.check (Checked.within (.searchSources options.input) tree)
  let units ← readUnits files (sourceFiles options.input tree)
  let known := hierarchy.classes.length
  let count := units.length
  Batch.inform s!"read {count} source files and {known} classes"
  let (outputs, table) ← Batch.note (remapPasses hierarchy table (units.map (·.2)) options.passes)
  let reports ← Batch.note (reportUnits options.clean hierarchy (units.zip outputs))
  let edits := (reports.flatMap UnitReport.edits).length
  let diagnostics := (reports.flatMap UnitReport.diagnostics).length
  Batch.inform s!"{edits} rewrites and {diagnostics} diagnostics in {count} source files"
  writeReport files reports options.output
  writeMappings files table options.writeMappings

/-- The end of the program. -/
structure Exit where
  code : Nat
  printed : String
  /-- The log entries that are printed. -/
  log : List LogEntry
  failure : Option Failure

/-- The name and version of the program. -/
def versionText : String :=
  "mixin-remapper 0.1.0\n"

/-- How to use the program. -/
def usageText : String :=
  "Remaps the string references inside mixin classes from one namespace to another\n\n"
    ++ "Usage: mixin-remapper [OPTIONS] --mappings <FILE> <INPUT>\n\n"
    ++ "Arguments:\n"
    ++ "  <INPUT>  A source file as json, or a directory to search for such files\n\n"
    ++ "Options:\n"
    ++ "  -m, --mappings <FILE>        The mappings to use, in the tiny v2 format\n"
    ++ "      --from <FROM>            The namespace the mixin classes are written against [default: official]\n"
    ++ "      --to <TO>                The namespace to remap to [default: named]\n"
    ++ "      --classes <FILE>         A json list of classes, for resolving inherited members\n"
    ++ "      --passes <PASSES>        How many times to run over all source files [default: 1]\n"
    ++ "      --clean                  Also find `@Final` and `@Mutable` annotations that need adding or removing\n"
    ++ "  -o, --output <FILE>          Where to write the json report to. Defaults to stdout\n"
    ++ "      --write-mappings <FILE>  Writes the mappings, including the ones for the mixin classes, to this file\n"
    ++ "  -v, --verbose...\n"
    ++ "  -q, --quiet\n"
    ++ "  -h, --help                   Print help\n"
    ++ "  -V, --version                Print version\n"

/-- Does what the arguments ask for. -/
def execute (files : Files m) (arguments : List String) : m Exit := do
  match parse arguments with
  | .version => return ⟨0, versionText, [], none⟩
  | .help => return ⟨0, usageText, [], none⟩
  | .misuse => return ⟨2, "", [], none⟩
  | .run options =>
    let (result, session) ← (run files options).run.run ⟨[], ""⟩
    let log := session.log.filter (·.isShown options.level)
    match result with
    | .ok () => return ⟨0, session.printed, log, none⟩
    | .error failure => return ⟨1, session.printed, log, some failure⟩

end MixinLink.CommandLine
