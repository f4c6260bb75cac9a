import MixinLink.Diagnostic
import MixinLink.Linkage
import MixinLink.LiteralEdit
import MixinLink.Table.Basic

/-!
# Steps of remapping

A step of remapping reads and changes the mapping table, and puts out edits of string literals,
diagnostics and log entries. What a step puts out depends on the table only, never on what earlier
steps put out. An attempt is a step that can fail; what it did to the table and put out before it
failed stays.

Main exports: `Output`, `Remap`, `Attempt`, `Remap.edit`, `Remap.report`, `Attempt.orElse`.
-/

namespace MixinLink

/-- What remapping puts out, in the order in which it was found. -/
structure Output where
  edits : List LiteralEdit
  diagnostics : List Diagnostic
deriving DecidableEq

namespace Output

/-- Nothing. -/
def empty : Output :=
  ⟨[], []⟩

/-- First one output and then another. -/
def append (first second : Output) : Output :=
  ⟨first.edits ++ second.edits, first.diagnostics ++ second.diagnostics⟩

instance : Append Output := ⟨append⟩

end Output

/-- The end of a step. -/
structure Step (α : Type) where
  value : α
  table : Table
  output : Output
  log : List LogEntry

/-- A step of remapping. -/
def Remap (α : Type) : Type :=
  Table → Step α

namespace Remap

/-- Does nothing. -/
protected def pure {α : Type} (value : α) : Remap α :=
  fun table => ⟨value, table, .empty, []⟩

/-- One step after the other. -/
protected def bind {α β : Type} (first : Remap α) (next : α → Remap β) : Remap β :=
  fun table =>
    let a := first table
    let b := next a.value a.table
    ⟨b.value, b.table, a.output ++ b.output, a.log ++ b.log⟩

instance : Monad Remap where
  pure := Remap.pure
  bind := Remap.bind

/-- The table as it is now. -/
def table : Remap Table :=
  fun table => ⟨table, table, .empty, []⟩

/-- Changes the table. -/
def change (f : Table → Table) : Remap Unit :=
  fun table => ⟨(), f table, .empty, []⟩

/-- Takes the log entries of a result over. -/
def note {α : Type} (result : Noted α) : Remap α :=
  fun table => ⟨result.value, table, .empty, result.log⟩

/-- Writes a log entry. -/
def log (level : Level) (text : String) : Remap Unit :=
  note (Noted.write level .remapping text)

/-- Puts out a diagnostic, also to the log. -/
def report (diagnostic : Diagnostic) : Remap Unit :=
  fun table => ⟨(), table, ⟨[], [diagnostic]⟩, [⟨.warn, .remapping, diagnostic.text⟩]⟩

/-- Gives a literal another value. If it has that value already, nothing happens. -/
def edit (literal : StringLiteral) (after : String) : Remap Unit :=
  match LiteralEdit.plan? literal after with
  | none => pure ()
  | some edit => fun table =>
    ⟨(), table, ⟨[edit], []⟩,
      [⟨.trace, .remapping,
        "rewriting " ++ Text.shown edit.before ++ " at " ++ edit.span.text ++ " to "
          ++ Text.shown edit.after⟩]⟩

/-- Does a step for each item, from left to right. -/
def each {α : Type} (step : α → Remap Unit) : List α → Remap Unit
  | [] => pure ()
  | item :: rest => do
    step item
    each step rest

end Remap

/-- A step that can fail. -/
abbrev Attempt := ExceptT Failure Remap

namespace Attempt

/-- Something that can fail and does not concern the table. -/
def check {α : Type} (result : Checked α) : Attempt α :=
  ExceptT.mk (pure result)

/-- Something that can fail and notes what it passes over. -/
def read {α : Type} (reading : Reading α) : Attempt α :=
  ExceptT.mk (Remap.note reading.run)

/-- Makes an attempt for each item, from left to right, until one fails. -/
def each {α : Type} (attempt : α → Attempt Unit) : List α → Attempt Unit
  | [] => pure ()
  | item :: rest => do
    attempt item
    each attempt rest

/-- Makes an attempt, and does something else after it if it fails. -/
def orElse (attempt : Attempt Unit) (handle : Failure → Remap Unit) : Remap Unit := do
  match ← attempt.run with
  | .ok () => pure ()
  | .error failure => handle failure

end Attempt

end MixinLink
