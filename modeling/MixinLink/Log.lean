/-!
# The log

While working, the library tells what it does in log entries, each with a level and the part of the
program it comes from. Nothing is printed: a result carries its entries along, and whoever prints them
chooses the level.

Main exports: `Level`, `Origin`, `LogEntry`, `Noted`.
-/

namespace MixinLink

/-- How important a log entry is. -/
inductive Level where
  | error
  | warn
  | info
  | debug
  | trace
deriving Repr, DecidableEq

/-- The part of the program that a log entry comes from. -/
inductive Origin where
  | commandLine
  | remapping
  | linkage
  | cleaning
  | completion
deriving Repr, DecidableEq

/-- Something worth telling. -/
structure LogEntry where
  level : Level
  origin : Origin
  text : String
deriving Repr, DecidableEq

namespace Level

/-- The name of a level. -/
def label : Level → String
  | error => "ERROR"
  | warn => "WARN"
  | info => "INFO"
  | debug => "DEBUG"
  | trace => "TRACE"

/-- The position of a level, the most important first. -/
def rank : Level → Nat
  | error => 0
  | warn => 1
  | info => 2
  | debug => 3
  | trace => 4

end Level

/-- The name under which an origin appears in the log. -/
def Origin.label : Origin → String
  | commandLine => "mixin_remapper"
  | remapping => "dukemixin::engine"
  | linkage => "dukemixin::linkage"
  | cleaning => "dukemixin::cleaner"
  | completion => "quill::completion"

namespace LogEntry

/-- The entry is at least as important as the level. -/
def isShown (threshold : Level) (entry : LogEntry) : Bool :=
  entry.level.rank ≤ threshold.rank

/-- The entry as it is printed. -/
def render (entry : LogEntry) : String :=
  "[" ++ entry.level.label ++ " " ++ entry.origin.label ++ "] " ++ entry.text

end LogEntry

/-- A result together with the log entries written on the way to it. -/
structure Noted (α : Type) where
  value : α
  log : List LogEntry

namespace Noted

instance : Monad Noted where
  pure value := ⟨value, []⟩
  bind first next :=
    let second := next first.value
    ⟨second.value, first.log ++ second.log⟩

/-- The value of a plain value. -/
@[simp]
theorem value_pure {α : Type} (value : α) : (pure value : Noted α).value = value := rfl

/-- A plain value has no entries. -/
@[simp]
private theorem log_pure {α : Type} (value : α) : (pure value : Noted α).log = [] := rfl

/-- The value of two steps is that of the second. -/
@[simp]
theorem value_bind {α β : Type} (first : Noted α) (next : α → Noted β) :
    (first >>= next).value = (next first.value).value := rfl

/-- The entries of two steps come one after the other. -/
@[simp]
private theorem log_bind {α β : Type} (first : Noted α) (next : α → Noted β) :
    (first >>= next).log = first.log ++ (next first.value).log := rfl

/-- Writes one entry. -/
def write (level : Level) (origin : Origin) (text : String) : Noted Unit :=
  ⟨(), [⟨level, origin, text⟩]⟩

end Noted

end MixinLink
