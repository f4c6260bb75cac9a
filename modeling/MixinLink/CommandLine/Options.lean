import MixinLink.Log
import MixinLink.Text.Split

/-!
# Command line options

Options have a long form `--name`, some also a short form of one letter. The value of an option follows
as the next argument, after `=`, or right after the letter; letters without values can be put together.
After `--` there are no more options. No option but `-v` may be repeated.

The arguments are read from left to right. What cannot be used ends the reading, and so does asking for
the version or for help; that something is missing shows only at the end.

Main exports: `CommandLine.Options`, `CommandLine.Request`, `CommandLine.parse`.
-/

namespace MixinLink.CommandLine

/-- What a run is to do. -/
structure Options where
  /-- The file with the mappings. -/
  mappings : String
  /-- The namespace that the sources are written against. -/
  fromNamespace : String
  /-- The namespace to map to. -/
  toNamespace : String
  /-- The file with the known classes. -/
  classes : Option String
  /-- How many times to run over the sources. -/
  passes : Nat
  /-- Also clean the mixin classes. -/
  clean : Bool
  /-- Where the report goes, standard output if there is none. -/
  output : Option String
  /-- Where the mappings go after the run. -/
  writeMappings : Option String
  verbosity : Nat
  quiet : Bool
  /-- A source file, or a directory to search for source files. -/
  input : String
deriving Repr, DecidableEq

/-- What the arguments ask for. -/
inductive Request where
  | run (options : Options)
  | version
  | help
  /-- The arguments cannot be used. -/
  | misuse
deriving Repr, DecidableEq

/-- The level of log entries that are printed. -/
def Options.level (options : Options) : Level :=
  if options.quiet then .error
  else
    match options.verbosity with
    | 0 => .warn
    | 1 => .info
    | 2 => .debug
    | _ => .trace

/-- An option with a value. -/
inductive ValueOption where
  | mappings
  | fromNamespace
  | toNamespace
  | classes
  | passes
  | output
  | writeMappings
deriving Repr, DecidableEq

/-- An option without a value. -/
inductive Switch where
  | clean
  | verbose
  | quiet
  | help
  | version
deriving Repr, DecidableEq

/-- The option with a value that a long name means. -/
def valueOption? : String → Option ValueOption
  | "mappings" => some .mappings
  | "from" => some .fromNamespace
  | "to" => some .toNamespace
  | "classes" => some .classes
  | "passes" => some .passes
  | "output" => some .output
  | "write-mappings" => some .writeMappings
  | _ => none

/-- The option without a value that a long name means. -/
def switch? : String → Option Switch
  | "clean" => some .clean
  | "verbose" => some .verbose
  | "quiet" => some .quiet
  | "help" => some .help
  | "version" => some .version
  | _ => none

/-- The option with a value that a letter means. -/
def valueLetter? : Char → Option ValueOption
  | 'm' => some .mappings
  | 'o' => some .output
  | _ => none

/-- The option without a value that a letter means. -/
def switchLetter? : Char → Option Switch
  | 'v' => some .verbose
  | 'q' => some .quiet
  | 'h' => some .help
  | 'V' => some .version
  | _ => none

/-- The options seen so far. -/
structure Draft where
  values : List (ValueOption × String) := []
  clean : Bool := false
  quiet : Bool := false
  verbosity : Nat := 0
  input : Option String := none
deriving Repr, DecidableEq

/-- Reads decimal digits. -/
def parseDigits? : List Char → Option Nat
  | [] => none
  | digits =>
    if digits.all fun c => '0' ≤ c && c ≤ '9' then
      some (digits.foldl (fun value c => value * 10 + (c.toNat - '0'.toNat)) 0)
    else
      none

/-- Reads the number of passes, from 1 up to 2^32 - 1, with an optional sign. -/
def parsePasses? (text : String) : Option Nat :=
  let digits := match text.toList with
    | '+' :: rest => rest
    | rest => rest
  (parseDigits? digits).filter fun count => 1 ≤ count && count < Nat.pow 2 32

/-- The option accepts the value: namespaces may be any text, paths are not empty. -/
def ValueOption.accepts (option : ValueOption) (value : String) : Bool :=
  match option with
  | .fromNamespace => true
  | .toNamespace => true
  | .passes => (parsePasses? value).isSome
  | _ => value ≠ ""

namespace Draft

/-- The value given for an option. -/
def value? (draft : Draft) (option : ValueOption) : Option String :=
  (draft.values.find? (·.1 = option)).map (·.2)

/-- Takes over the value of an option, unless it had one or does not accept this one. -/
def setValue (draft : Draft) (option : ValueOption) (value : String) : Option Draft :=
  if (draft.value? option).isSome || !option.accepts value then none
  else some { draft with values := draft.values ++ [(option, value)] }

/-- Takes over the input. There is only one, and it is not empty. -/
def setInput (draft : Draft) (input : String) : Option Draft :=
  if draft.input.isSome || input = "" then none else some { draft with input := some input }

/-- The options of a run, once all arguments are read. -/
def finish (draft : Draft) : Request :=
  match draft.value? .mappings, draft.input with
  | some mappings, some input =>
    if draft.quiet && 0 < draft.verbosity then .misuse
    else
      .run
        { mappings
          fromNamespace := (draft.value? .fromNamespace).getD "official"
          toNamespace := (draft.value? .toNamespace).getD "named"
          classes := draft.value? .classes
          passes := ((draft.value? .passes).bind parsePasses?).getD 1
          clean := draft.clean
          output := draft.value? .output
          writeMappings := draft.value? .writeMappings
          verbosity := draft.verbosity
          quiet := draft.quiet
          input }
  | _, _ => .misuse

end Draft

/-- The state of reading arguments. -/
inductive Progress where
  /-- More arguments may come. -/
  | reading (draft : Draft)
  /-- The next argument is the value of an option. -/
  | pending (draft : Draft) (option : ValueOption)
  /-- Only the input may come. -/
  | trailing (draft : Draft)
  /-- The arguments after this do not matter. -/
  | stopped (request : Request)

/-- Turns an option on. -/
def applySwitch (draft : Draft) : Switch → Progress
  | .clean => if draft.clean then .stopped .misuse else .reading { draft with clean := true }
  | .quiet => if draft.quiet then .stopped .misuse else .reading { draft with quiet := true }
  | .verbose => .reading { draft with verbosity := draft.verbosity + 1 }
  | .help => .stopped .help
  | .version => .stopped .version

/-- Goes on with a draft, if there is one. -/
def Progress.ofDraft : Option Draft → Progress
  | some draft => .reading draft
  | none => .stopped .misuse

/-- Reads the letters of an argument with short options. -/
def readLetters (draft : Draft) : List Char → Progress
  | [] => .reading draft
  | c :: rest =>
    match switchLetter? c with
    | some switch =>
      match applySwitch draft switch with
      | .reading draft => readLetters draft rest
      | other => other
    | none =>
      match valueLetter? c, rest with
      | none, _ => .stopped .misuse
      | some option, [] => .pending draft option
      | some option, '=' :: value => .ofDraft (draft.setValue option (String.ofList value))
      | some option, value => .ofDraft (draft.setValue option (String.ofList value))

/-- Reads an argument with a long option. -/
def readLong (draft : Draft) (body : List Char) : Progress :=
  match Text.splitFirst? '=' body with
  | some (name, value) =>
    match valueOption? (String.ofList name) with
    | some option => .ofDraft (draft.setValue option (String.ofList value))
    | none => .stopped .misuse
  | none =>
    match valueOption? (String.ofList body), switch? (String.ofList body) with
    | some option, _ => .pending draft option
    | none, some switch => applySwitch draft switch
    | none, none => .stopped .misuse

/-- Reads the next argument. -/
def Progress.step (progress : Progress) (argument : String) : Progress :=
  match progress with
  | .stopped request => .stopped request
  | .trailing draft =>
    match draft.setInput argument with
    | some draft => .trailing draft
    | none => .stopped .misuse
  | .reading draft =>
    match argument.toList with
    | ['-', '-'] => .trailing draft
    | '-' :: '-' :: body => readLong draft body
    | '-' :: c :: rest => readLetters draft (c :: rest)
    | _ => .ofDraft (draft.setInput argument)
  | .pending draft option =>
    match argument.toList with
    | '-' :: _ :: _ => .stopped .misuse
    | _ => .ofDraft (draft.setValue option argument)

/-- What the arguments ask for. -/
def parse (arguments : List String) : Request :=
  match arguments.foldl Progress.step (.reading {}) with
  | .reading draft => draft.finish
  | .trailing draft => draft.finish
  | .pending _ _ => .misuse
  | .stopped request => request

end MixinLink.CommandLine
