import MixinLink.CommandLine.Run

/-!
# The program

Runs the command line on the files of the machine. Log entries and failures go to the standard error
stream.
-/

namespace MixinLink.CommandLine

/-- A path as the file operations take it. -/
def entryOf (path : String) : IO.FS.DirEntry :=
  { root := path, fileName := "" }

/-- The text of a failed operation. -/
def systemFailure (error : IO.Error) : Failure :=
  .of (.system (toString error))

/-- Reads a file of the machine that could be opened. -/
def readHandle (handle : IO.FS.Handle) : IO FileContents := do
  try
    let bytes ← handle.readBinToEnd
    return .bytes bytes
  catch error =>
    return .unreadable (systemFailure error)

/-- Reads a file of the machine. -/
def readFile (path : String) : IO FileContents := do
  try
    let handle ← IO.FS.Handle.mk path .read
    readHandle handle
  catch error =>
    return .closed (systemFailure error)

/-- What is at a path of the machine. -/
partial def readTree (path : String) : IO DirTree := do
  let place := (entryOf path).root
  match (← place.metadata).type with
  | .dir =>
    let entries ← place.readDir
    let trees ← entries.toList.mapM fun entry => do
      let tree ← readTree (joinPath path entry.fileName)
      return (entry.fileName, tree)
    return .directory trees
  | .file => return .file
  | _ => return .device

/-- What is at a path of the machine, or why nothing can be found there. -/
def findTree (path : String) : IO (Checked DirTree) := do
  try
    let tree ← readTree path
    return .ok tree
  catch error =>
    return .error (systemFailure error)

/-- Writes a file of the machine. -/
def writeFile (path contents : String) : IO (Checked Unit) := do
  try
    IO.FS.writeFile path contents
    return .ok ()
  catch error =>
    return .error (systemFailure error)

/-- The files of the machine. -/
def machineFiles : Files IO where
  read := readFile
  tree := findTree
  write := writeFile

/-- A failure as it is printed: the outermost step, and below it what caused it. -/
def failureText (failure : Failure) : String :=
  match failure.lines with
  | [] => "Error\n"
  | [line] => "Error: " ++ line ++ "\n"
  | [line, cause] => "Error: " ++ line ++ "\n\nCaused by:\n    " ++ cause ++ "\n"
  | line :: causes =>
    let numbered := causes.zipIdx.map fun cause => "    " ++ toString cause.2 ++ ": " ++ cause.1 ++ "\n"
    "Error: " ++ line ++ "\n\nCaused by:\n" ++ String.join numbered

/-- Prints what the end of the program says. -/
def printExit (exit : Exit) : IO Unit := do
  let errors ← IO.getStderr
  exit.log.forM fun entry => errors.putStr (entry.render ++ "\n")
  let out ← IO.getStdout
  out.putStr exit.printed
  out.flush
  match exit.failure with
  | some failure => errors.putStr (failureText failure)
  | none => if exit.code = 2 then errors.putStr usageText

end MixinLink.CommandLine

/-- Runs the program. -/
def main (arguments : List String) : IO UInt32 := do
  let exit ← MixinLink.CommandLine.execute MixinLink.CommandLine.machineFiles arguments
  MixinLink.CommandLine.printExit exit
  return exit.code.toUInt32
