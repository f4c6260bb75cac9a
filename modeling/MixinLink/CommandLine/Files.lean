import MixinLink.Failure

/-!
# Files

What a run needs from a file system: reading a file, seeing what is below a path, and writing a file.
The operations are given as a record, so a run can be carried out on real files or on a tree of files
in memory.

Main exports: `DirTree`, `Files`, `sourceFiles`.
-/

namespace MixinLink.CommandLine

/-- What is at a path: a file, a directory with named entries, or something that is neither. -/
inductive DirTree where
  | file
  | device
  | directory (entries : List (String × DirTree))

/-- The outcome of reading a file. -/
inductive FileContents where
  /-- The file cannot be opened. -/
  | closed (failure : Failure)
  /-- The file can be opened but not be read. -/
  | unreadable (failure : Failure)
  | bytes (bytes : ByteArray)

/-- The operations of a file system. -/
structure Files (m : Type → Type) where
  read : String → m FileContents
  tree : String → m (Checked DirTree)
  /-- Makes a file with the given text, in place of what was there before. -/
  write : String → String → m (Checked Unit)

/-- A name inside of a directory, with the path of the directory in front. -/
def joinPath (directory name : String) : String :=
  if directory.toList.getLast? = some '/' then directory ++ name else directory ++ "/" ++ name

/-- The part of a file name after its last dot, unless the name starts with that dot. -/
def extension? (name : String) : Option String :=
  match Text.splitLast? '.' name.toList with
  | none => none
  | some ([], _) => none
  | some (_, after) => some (String.ofList after)

/-- The name of a source file. -/
def isSourceName (name : String) : Bool :=
  name ≠ ".." && extension? name = some "json"

mutual

/-- The source files at a path with a given name, directories in the order of the names in them. -/
def treeFiles (path name : String) : DirTree → List String
  | .file => if isSourceName name then [path] else []
  | .device => []
  | .directory entries =>
    ((entriesFiles path entries).mergeSort fun a b => a.1 ≤ b.1).flatMap (·.2)

/-- The source files below each entry of a directory. -/
def entriesFiles (path : String) : List (String × DirTree) → List (String × List String)
  | [] => []
  | (name, tree) :: rest =>
    (name, treeFiles (joinPath path name) name tree) :: entriesFiles path rest

end

/-- The source files that an input means: the input itself if it is a file, else the files with the
right names below it. -/
def sourceFiles (input : String) : DirTree → List String
  | .file => [input]
  | .device => []
  | .directory entries => treeFiles input "" (.directory entries)

end MixinLink.CommandLine
