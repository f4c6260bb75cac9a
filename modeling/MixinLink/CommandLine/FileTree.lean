import MixinLink.CommandLine.Files

/-!
# A tree of files in memory

Files and directories, each at a place given by the names that lead to it. Paths are resolved from left
to right: every name on the way must be a directory, `.` stays where it is, and `..` goes up.

The place of the current directory has no names. Places above it start with `..`, and the places of
absolute paths start with `/`; of these only the directories and files that every system has are there.

Main exports: `FileTree`, `FileTree.add`, `FileTree.contents?`, `FileTree.files`.
-/

namespace MixinLink.CommandLine

/-- The names that lead to a file or directory. -/
abbrev Place := List String

namespace Place

/-- The root directory. -/
def root : Place :=
  ["/"]

/-- The directory around a place. The root directory is around itself. -/
def up (place : Place) : Place :=
  if place = root then root
  else if place.all (· = "..") then ".." :: place
  else place.dropLast

/-- The current directory, a directory above it, or the root directory. -/
def isBase (place : Place) : Bool :=
  place.all (· = "..") || place = root

end Place

/-- What can be at a place. -/
inductive FileEntry where
  | directory
  | file (contents : String)
  /-- A file that is always empty and takes everything. -/
  | sink
deriving Repr, DecidableEq

/-- What is at which place. -/
structure FileTree where
  entries : List (Place × FileEntry)

namespace FileTree

/-- What every system has. -/
def empty : FileTree :=
  ⟨[(["/", "dev"], .directory), (["/", "dev", "null"], .sink), (["/", "tmp"], .directory)]⟩

/-- There is no such file or directory. -/
def notFound : Failure :=
  .of (.system "No such file or directory (os error 2)")

/-- Something on the way is no directory. -/
def notDirectory : Failure :=
  .of (.system "Not a directory (os error 20)")

/-- A directory where a file is needed. -/
def isDirectory : Failure :=
  .of (.system "Is a directory (os error 21)")

/-- A name or a whole path is too long. -/
def tooLong : Failure :=
  .of (.system "File name too long (os error 36)")

/-- The greatest number of bytes in a name. -/
def nameLimit : Nat := 255

/-- The greatest number of bytes in a path. -/
def pathLimit : Nat := 4095

/-- What is at a place. -/
def lookUp (tree : FileTree) (place : Place) : Option FileEntry :=
  if place.isBase then some .directory else tree.entries.lookup place

/-- Puts an entry in the place of the one before, or at the end. -/
def put (place : Place) (entry : FileEntry) :
    List (Place × FileEntry) → List (Place × FileEntry)
  | [] => [(place, entry)]
  | (other, found) :: rest =>
    if other = place then (place, entry) :: rest else (other, found) :: put place entry rest

/-- The names of a path. -/
def pathNames (path : String) : List String :=
  (Text.segments '/' path.toList).map String.ofList

/-- The place where a path starts. -/
def startOf (path : String) : Place :=
  if path.toList.head? = some '/' then .root else []

/-- Follows names from a directory and makes the directories that are missing. -/
def makeWay (tree : FileTree) (here : Place) : List String → FileTree × Place
  | [] => (tree, here)
  | name :: rest =>
    if name = "" ∨ name = "." then tree.makeWay here rest
    else if name = ".." then tree.makeWay here.up rest
    else
      let next := here ++ [name]
      let tree := if (tree.lookUp next).isSome then tree else ⟨put next .directory tree.entries⟩
      tree.makeWay next rest

/-- Adds a file, or a directory if there are no contents, with the directories on the way. -/
def add (tree : FileTree) (path : String) : Option String → FileTree
  | none => (tree.makeWay (startOf path) (pathNames path)).1
  | some contents =>
    let names := pathNames path
    let (tree, directory) := tree.makeWay (startOf path) names.dropLast
    ⟨put (directory ++ [names.getLastD ""]) (.file contents) tree.entries⟩

/-- Follows a name from a place, which must be a directory. -/
def enter (tree : FileTree) (here : Place) (name : String) : Checked Place :=
  match tree.lookUp here with
  | none => .error notFound
  | some .directory =>
    if name = "" ∨ name = "." then .ok here
    else if name = ".." then .ok here.up
    else if nameLimit < name.utf8ByteSize then .error tooLong
    else .ok (here ++ [name])
  | some _ => .error notDirectory

/-- The place that a path means, and its last name. All names but the last one are directories. -/
def locate (tree : FileTree) (path : String) : Checked (Place × String) := do
  if path.isEmpty then
    .error notFound
  else if pathLimit < path.utf8ByteSize then
    .error tooLong
  else
    let names := pathNames path
    let directory ← names.dropLast.foldlM tree.enter (startOf path)
    let place ← tree.enter directory (names.getLastD "")
    return (place, names.getLastD "")

/-- What is at a path, and its place. -/
def resolve (tree : FileTree) (path : String) : Checked (Place × FileEntry) := do
  let (place, _) ← tree.locate path
  match tree.lookUp place with
  | none => .error notFound
  | some entry => return (place, entry)

/-- Reads a file. -/
def read (tree : FileTree) (path : String) : FileContents :=
  match tree.resolve path with
  | .error failure => .closed failure
  | .ok (_, .directory) => .unreadable isDirectory
  | .ok (_, .file contents) => .bytes contents.toUTF8
  | .ok (_, .sink) => .bytes .empty

/-- The contents of a file, `none` if there is no such file. -/
def contents? (tree : FileTree) (path : String) : Option String :=
  match tree.resolve path with
  | .ok (_, .file contents) => some contents
  | .ok (_, .sink) => some ""
  | _ => none

/-- What is at a place, down to the given depth. -/
def shape (tree : FileTree) : Nat → Place → DirTree
  | 0, _ => .directory []
  | depth + 1, place =>
    match tree.lookUp place with
    | some (.file _) => .file
    | some .sink => .device
    | _ =>
      .directory (tree.entries.filterMap fun entry =>
        if entry.1.dropLast = place then some (entry.1.getLastD "", tree.shape depth entry.1)
        else none)

/-- A depth that no entry lies below. -/
def maxDepth (tree : FileTree) : Nat :=
  tree.entries.foldl (fun depth entry => max depth entry.1.length) 0 + 1

/-- What is at a path. -/
def treeAt (tree : FileTree) (path : String) : Checked DirTree :=
  match tree.resolve path with
  | .error failure => .error failure
  | .ok (place, _) => .ok (tree.shape tree.maxDepth place)

/-- Makes a file. The directory of the file must be there, and no directory in its place. -/
def write (tree : FileTree) (path contents : String) : Checked FileTree := do
  let (place, name) ← tree.locate path
  if name = "" then
    .error isDirectory
  else
    match tree.lookUp place with
    | some .directory => .error isDirectory
    | some .sink => return tree
    | _ => return ⟨put place (.file contents) tree.entries⟩

/-- The operations on a tree of files. -/
def files : Files (StateM FileTree) where
  read path := return (← get).read path
  tree path := return (← get).treeAt path
  write path contents := do
    match (← get).write path contents with
    | .ok tree =>
      set tree
      return .ok ()
    | .error failure => return .error failure

end FileTree

end MixinLink.CommandLine
