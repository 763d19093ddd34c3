/-
# LoxLexer.Files.Tree -- a file system as a value

A `FileTree` maps locations to files and directories and has a working directory,
from which paths without a root start.  A location is the list of names on the
way down from the top, which itself is always a directory.  Nothing else is known
of an entry: there are no permissions, no links to other locations, no names that
are not text, and always room for one file more.

A path is followed name by name (`FileTree.follow`): each name but the last must
lead to a directory, and `..` leads up, at the top to the top.  The last name may
lead nowhere; such a file can be written and not read.
-/
import LoxLexer.Files.Access

namespace LoxLexer

set_option autoImplicit false

/-- What stands at a location. -/
inductive FileTree.Entry where
  | directory
  | file (bytes : List UInt8)
  deriving DecidableEq

/-- Files and directories by location, and the working directory. -/
structure FileTree where
  entries : List (List String × FileTree.Entry)
  workingDirectory : List String

namespace FileTree

/-- What stands at a location; the top is a directory. -/
def entry? (tree : FileTree) (location : List String) : Option Entry :=
  if location = [] then some .directory else tree.entries.lookup location

/-- A tree with an entry put at a location, in place of what was there. -/
def put (tree : FileTree) (location : List String) (entry : Entry) : FileTree :=
  { tree with
    entries := (tree.entries.filter fun other => other.1 ≠ location) ++ [(location, entry)] }

/-- A tree whose only entries are the directories down to its working directory. -/
def ofWorkingDirectory (location : List String) : FileTree :=
  ⟨(List.range location.length).map fun above => (location.take (above + 1), .directory),
    location⟩

/-- The location one name away from a directory. -/
def neighbour (location : List String) (name : String) : List String :=
  if name = ".." then location.dropLast else location ++ [name]

/-- No name has more bytes than this. -/
def longestName : Nat := 255

/-- No path has more bytes than this. -/
def longestPath : Nat := 4095

/-- Where names lead from a directory, and what stands there. -/
def follow (tree : FileTree) (location : List String) :
    List String → Except FileFault (List String × Option Entry)
  | [] => .ok (location, some .directory)
  | name :: names =>
      if longestName < name.utf8ByteSize then .error .nameTooLong
      else
        match tree.entry? (neighbour location name) with
        | some .directory => tree.follow (neighbour location name) names
        | found =>
            if names = [] then .ok (neighbour location name, found)
            else if found = none then .error .notFound
            else .error .notDirectory

/-- Where a path leads. -/
def resolve (tree : FileTree) (path : Path) : Except FileFault (List String × Option Entry) :=
  if longestPath < path.text.utf8ByteSize then .error .nameTooLong
  else tree.follow (if path.slashes = 0 then tree.workingDirectory else []) path.names

/-- The bytes of the file that a path leads to. -/
def read (tree : FileTree) (path : Path) : Except FileFault (List UInt8) :=
  match tree.resolve path with
  | .error fault => .error fault
  | .ok (_, none) => .error .notFound
  | .ok (_, some .directory) => .error .isDirectory
  | .ok (_, some (.file bytes)) => .ok bytes

/-- The tree with these bytes in the file that a path leads to. -/
def write (tree : FileTree) (path : Path) (bytes : List UInt8) : Except FileFault FileTree :=
  match tree.resolve path with
  | .error fault => .error fault
  | .ok (_, some .directory) => .error .isDirectory
  | .ok (location, _) => .ok (tree.put location (.file bytes))

instance : FileAccess (StateM FileTree) where
  read path := fun tree => (tree.read path, tree)
  write path bytes := fun tree =>
    match tree.write path bytes with
    | .ok after => (.ok (), after)
    | .error fault => (.error fault, tree)

/-! ## Building and comparing -/

/-- A tree with a directory, and all those above it, below the working directory. -/
def makeDirectory (tree : FileTree) (names : List String) : FileTree :=
  (List.range names.length).foldl (fun tree above =>
    let location := tree.workingDirectory ++ names.take (above + 1)
    if (tree.entry? location).isSome then tree else tree.put location .directory) tree

/-- A tree with a file below the working directory, and the directories above it. -/
def makeFile (tree : FileTree) (names : List String) (bytes : List UInt8) : FileTree :=
  (tree.makeDirectory names.dropLast).put (tree.workingDirectory ++ names) (.file bytes)

/-- The name of a location below the working directory, as a path from there. -/
def nameBelow? (tree : FileTree) (location : List String) : Option String :=
  if tree.workingDirectory.isPrefixOf location then
    some (String.intercalate "/" (location.drop tree.workingDirectory.length))
  else none

/-- The files below the working directory that are new since `before` or have
other bytes than then, by their paths from there. -/
def changedSince (before after : FileTree) : List (String × List UInt8) :=
  after.entries.filterMap fun (location, entry) =>
    match entry with
    | .directory => none
    | .file bytes =>
        if before.entry? location = some (.file bytes) then none
        else (after.nameBelow? location).map fun name => (name, bytes)

end FileTree

end LoxLexer
