import CallForest.Path

/-!
# Trees of files

A directory with all that is below it, as a value. Paths are looked up one piece after the other,
from the top if they are absolute and else from a working directory: an empty piece or a single dot
stays where it is and two dots go up, but only a directory has anything below it. The entries of a
directory are kept in the order of their names. Names and paths are limited in length, and neither
may hold a null character.

## Main definitions

* `FileTree` — a file, a device or a directory;
* `FileTree.read` — the content of the file at a path;
* `FileTree.filesBelow?` — the files below a path, in the order of a walk;
* `FileTree.write?` — a file put at a path.
-/

namespace CallForest

/-- A file, a device or a directory. -/
inductive FileTree where
  | file (content : List UInt8)
  /-- A device that is always empty and takes whatever is written. -/
  | sink
  | directory (entries : List (String × FileTree))
deriving Inhabited

/-- Why a file cannot be read. -/
inductive ReadProblem where
  | missing
  | notDirectory
  | isDirectory
  /-- The path is too long, or one of its names is. -/
  | nameTooLong
  /-- The path holds a null character. -/
  | nullInPath
  | notText
deriving DecidableEq, Repr

/-- The wording of a problem. -/
def ReadProblem.message : ReadProblem → String
  | .missing => "No such file or directory (os error 2)"
  | .notDirectory => "Not a directory (os error 20)"
  | .isDirectory => "Is a directory (os error 21)"
  | .nameTooLong => "File name too long (os error 36)"
  | .nullInPath => "file name contained an unexpected NUL byte"
  | .notText => "stream did not contain valid UTF-8"

namespace FileTree

/-- The directory with nothing in it. -/
def empty : FileTree := .directory []

/-- The greatest number of bytes in a name. -/
def nameLimit : Nat := 255

/-- The greatest number of bytes in a path. -/
def pathLimit : Nat := 4095

/-- The entries with one of them set, in the order of names. -/
def setEntry (name : String) (tree : FileTree) :
    List (String × FileTree) → List (String × FileTree)
  | [] => [(name, tree)]
  | (n, t) :: rest =>
    if name = n then (name, tree) :: rest
    else if name < n then (name, tree) :: (n, t) :: rest
    else (n, t) :: setEntry name tree rest

/-- The tree below a list of names. -/
def get? (tree : FileTree) : List String → Option FileTree
  | [] => some tree
  | name :: names =>
    match tree with
    | .file _ | .sink => none
    | .directory entries => (entries.lookup name).bind (·.get? names)

/-- The tree with another tree below a list of names. Directories on the way are made. -/
def set (tree : FileTree) (new : FileTree) : List String → FileTree
  | [] => new
  | name :: names =>
    let entries := match tree with
      | .directory entries => entries
      | .file _ | .sink => []
    .directory (setEntry name (((entries.lookup name).getD empty).set new names) entries)

/-- Why a path cannot be looked up at all. -/
def refusal? (path : String) : Option ReadProblem :=
  if path.contains '\x00' then some .nullInPath
  else if pathLimit < path.utf8ByteSize then some .nameTooLong
  else if path = "" then some .missing
  else none

/-- Follows the pieces of a path from the directory with the given names, last name first. There is
nothing above the top. -/
def follow (tree : FileTree) : (names : List String) → (pieces : List String) →
    Except ReadProblem (List String)
  | names, [] => .ok names
  | names, piece :: rest =>
    match tree.get? names.reverse with
    | none => .error .missing
    | some (.file _) | some .sink => .error .notDirectory
    | some (.directory entries) =>
      if piece = "" || piece = "." then tree.follow names rest
      else if piece = ".." then tree.follow names.tail rest
      else if nameLimit < piece.utf8ByteSize then .error .nameTooLong
      else if (entries.lookup piece).isSome then tree.follow (piece :: names) rest
      else .error .missing

/-- The names of the directory that a path starts from, last name first. -/
def startOf (directory : List String) (path : String) : List String :=
  if path.startsWith "/" then [] else directory.reverse

/-- What stands at a path. -/
def locate (tree : FileTree) (directory : List String) (path : String) :
    Except ReadProblem FileTree := do
  if let some problem := refusal? path then throw problem
  let names ← tree.follow (startOf directory path) (Path.pieces path)
  match tree.get? names.reverse with
  | some found => return found
  | none => throw .missing

/-- The content of the file at a path. -/
def read (tree : FileTree) (directory : List String) (path : String) :
    Except ReadProblem (List UInt8) := do
  match ← tree.locate directory path with
  | .file content => return content
  | .sink => return []
  | .directory _ => throw .isDirectory

mutual

/-- The paths of the files of a tree that stands at a path. A directory can be listed only if its
own path is not too long. -/
def paths? (path : String) : FileTree → Option (List String)
  | .file _ => some [path]
  | .sink => some []
  | .directory entries =>
    if pathLimit < path.utf8ByteSize then none else entryPaths? path entries

/-- The paths of the files of entries below a path. -/
def entryPaths? (path : String) : List (String × FileTree) → Option (List String)
  | [] => some []
  | (name, tree) :: rest => do
    let here ← tree.paths? (Path.join path name)
    return here ++ (← entryPaths? path rest)

end

/-- The files below a path, in the order of a walk that goes into each directory where it stands
among its neighbours. A file is below its own path. -/
def filesBelow? (tree : FileTree) (directory : List String) (path : String) :
    Option (List String) := do
  (← (tree.locate directory path).toOption).paths? path

/-- The tree with a file put at a path, in a directory that is there. -/
def write? (tree : FileTree) (directory : List String) (path : String) (content : List UInt8) :
    Option FileTree := do
  let pieces := Path.pieces path
  let name ← pieces.getLast?
  if (refusal? path).isSome || nameLimit < name.utf8ByteSize || ["", ".", ".."].contains name then
    none
  else
    let above ← (tree.follow (startOf directory path) pieces.dropLast).toOption
    match tree.get? above.reverse with
    | some (.directory entries) =>
      match entries.lookup name with
      | some (.directory _) => none
      | some .sink => some tree
      | _ => some (tree.set (.file content) (name :: above).reverse)
    | _ => none

end FileTree

end CallForest
