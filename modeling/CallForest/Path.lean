/-!
# Paths of files

A path is a text whose parts are separated by slashes. Two texts with the same parts mean the same
path, and paths are ordered part by part rather than character by character.

## Main definitions

* `Path.parts` — the parts of a path;
* `Path.precedes` — the order of paths;
* `Path.join` — a path below another one;
* `Path.extension?` — what follows the last dot of the name of a file.
-/

namespace CallForest.Path

/-- A part of a path. -/
inductive Part where
  | root
  | here
  | parent
  | name (text : String)
deriving DecidableEq, Repr

/-- The place of a part in the order: names come last and are ordered as texts. -/
def Part.key : Part → Nat × String
  | .root => (0, "")
  | .here => (1, "")
  | .parent => (2, "")
  | .name text => (3, text)

/-- Whether a part comes before another one. -/
def Part.precedes (a b : Part) : Bool :=
  a.key.1 < b.key.1 || (a.key.1 = b.key.1 && a.key.2 < b.key.2)

/-- The pieces of a text between slashes, when the characters of the first piece that were read are
given, last one first. -/
def piecesFrom (read : List Char) : List Char → List String
  | [] => [String.ofList read.reverse]
  | c :: rest =>
    if c = '/' then String.ofList read.reverse :: piecesFrom [] rest
    else piecesFrom (c :: read) rest

/-- The pieces of a path between slashes. -/
def pieces (path : String) : List String :=
  piecesFrom [] path.toList

/-- The part that a piece stands for, if any. A single dot counts only at the beginning. -/
def part? (isFirst : Bool) (piece : String) : Option Part :=
  if piece = "" then none
  else if piece = "." then if isFirst then some .here else none
  else if piece = ".." then some .parent
  else some (.name piece)

/-- The parts of a path. -/
def parts (path : String) : List Part :=
  match pieces path with
  | "" :: rest => (if rest.isEmpty then [] else [.root]) ++ rest.filterMap (part? false)
  | first :: rest => (part? true first).toList ++ rest.filterMap (part? false)
  | [] => []

/-- Whether a list of parts comes before another one. -/
def partsPrecede : List Part → List Part → Bool
  | _, [] => false
  | [], _ :: _ => true
  | a :: as, b :: bs => a.precedes b || (a = b && partsPrecede as bs)

/-- Whether a path comes before another one. -/
def precedes (a b : String) : Bool :=
  partsPrecede (parts a) (parts b)

/-- Whether two texts mean the same path. -/
def same (a b : String) : Bool :=
  parts a = parts b

/-- A path below another one. An absolute path is not below any other. -/
def join (base path : String) : String :=
  if path.startsWith "/" || base.isEmpty then path
  else if base.endsWith "/" then base ++ path
  else base ++ "/" ++ path

/-- The name of the file at a path. -/
def fileName? (path : String) : Option String :=
  match (parts path).getLast? with
  | some (.name text) => some text
  | _ => none

/-- What follows the last dot of a name, unless that dot comes first. -/
def nameExtension? (name : String) : Option String :=
  let reversed := name.toList.reverse
  match reversed.dropWhile (· ≠ '.') with
  | _ :: [] | [] => none
  | _ :: _ :: _ => some (String.ofList (reversed.takeWhile (· ≠ '.')).reverse)

/-- The extension of the file at a path. -/
def extension? (path : String) : Option String := do
  nameExtension? (← fileName? path)

end CallForest.Path
