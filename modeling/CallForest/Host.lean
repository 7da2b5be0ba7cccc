import CallForest.FileTree
import CallForest.Text.Utf8

/-!
# What a run needs from outside

A run reads files, lists the files below a directory, writes a file and asks a version control
system what has changed. It does so through a host, so that the same run works on the files of a
machine and on a tree of files held as a value.

## Main definitions

* `Host` — what a run needs;
* `Host.readText` — the text of a file;
* `Workspace` — a host held as a value.
-/

namespace CallForest

/-- What a tool that was run has left behind. -/
structure ToolReply where
  status : Nat
  output : List UInt8
  complaint : List UInt8
deriving DecidableEq, Repr

/-- What a run needs from outside. -/
class Host (m : Type → Type) where
  /-- The content of the file at a path. -/
  read : String → m (Except ReadProblem (List UInt8))
  /-- The files below a path, in the order of names, if there is anything at the path. -/
  filesBelow : String → m (Option (List String))
  /-- Writes a file, and tells whether that went well. -/
  write : String → List UInt8 → m Bool
  /-- Runs the version control system with arguments, if there is one. -/
  versionControl : List String → m (Option ToolReply)

/-- The text of a file. -/
def Host.readText {m : Type → Type} [Monad m] [Host m] (path : String) :
    m (Except ReadProblem String) := do
  match ← Host.read path with
  | .error problem => return .error problem
  | .ok content =>
    match Text.Utf8.decode? content with
    | some text => return .ok text
    | none => return .error .notText

/-- A host held as a value. -/
structure Workspace where
  /-- All files, from the top. -/
  files : FileTree
  /-- The names that lead to the working directory. -/
  directory : List String
  /-- What the version control system replies, if there is one. -/
  reply : Option ToolReply := none
  /-- The arguments that the version control system was last run with. -/
  asked : Option (List String) := none

namespace Workspace

/-- The workspace with the given working directory. Besides it there is a null device. -/
def ofDirectory (tree : FileTree) (reply : Option ToolReply) : Workspace where
  files := .directory [("dev", .directory [("null", .sink)]), ("tmp", .directory [("work", tree)])]
  directory := ["tmp", "work"]
  reply := reply

/-- The content of the file at a path. -/
def read (w : Workspace) (path : String) : Except ReadProblem (List UInt8) :=
  w.files.read w.directory path

end Workspace

/-- A run on a workspace changes the files that it writes and remembers what was asked. -/
instance : Host (StateM Workspace) where
  read path := do return (← get).read path
  filesBelow path := do
    let w ← get
    return w.files.filesBelow? w.directory path
  write path content := do
    let w ← get
    match w.files.write? w.directory path content with
    | some files =>
      set { w with files }
      return true
    | none => return false
  versionControl arguments := do
    let w ← get
    if w.reply.isSome then set { w with asked := some arguments }
    return w.reply

end CallForest
