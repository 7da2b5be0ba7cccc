import CallForest.ChangeSet
import CallForest.Host
import CallForest.Text.Utf8

/-!
# Changes between revisions

The classes that changed between two revisions of a repository, as the version control system tells
them: it lists one changed file a line.

## Main definitions

* `RevisionDiff` — a repository and two of its revisions;
* `RevisionDiff.arguments` — what the version control system is asked;
* `RevisionDiff.changes` — what its reply means.
-/

namespace CallForest

/-- A repository and two of its revisions. -/
structure RevisionDiff where
  repository : String
  base : String
  head : String
deriving DecidableEq, Repr

namespace RevisionDiff

/-- Why there is no list of changes. -/
inductive Problem where
  /-- The version control system could not be run. -/
  | missing
  /-- It failed, with the given complaint. -/
  | failed (base head complaint : String)
  /-- Its output is not a text. -/
  | notText
deriving DecidableEq, Repr

/-- The wording of a problem. -/
def Problem.message : Problem → String
  | .missing => "Failed to execute 'git diff'. Is git installed?"
  | .failed base head complaint =>
    "git diff " ++ base ++ ".." ++ head ++ " failed: " ++ complaint
  | .notText => "git diff output was not valid UTF-8"

/-- The arguments that ask for the changed files. -/
def arguments (d : RevisionDiff) : List String :=
  ["-C", d.repository, "diff", "--name-only", d.base, d.head]

/-- What a reply means. -/
def changes (d : RevisionDiff) : Option ToolReply → Except Problem ChangeSet
  | none => .error .missing
  | some reply =>
    if reply.status ≠ 0 then
      .error (.failed d.base d.head (Text.trim (Text.Utf8.decodeLossy reply.complaint)))
    else
      match Text.Utf8.decode? reply.output with
      | some listing => .ok (ChangeSet.ofListing listing)
      | none => .error .notText

/-- Whether the arguments can be handed to a tool: none of them holds a null character. -/
def isAskable (d : RevisionDiff) : Bool :=
  d.arguments.all fun argument => !argument.contains '\x00'

/-- Asks the host for the changes. -/
def ask {m : Type → Type} [Monad m] [Host m] (d : RevisionDiff) : m (Except Problem ChangeSet) := do
  if d.isAskable then return d.changes (← Host.versionControl d.arguments)
  else return .error .missing

end RevisionDiff

end CallForest
