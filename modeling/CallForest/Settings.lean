import CallForest.CycleGuard
import CallForest.Toml.Parser

/-!
# Settings

What a run of the analysis can be told by a file of settings. Every setting may be left out, and no
other may stand in the file.

## Main definitions

* `Settings` — the settings and what they are when left out;
* `Settings.parse?` — reads a file of settings.
-/

namespace CallForest

/-- The settings of a run. -/
structure Settings where
  /-- The number of workers, if it is not left to the machine. -/
  workers : Option Nat := none
  /-- Patterns of files to leave out. -/
  exclusions : List String := []
  cycleGuard : CycleGuard := .serialized
  /-- The greatest number of nodes on a path. -/
  maxDepth : Nat := 512
  /-- The name of the file that names a project's group. -/
  buildDescriptor : String := "pom.xml"
  /-- The extension of class files. -/
  artifactExtension : String := "class"
deriving DecidableEq, Repr

namespace Settings

/-- A text. -/
def text? : Toml.Value → Option String
  | .text content => some content
  | _ => none

/-- A number that is not negative. -/
def count? : Toml.Value → Option Nat
  | .integer n => if 0 ≤ n then some n.toNat else none
  | _ => none

/-- A list of texts. -/
def texts? : Toml.Value → Option (List String)
  | .array items => items.mapM text?
  | _ => none

/-- The guard with exactly the given name. -/
def guardNamed? (name : String) : Option CycleGuard :=
  [CycleGuard.serialized, CycleGuard.ancestor].find? (·.name = name)

/-- Whether a value is a table or an array with nothing in it. -/
def isHollow : Toml.Value → Bool
  | .array items => items.isEmpty
  | .inline members | .table _ members => members.isEmpty
  | _ => false

/-- A guard, given by its name, or by a table with its name as the only key and nothing below. -/
def guard? : Toml.Value → Option CycleGuard
  | .text name => guardNamed? name
  | .inline [(name, value)] | .table _ [(name, value)] =>
    if isHollow value then guardNamed? name else none
  | _ => none

/-- The settings with one of them set. -/
def set? (s : Settings) (key : String) (value : Toml.Value) : Option Settings :=
  match key with
  | "workers" => do return { s with workers := some (← count? value) }
  | "exclusions" => do return { s with exclusions := ← texts? value }
  | "cycle_guard" => do return { s with cycleGuard := ← guard? value }
  | "max_depth" => do return { s with maxDepth := ← count? value }
  | "build_descriptor" => do return { s with buildDescriptor := ← text? value }
  | "artifact_extension" => do return { s with artifactExtension := ← text? value }
  | _ => none

/-- Reads a file of settings. -/
def parse? (document : String) : Option Settings := do
  (← Toml.parse? document).foldlM (fun s (key, value) => s.set? key value) {}

end Settings

end CallForest
