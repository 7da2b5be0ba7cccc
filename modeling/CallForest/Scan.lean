import CallForest.ClassFile.ParsedClass
import CallForest.Exclusion
import CallForest.FileTree

/-!
# Scans

A scan visits the artifacts of several roots, root by root and in the order of a walk, and collects
the records of their methods. An artifact that is left out or cannot be read is counted and passed
over; a root whose files cannot be listed ends the scan.

## Main definitions

* `Artifact`, `RootListing` — what a scan goes through;
* `Visit` — what becomes of an artifact;
* `ScanOutcome`, `ScanStats` — what a scan collects and counts;
* `scan` — a scan with a given way to visit artifacts;
* `Artifact.visit` — the way to visit class files.
-/

namespace CallForest

/-- A file that may hold a class, with its content if it can be read. -/
structure Artifact where
  path : String
  content : Except ReadProblem (List UInt8)

/-- A root and its artifacts in the order of a walk, if they can be listed. -/
structure RootListing where
  root : String
  /-- The package of the project at the root. -/
  package : Option String
  artifacts : Option (List Artifact)

/-- What becomes of an artifact. -/
inductive Visit where
  | excluded
  | failed (message : String)
  | extracted (records : List MethodRecord)

namespace Visit

/-- The records that a visit brings. -/
def records : Visit → List MethodRecord
  | .extracted records => records
  | _ => []

/-- Whether the artifact is left out. -/
def isExcluded : Visit → Bool
  | .excluded => true
  | _ => false

end Visit

/-- Artifacts that could not be read, with the reason, in the order of their paths. -/
abbrev Failures := List (String × String)

/-- Notes that an artifact could not be read. An earlier reason for the same path is replaced. -/
def Failures.insert (path message : String) : Failures → Failures
  | [] => [(path, message)]
  | (p, m) :: rest =>
    if Path.same path p then (p, message) :: rest
    else if Path.precedes path p then (path, message) :: (p, m) :: rest
    else (p, m) :: Failures.insert path message rest

/-- What a scan counts. -/
structure ScanStats where
  roots : Nat := 0
  artifacts : Nat := 0
  excluded : Nat := 0
  records : Nat := 0
  failures : Failures := []
deriving DecidableEq, Repr

/-- The number of artifacts that could not be read. -/
def ScanStats.failed (s : ScanStats) : Nat :=
  s.failures.length

/-- What a scan collects. -/
structure ScanOutcome where
  records : List MethodRecord := []
  stats : ScanStats := {}

/-- Notes the reason of a visit that failed. -/
def Failures.note (failures : Failures) : String × Visit → Failures
  | (path, .failed message) => failures.insert path message
  | _ => failures

/-- The outcome after one more root, whose artifacts were visited. -/
def ScanOutcome.addRoot (o : ScanOutcome) (visits : List (String × Visit)) : ScanOutcome :=
  let found := visits.flatMap fun v => v.2.records
  { records := o.records ++ found
    stats := {
      roots := o.stats.roots + 1
      artifacts := o.stats.artifacts + visits.length
      excluded := o.stats.excluded + (visits.filter fun v => v.2.isExcluded).length
      records := o.stats.records + found.length
      failures := visits.foldl Failures.note o.stats.failures } }

/-- Why a scan ends early. -/
inductive ScanFailure where
  /-- The files below a root cannot be listed. -/
  | unlisted (root : String)
  /-- An artifact cannot be handled at all. -/
  | aborted (fault : ClassFile.Fault)
deriving DecidableEq, Repr

/-- The code of every scan that ends early. -/
def ScanFailure.code : String := "GET_METHOD_INVOKE_LINK_FAIL"

/-- The wording of a failure. -/
def ScanFailure.message : ScanFailure → String
  | .unlisted root => "[" ++ code ++ "] failed to build method invoke links: " ++ root
  | .aborted fault => fault.message

/-- Scans roots with the given way to visit an artifact in the package of its root. -/
def scan (visit : Option String → Artifact → Except ClassFile.Fault Visit)
    (roots : List RootListing) : Except ScanFailure ScanOutcome :=
  roots.foldlM (fun outcome listing =>
    match listing.artifacts with
    | none => .error (.unlisted listing.root)
    | some artifacts =>
      match artifacts.mapM fun a => (visit listing.package a).map fun v => (a.path, v) with
      | .ok visits => .ok (outcome.addRoot visits)
      | .error fault => .error (.aborted fault)) {}

/-- Visits a class file. -/
def Artifact.visit (exclusions : ExclusionSet) (package : Option String) (a : Artifact) :
    Except ClassFile.Fault Visit :=
  if exclusions.excludes a.path then .ok .excluded
  else
    match a.content with
    | .error problem => .ok (.failed problem.message)
    | .ok bytes =>
      match ClassFile.parseClass bytes package with
      | .ok parsed => .ok (.extracted parsed.methods)
      | .error fault => if fault.isFatal then .error fault else .ok (.failed fault.message)

end CallForest
