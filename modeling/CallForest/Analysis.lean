import CallForest.Assembly
import CallForest.BuildDescriptor
import CallForest.ChangeSet
import CallForest.Host
import CallForest.Report.Format
import CallForest.Scan
import CallForest.Settings
import CallForest.Text.Utf8

/-!
# Analyses

An analysis scans roots, assembles the call trees of their entry points, keeps those that reach a
change if changes are given, and writes them to a file if one is named.

## Main definitions

* `Analysis` — what to analyse;
* `AnalysisReport`, `AnalysisFailure` — what comes out;
* `Analysis.examine` — scan and assembly, once the artifacts are listed;
* `Analysis.run` — the analysis on a host.
-/

namespace CallForest

/-- What to analyse. -/
structure Analysis where
  settings : Settings := {}
  roots : List String
  /-- Patterns of files to leave out besides those of the settings. -/
  exclusions : List String := []
  changes : Option ChangeSet := none
  format : ReportFormat := .json
  output : Option String := none

/-- What an analysis finds. -/
structure AnalysisReport where
  forest : EntryForest := {}
  stats : ScanStats := {}
  /-- The number of entry points before changes are looked at. -/
  totalEntries : Nat := 0

/-- Why an analysis fails. -/
inductive AnalysisFailure where
  | pattern (error : PatternError)
  | scan (failure : ScanFailure)
  | unwritable (path : String)
deriving DecidableEq, Repr

/-- The wording of a failure. -/
def AnalysisFailure.message : AnalysisFailure → String
  | .pattern _ => "Invalid exclusion pattern"
  | .scan failure => failure.message
  | .unwritable path => "Failed to write " ++ path

namespace Analysis

/-- Whether the file at a path has the extension of artifacts. Case does not count, nor do dots
before the extension in the settings. -/
def isArtifact (settings : Settings) (path : String) : Bool :=
  let lower (text : List Char) : List Char := text.map Char.toLower
  let wanted := settings.artifactExtension.toList.dropWhile (· = '.')
  (Path.extension? path).any fun found => lower found.toList = lower wanted

/-- Lists a root. -/
def listRoot {m : Type → Type} [Monad m] [Host m] (settings : Settings) (root : String) :
    m RootListing := do
  let descriptor ← Host.readText (Path.join root settings.buildDescriptor)
  let package := descriptor.toOption.bind BuildDescriptor.namespace?
  match ← Host.filesBelow root with
  | none => return { root, package, artifacts := none }
  | some paths =>
    let artifacts ← (paths.filter (isArtifact settings)).mapM fun path => do
      return { path, content := ← Host.read path : Artifact }
    return { root, package, artifacts := some artifacts }

/-- Scans listed roots and assembles what is found. -/
def examine (a : Analysis) (exclusions : ExclusionSet) (listings : List RootListing) :
    Except ScanFailure AnalysisReport := do
  let outcome ← scan (Artifact.visit exclusions) listings
  let assembly : Assembly := { guard := a.settings.cycleGuard, maxDepth := a.settings.maxDepth }
  let forest := assembly.assemble outcome.records
  return {
    forest := match a.changes with
      | some changes => forest.impacted changes
      | none => forest
    stats := outcome.stats
    totalEntries := forest.size }

/-- Lists, scans and assembles. Without roots there is nothing to do. -/
def explore {m : Type → Type} [Monad m] [Host m] (a : Analysis) :
    m (Except AnalysisFailure AnalysisReport) := do
  if a.roots.isEmpty then return .ok {}
  else
    match ExclusionSet.ofPatterns (a.settings.exclusions ++ a.exclusions) with
    | .error e => return .error (.pattern e)
    | .ok exclusions =>
      let listings ← a.roots.mapM (listRoot a.settings)
      return (a.examine exclusions listings).mapError .scan

/-- Runs an analysis. -/
def run {m : Type → Type} [Monad m] [Host m] (a : Analysis) :
    m (Except AnalysisFailure AnalysisReport) := do
  match ← a.explore, a.output with
  | .ok report, some path =>
    if ← Host.write path (Text.Utf8.encode (report.forest.render a.format)) then return .ok report
    else return .error (.unwritable path)
  | result, _ => return result

end Analysis

end CallForest
