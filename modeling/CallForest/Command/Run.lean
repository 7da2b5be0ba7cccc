import CallForest.Analysis
import CallForest.Command.LogFilter
import CallForest.Command.Options
import CallForest.RevisionDiff

/-!
# Runs of the command

A run reads its options and settings, finds out what has changed if it is asked to, and makes an
analysis. Without an output file it prints what it finds.

## Main definitions

* `CommandFailure` — why a run fails;
* `CommandOutcome` — what is left of a run;
* `Options.settings`, `Options.changes` — what the options lead to;
* `runCommand` — a run on a host.
-/

namespace CallForest

/-- Why a run fails. -/
inductive CommandFailure where
  | logFilter (flaw : LogFilter.Flaw)
  | settingsUnreadable (path : String) (problem : ReadProblem)
  | settingsInvalid (path : String)
  | depth
  | changesUnreadable (path : String)
  | revisions (problem : RevisionDiff.Problem)
  | analysis (failure : AnalysisFailure)
deriving DecidableEq, Repr

namespace CommandFailure

/-- The wording of a failure. -/
def message : CommandFailure → String
  | .logFilter _ => "Invalid --log-level"
  | .settingsUnreadable path problem => "cannot read config " ++ path ++ ": " ++ problem.message
  | .settingsInvalid path => "invalid config " ++ path
  | .depth => "--max-depth must be at least 1"
  | .changesUnreadable path => "Cannot read change list " ++ path
  | .revisions problem => problem.message
  | .analysis failure => failure.message

/-- The exit status of a failure. What cannot be handled at all has a status of its own. -/
def status : CommandFailure → Nat
  | .logFilter .indivisible | .analysis (.scan (.aborted _)) => 101
  | .analysis (.pattern e) => if e.flaw.isFatal then 101 else 1
  | _ => 1

end CommandFailure

/-- What is left of a run. -/
structure CommandOutcome where
  status : Nat
  output : String := ""
  complaint : Option String := none
deriving DecidableEq, Repr

/-- The outcome of a failure. -/
def CommandOutcome.ofFailure (failure : CommandFailure) : CommandOutcome where
  status := failure.status
  complaint := some failure.message

variable {m : Type → Type} [Monad m] [Host m]

namespace Options

/-- The settings with what the options put in their place. -/
def override (o : Options) (s : Settings) : Except CommandFailure Settings :=
  if o.maxDepth = some 0 then .error .depth
  else .ok {
    s with
    workers := o.workers <|> s.workers
    cycleGuard := o.cycleGuard.getD s.cycleGuard
    maxDepth := o.maxDepth.getD s.maxDepth }

/-- The settings of a run. -/
def settings (o : Options) : m (Except CommandFailure Settings) := do
  match o.config with
  | none => return o.override {}
  | some path =>
    match ← Host.readText path with
    | .error problem => return .error (.settingsUnreadable path problem)
    | .ok document =>
      match Settings.parse? document with
      | none => return .error (.settingsInvalid path)
      | some s => return o.override s

/-- The changes that a run looks at. -/
def changes (o : Options) : m (Except CommandFailure (Option ChangeSet)) := do
  match o.changed, o.base, o.head with
  | some path, _, _ =>
    match ← Host.readText path with
    | .error _ => return .error (.changesUnreadable path)
    | .ok listing => return .ok (some (ChangeSet.ofListing listing))
  | none, some base, some head =>
    let diff : RevisionDiff := { repository := o.repo.getD ".", base, head }
    return (← diff.ask).map some |>.mapError .revisions
  | _, _, _ => return .ok none

/-- Makes the analysis that the options ask for. -/
def analyse (o : Options) : m (Except CommandFailure AnalysisReport) := do
  match LogFilter.check (o.logLevel.getD "info") with
  | .error flaw => return .error (.logFilter flaw)
  | .ok () =>
    match ← o.settings with
    | .error failure => return .error failure
    | .ok settings =>
      match ← o.changes with
      | .error failure => return .error failure
      | .ok changes =>
        let analysis : Analysis := {
          settings, roots := o.roots, exclusions := o.exclusions, changes
          format := o.format.getD .json, output := o.output }
        return (← analysis.run).mapError .analysis

end Options

/-- The name and version that the command prints. -/
def versionLine : String := "invoke-link 0.1.0\n"

/-- How the command is used. -/
def usage : String :=
  "Usage: invoke-link [OPTIONS] <ROOTS>...\n\n" ++
  "  -e, --exclude <PATTERN>    leave out files that match all patterns (repeatable)\n" ++
  "  -c, --config <FILE>        settings\n" ++
  "      --changed <FILE>       list of changed files\n" ++
  "      --base <REVISION>      revision to compare with\n" ++
  "      --head <REVISION>      revision to compare\n" ++
  "      --repo <DIRECTORY>     repository of the revisions\n" ++
  "  -f, --format <FORMAT>      json or dot\n" ++
  "  -o, --output <FILE>        file to write\n" ++
  "      --workers <NUMBER>     number of workers\n" ++
  "      --cycle-guard <NAME>   serialized or ancestor\n" ++
  "      --max-depth <NUMBER>   greatest number of nodes on a path\n" ++
  "      --log-level <FILTER>   log filter\n" ++
  "  -h, --help                 this text\n" ++
  "  -V, --version              name and version\n"

/-- Runs the command with arguments. -/
def runCommand (arguments : List String) : m CommandOutcome := do
  match Invocation.ofArguments arguments with
  | .version => return { status := 0, output := versionLine }
  | .help => return { status := 0, output := usage }
  | .misuse => return { status := 2 }
  | .analyse o =>
    match ← o.analyse with
    | .error failure => return .ofFailure failure
    | .ok report =>
      if o.output.isSome then return { status := 0 }
      else return { status := 0, output := report.forest.render (o.format.getD .json) ++ "\n" }

end CallForest
