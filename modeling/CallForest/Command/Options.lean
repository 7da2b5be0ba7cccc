import CallForest.CycleGuard
import CallForest.Report.Format

/-!
# Options of the command line

Arguments are options with values, and roots. The value of an option follows it as the next
argument, or in the same one: after an equals sign, or right after a letter. An argument of two
dashes makes roots of all that follow.

## Main definitions

* `OptionName` — the options that have a value;
* `Options` — what the arguments say;
* `Invocation` — what the arguments ask for;
* `Invocation.ofArguments` — reads arguments.
-/

namespace CallForest

/-- An option that has a value. -/
inductive OptionName where
  | exclude
  | config
  | changed
  | base
  | head
  | repo
  | format
  | output
  | workers
  | cycleGuard
  | maxDepth
  | logLevel
deriving DecidableEq, Repr

namespace OptionName

/-- The option with a long name. -/
def ofLong? : String → Option OptionName
  | "exclude" => some .exclude
  | "config" => some .config
  | "changed" => some .changed
  | "base" => some .base
  | "head" => some .head
  | "repo" => some .repo
  | "format" => some .format
  | "output" => some .output
  | "workers" => some .workers
  | "cycle-guard" => some .cycleGuard
  | "max-depth" => some .maxDepth
  | "log-level" => some .logLevel
  | _ => none

/-- The option with a letter. -/
def ofLetter? : Char → Option OptionName
  | 'e' => some .exclude
  | 'c' => some .config
  | 'f' => some .format
  | 'o' => some .output
  | _ => none

end OptionName

/-- What the arguments say. -/
structure Options where
  roots : List String := []
  exclusions : List String := []
  config : Option String := none
  changed : Option String := none
  base : Option String := none
  head : Option String := none
  repo : Option String := none
  format : Option ReportFormat := none
  output : Option String := none
  workers : Option Nat := none
  cycleGuard : Option CycleGuard := none
  maxDepth : Option Nat := none
  logLevel : Option String := none
deriving DecidableEq, Repr

namespace Options

/-- A value for an option that may be given only once. -/
def once? {α : Type} (old : Option α) (value : Option α) : Option (Option α) :=
  if old.isSome then none else value.map some

/-- A path, which has at least one character. -/
def path? (text : String) : Option String :=
  if text.isEmpty then none else some text

/-- A number that fits into a machine word, perhaps with a plus sign. -/
def count? (text : String) : Option Nat :=
  let digits := match text.toList with
    | '+' :: rest => rest
    | chars => chars
  if digits.isEmpty || !digits.all Char.isDigit then none
  else
    let n := digits.foldl (fun n c => n * 10 + (c.toNat - '0'.toNat)) 0
    if n < UInt64.size then some n else none

/-- The options with a value for one of them. -/
def set? (o : Options) (name : OptionName) (value : String) : Option Options :=
  match name with
  | .exclude => some { o with exclusions := o.exclusions ++ [value] }
  | .config => do return { o with config := ← once? o.config (path? value) }
  | .changed => do return { o with changed := ← once? o.changed (path? value) }
  | .base => do return { o with base := ← once? o.base (some value) }
  | .head => do return { o with head := ← once? o.head (some value) }
  | .repo => do return { o with repo := ← once? o.repo (path? value) }
  | .format => do return { o with format := ← once? o.format (ReportFormat.ofName? value) }
  | .output => do return { o with output := ← once? o.output (some value) }
  | .workers => do return { o with workers := ← once? o.workers (count? value) }
  | .cycleGuard => do
    return { o with cycleGuard := ← once? o.cycleGuard (CycleGuard.ofName value).toOption }
  | .maxDepth => do return { o with maxDepth := ← once? o.maxDepth (count? value) }
  | .logLevel => do return { o with logLevel := ← once? o.logLevel (some value) }

/-- The options with one more root. -/
def addRoot? (o : Options) (root : String) : Option Options := do
  return { o with roots := o.roots ++ [← path? root] }

/-- Whether the options go together: there is a root, a list of changes excludes a base revision,
and revisions come in pairs, except that a list of changes may take the place of the base. -/
def isConsistent (o : Options) : Bool :=
  !o.roots.isEmpty && !(o.changed.isSome && o.base.isSome) &&
    (o.base.isNone || o.head.isSome) && (o.head.isNone || o.base.isSome || o.changed.isSome)

end Options

/-- What the arguments ask for. -/
inductive Invocation where
  | analyse (options : Options)
  | version
  | help
  | misuse
deriving DecidableEq, Repr

/-- What a single argument is. -/
inductive Argument where
  | root
  /-- An option with its value. -/
  | complete (name : OptionName) (value : String)
  /-- An option whose value is the next argument. -/
  | incomplete (name : OptionName)
  | version
  | help
  | unknown
deriving DecidableEq, Repr

/-- What an argument that begins with two dashes is. -/
def Argument.ofLong (text : List Char) : Argument :=
  let name := String.ofList (text.takeWhile (· ≠ '='))
  match OptionName.ofLong? name, text.dropWhile (· ≠ '=') with
  | some option, _ :: value => .complete option (String.ofList value)
  | some option, [] => .incomplete option
  | none, [] => if name = "version" then .version else if name = "help" then .help else .unknown
  | none, _ :: _ => .unknown

/-- What an argument with a dash and a letter is. -/
def Argument.ofLetter (letter : Char) (rest : List Char) : Argument :=
  match OptionName.ofLetter? letter, rest with
  | some option, [] => .incomplete option
  | some option, '=' :: value => .complete option (String.ofList value)
  | some option, value => .complete option (String.ofList value)
  | none, _ => if letter = 'V' then .version else if letter = 'h' then .help else .unknown

/-- What an argument is. A single dash is no option. -/
def Argument.of (text : String) : Argument :=
  match text.toList with
  | '-' :: '-' :: rest => .ofLong rest
  | '-' :: letter :: rest => .ofLetter letter rest
  | _ => .root

namespace Invocation

/-- What options ask for. -/
def ofOptions (o : Options) : Invocation :=
  if o.isConsistent then .analyse o else .misuse

/-- Reads further arguments, all of which are roots. -/
def ofRoots (o : Options) (roots : List String) : Invocation :=
  match roots.foldlM Options.addRoot? o with
  | some o => ofOptions o
  | none => .misuse

/-- Reads further arguments. The first of them that asks for the version or for help, or that is
wrong, decides. -/
def read (o : Options) : List String → Invocation
  | [] => ofOptions o
  | argument :: rest =>
    if argument = "--" then ofRoots o rest
    else
      match Argument.of argument with
      | .version => .version
      | .help => .help
      | .unknown => .misuse
      | .root =>
        match o.addRoot? argument with
        | some o => read o rest
        | none => .misuse
      | .complete name value =>
        match o.set? name value with
        | some o => read o rest
        | none => .misuse
      | .incomplete name =>
        match rest with
        | value :: rest =>
          if Argument.of value = .root then
            match o.set? name value with
            | some o => read o rest
            | none => .misuse
          else .misuse
        | [] => .misuse

/-- What the arguments ask for. -/
def ofArguments (arguments : List String) : Invocation :=
  read {} arguments

end Invocation

end CallForest
