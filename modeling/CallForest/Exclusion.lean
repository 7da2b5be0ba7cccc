import CallForest.Glob.Parser
import CallForest.Text.Blank

/-!
# Exclusions

A set of glob patterns that says which files are left out of a scan. A file is left out only when
every pattern matches its path, so that more patterns leave out less. Blank patterns do not count,
and no pattern at all leaves out nothing.

## Main definitions

* `ExclusionSet` — the patterns;
* `ExclusionSet.ofPatterns` — reads patterns;
* `ExclusionSet.excludes` — whether a file is left out.
-/

namespace CallForest

/-- A pattern that cannot be read. -/
structure PatternError where
  pattern : String
  flaw : Glob.Flaw
deriving DecidableEq, Repr

/-- The wording of the error. -/
def PatternError.message (e : PatternError) : String :=
  "invalid exclusion pattern '" ++ e.pattern ++ "': error parsing glob '" ++ e.pattern ++ "': " ++
    e.flaw.message

/-- A pattern with its text. -/
structure ExclusionPattern where
  text : String
  pieces : List Glob.Piece

/-- The patterns of a scan. -/
structure ExclusionSet where
  patterns : List ExclusionPattern := []

namespace ExclusionSet

/-- Reads the patterns that are not blank. -/
def ofPatterns (texts : List String) : Except PatternError ExclusionSet := do
  let patterns ← (texts.filter fun text => !Text.isBlankText text).mapM fun text =>
    match Glob.parse text with
    | .ok pieces => .ok { text, pieces : ExclusionPattern }
    | .error flaw => .error { pattern := text, flaw }
  return { patterns }

/-- Whether the file with the given path is left out. -/
def excludes (set : ExclusionSet) (path : String) : Bool :=
  !set.patterns.isEmpty && set.patterns.all fun p => Glob.isMatch p.pieces path

end ExclusionSet

end CallForest
