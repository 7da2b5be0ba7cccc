/-!
# Runs of code points

A set of characters given as runs of consecutive code points, which is how the properties of
characters are tabulated.

## Main definitions

* `Text.inRuns` — whether a character belongs to such a set.
-/

namespace CallForest.Text

/-- Whether one of the runs, each given by its first and last code point, holds a character. -/
def inRuns (runs : List (Nat × Nat)) (c : Char) : Bool :=
  runs.any fun r => r.1 ≤ c.toNat && c.toNat ≤ r.2

end CallForest.Text
