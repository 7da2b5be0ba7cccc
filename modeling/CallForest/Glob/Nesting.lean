import CallForest.Glob.Pattern

/-!
# Nesting of glob patterns

A pattern can be used only if it does not nest too deeply. A piece counts by what it is made of: one
level for a class, for a repetition, for a group, for several alternatives in a group and for
several parts in a row.

## Main definitions

* `Glob.Piece.parts`, `Glob.Piece.depth` — how many parts in a row a piece is, and how deep they
  nest;
* `Glob.nesting` — how deep a pattern nests.
-/

namespace CallForest.Glob

/-- The number of parts in a row that a piece is made of. -/
def Piece.parts : Piece → Nat
  | .literal c => (Text.Utf8.encodeChar c).length
  | .trailing => 2
  | .choice branches => if allBranchesVoid branches then 0 else 1
  | _ => 1

/-- The number of parts in a row that several pieces are made of. -/
def partsInRow (pieces : List Piece) : Nat :=
  pieces.foldl (fun n p => n + p.parts) 0

/-- The level that several things together take. -/
def together (count : Nat) : Nat :=
  if 2 ≤ count then 1 else 0

mutual

/-- How deep a piece nests. -/
def Piece.depth : Piece → Nat
  | .literal _ => 0
  | .any | .trailing => 1
  | .star => 2
  | .leading | .between => 4
  | .oneOf _ ranges => 1 + together (ranges.flatMap byteRanges).length
  | .choice branches =>
    let count := (branches.filter fun branch => !allVoid branch).length
    if allBranchesVoid branches then 0 else 1 + together count + branchesDepth branches

/-- How deep the deepest of several pieces nests. -/
def piecesDepth : List Piece → Nat
  | [] => 0
  | p :: rest => max p.depth (piecesDepth rest)

/-- How deep the deepest of several branches nests. -/
def branchesDepth : List (List Piece) → Nat
  | [] => 0
  | branch :: rest =>
    max (together (partsInRow branch) + piecesDepth branch) (branchesDepth rest)

end

/-- How deep a pattern nests. Its pieces stand in a row with its beginning and its end. -/
def nesting (pieces : List Piece) : Nat :=
  1 + piecesDepth pieces

/-- How deep a pattern may nest. -/
def nestingLimit : Nat := 250

end CallForest.Glob
