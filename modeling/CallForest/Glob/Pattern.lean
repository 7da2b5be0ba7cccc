import CallForest.Text.Utf8

/-!
# Glob patterns

A pattern over paths, and when it matches one. A path is taken as its UTF-8 bytes. A pattern is a
list of pieces, and each piece takes some bytes of the path. All ways of taking them are followed
at once: a place of the path, before its first byte or after one of its bytes, is marked when the
pieces so far can end there, and a piece turns the marks into those of the places where it can end.
The pattern matches when the pieces can end after the last byte.

## Main definitions

* `Glob.Piece` — a piece of a pattern;
* `Glob.sweep` — new marks from one pass over a path;
* `Glob.Piece.advance` — the places where a piece can end;
* `Glob.isMatch` — whether a pattern matches a path.
-/

namespace CallForest.Glob

/-- A piece of a pattern. -/
inductive Piece where
  /-- The character itself. -/
  | literal (c : Char)
  /-- One byte other than the separator. -/
  | any
  /-- Any number of bytes other than the separator. -/
  | star
  /-- Directories at the beginning: nothing, or anything up to a separator. -/
  | leading
  /-- Everything below a directory: a separator and anything. -/
  | trailing
  /-- Directories in between: a separator, or anything between two separators. -/
  | between
  /-- One byte in one of the ranges, or in none of them. -/
  | oneOf (negated : Bool) (ranges : List (Char × Char))
  /-- One of several lists of pieces. -/
  | choice (branches : List (List Piece))
deriving Inhabited, BEq

/-- The separator of paths. -/
def separator : UInt8 := 0x2f

/-- The byte ranges of a range of characters. The bytes of the ends stand for themselves, and only
the last byte of the lower end and the first byte of the upper end span a range. -/
def byteRanges (range : Char × Char) : List (UInt8 × UInt8) :=
  let lower := Text.Utf8.encodeChar range.1
  let upper := Text.Utf8.encodeChar range.2
  if range.1 = range.2 then lower.map fun b => (b, b)
  else
    let span := match lower.getLast?, upper.head? with
      | some low, some high => [(low, high)]
      | _, _ => []
    lower.dropLast.map (fun b => (b, b)) ++ span ++ upper.tail.map fun b => (b, b)

/-- Whether a byte lies in one of the ranges of characters. -/
def inRanges (ranges : List (Char × Char)) (b : UInt8) : Bool :=
  (ranges.flatMap byteRanges).any fun r => r.1 ≤ b && b ≤ r.2

/-! ### Marks on a path

A path of `n` bytes has `n + 1` places, and as many marks. -/

/-- New marks from one pass over a path: `mark` decides on a place by what is known there and by its
old mark, and `pass` says what is known after the next byte. -/
def sweep {σ : Type} (mark : σ → Bool → Bool) (pass : σ → Bool → UInt8 → σ) :
    (known : σ) → (path : List UInt8) → (marks : List Bool) → List Bool
  | _, _, [] => []
  | known, [], m :: _ => [mark known m]
  | known, b :: path, m :: marks => mark known m :: sweep mark pass (pass known m b) path marks

/-- The places after one byte that passes the test. -/
def afterByte (test : UInt8 → Bool) (path : List UInt8) (marks : List Bool) : List Bool :=
  sweep (fun known _ => known) (fun _ m b => m && test b) false path marks

/-- The places after any number of bytes other than the separator. -/
def withinName (path : List UInt8) (marks : List Bool) : List Bool :=
  sweep (fun within m => within || m) (fun within m b => (within || m) && b != separator) false
    path marks

/-- The same places, and all places after a later separator. -/
def acrossDirectories (path : List UInt8) (marks : List Bool) : List Bool :=
  sweep (fun (begun, behind) m => m || (begun && behind))
    (fun (begun, _) m b => (begun || m, b == separator)) (false, false) path marks

/-- All places after a separator that stands at a marked place. -/
def belowDirectory (path : List UInt8) (marks : List Bool) : List Bool :=
  sweep (fun begun _ => begun) (fun begun m b => begun || (m && b == separator)) false path marks

/-- The places right after a separator, which stands at a marked place or later than a separator
that does. -/
def betweenDirectories (path : List UInt8) (marks : List Bool) : List Bool :=
  sweep (fun (begun, behind) _ => begun && behind)
    (fun (begun, _) m b => (begun || (m && b == separator), b == separator)) (false, false)
    path marks

mutual

/-- Whether a piece stands for nothing at all: a choice between lists that stand for nothing. -/
def Piece.isVoid : Piece → Bool
  | .choice branches => allBranchesVoid branches
  | _ => false

/-- Whether every piece stands for nothing. -/
def allVoid : List Piece → Bool
  | [] => true
  | p :: rest => p.isVoid && allVoid rest

/-- Whether every branch stands for nothing. -/
def allBranchesVoid : List (List Piece) → Bool
  | [] => true
  | branch :: rest => allVoid branch && allBranchesVoid rest

end

mutual

/-- The places of a path where a piece can end that begins at a marked place. A branch that stands
for nothing does not count, unless all of them do. -/
def Piece.advance (path : List UInt8) : Piece → (marks : List Bool) → List Bool
  | .literal c, marks =>
    (Text.Utf8.encodeChar c).foldl (fun marks b => afterByte (· == b) path marks) marks
  | .any, marks => afterByte (· != separator) path marks
  | .star, marks => withinName path marks
  | .leading, marks => acrossDirectories path marks
  | .trailing, marks => belowDirectory path marks
  | .between, marks => betweenDirectories path marks
  | .oneOf negated ranges, marks => afterByte (fun b => inRanges ranges b != negated) path marks
  | .choice branches, marks =>
    if allBranchesVoid branches then marks else advanceBranches path branches marks

/-- The places of a path where a list of pieces can end. -/
def advancePieces (path : List UInt8) : List Piece → (marks : List Bool) → List Bool
  | [], marks => marks
  | p :: rest, marks => advancePieces path rest (p.advance path marks)

/-- The places of a path where one of the branches can end that do not stand for nothing. -/
def advanceBranches (path : List UInt8) : List (List Piece) → (marks : List Bool) → List Bool
  | [], marks => marks.map fun _ => false
  | branch :: rest, marks =>
    let others := advanceBranches path rest marks
    if allVoid branch then others
    else (advancePieces path branch marks).zipWith or others

end

/-- Whether a pattern matches a path. A pattern of directories only matches every path. -/
def isMatch (pieces : List Piece) (path : String) : Bool :=
  match pieces with
  | [.leading] => true
  | _ =>
    let bytes := Text.Utf8.encode path
    (advancePieces bytes pieces (true :: bytes.map fun _ => false)).getLast? == some true

end CallForest.Glob
