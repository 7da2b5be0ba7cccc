import CallForest.Glob.Nesting

/-!
# Reading glob patterns

The text of a pattern is read from left to right. `?` is one byte, `*` any number of bytes within a
name, `**` directories if it stands between separators, `[..]` a class of bytes, and braces hold
alternatives between commas. A backslash takes away the meaning of the next character, but not in a
class.

## Main definitions

* `Glob.Flaw` — what is wrong with a pattern;
* `Glob.State` — what has been read;
* `Glob.parse` — the pieces of a pattern.
-/

namespace CallForest.Glob

/-- What is wrong with a pattern. -/
inductive Flaw where
  | unclosedClass
  | invalidRange (low high : Char)
  | unclosedBraces
  | unopenedBraces
  | danglingEscape
  /-- The pattern is well formed, but nests too deeply to be used. -/
  | tooDeep
deriving DecidableEq, Repr

/-- The wording of a flaw. -/
def Flaw.message : Flaw → String
  | .unclosedClass => "unclosed character class; missing ']'"
  | .invalidRange low high =>
    "invalid range; '" ++ String.singleton low ++ "' > '" ++ String.singleton high ++ "'"
  | .unclosedBraces =>
    "unclosed alternate group; missing '\x7d' (maybe escape '\x7b' with '[\x7b]'?)"
  | .unopenedBraces =>
    "unopened alternate group; missing '\x7b' (maybe escape '\x7d' with '[\x7d]'?)"
  | .danglingEscape => "dangling '\\'"
  | .tooDeep => "nested too deeply"

/-- Whether a flaw cannot be handled at all. -/
def Flaw.isFatal : Flaw → Bool
  | .tooDeep => true
  | _ => false

/-- A class of bytes that is being read. -/
structure OpenClass where
  negated : Bool
  /-- The ranges so far, last first. -/
  ranges : List (Char × Char) := []
  /-- Nothing has been read yet, so that a closing bracket or a dash stands for itself. -/
  isFirst : Bool := true
  /-- A dash has been read, so that the next character ends the last range. -/
  inRange : Bool := false

/-- A group of alternatives that is being read. -/
structure OpenGroup where
  /-- The pieces before the group, last first. -/
  before : List Piece
  /-- The finished alternatives, last first. -/
  branches : List (List Piece) := []

/-- What has been read of a pattern. -/
structure State where
  /-- The pieces of the current alternative or of the pattern, last first. -/
  pieces : List Piece := []
  /-- The open groups, innermost first. -/
  groups : List OpenGroup := []
  /-- The character before the next one. -/
  last : Option Char := none

namespace State

/-- The state with one more piece, after the character `c`. -/
def push (s : State) (p : Piece) (c : Char) : State :=
  { s with pieces := p :: s.pieces, last := some c }

/-- The state after two stars that have no special meaning. -/
def pushStars (s : State) : State :=
  (s.push .star '*').push .star '*'

/-- Whether two stars at this place may stand for directories: after a separator, or at the
beginning of an alternative. -/
def mayCross (s : State) : Bool :=
  s.last = some '/' ||
    (!s.groups.isEmpty && (s.last = some ',' || s.last = some '\x7b'))

/-- The state after stars that stand for directories, up to the character `c`. They take the place
of the separator before them, and are taken up by such stars before them. -/
def crossing (s : State) (p : Piece) (c : Char) : State :=
  match s.pieces with
  | .leading :: _ | .trailing :: _ => { s with last := some c }
  | _ :: before => { s with pieces := p :: before, last := some c }
  | [] => s.push p c

/-- The state after an opening brace. -/
def openGroup (s : State) : State where
  groups := { before := s.pieces } :: s.groups
  last := some '\x7b'

/-- The state after a comma: the next alternative of a group, or a comma. -/
def comma (s : State) : State :=
  match s.groups with
  | g :: outer =>
    { groups := { g with branches := s.pieces.reverse :: g.branches } :: outer, last := some ',' }
  | [] => s.push (.literal ',') ','

/-- The state after a closing brace. -/
def closeGroup (s : State) : Except Flaw State :=
  match s.groups with
  | g :: outer =>
    let branches := (s.pieces.reverse :: g.branches).reverse
    .ok { pieces := .choice branches :: g.before, groups := outer, last := some '\x7d' }
  | [] => .error .unopenedBraces

end State

/-- The class after a character other than the bracket that closes it. -/
def OpenClass.add (k : OpenClass) (c : Char) : Except Flaw OpenClass :=
  if k.inRange then
    match k.ranges with
    | (low, _) :: before =>
      if c < low then .error (.invalidRange low c)
      else .ok { k with ranges := (low, c) :: before, isFirst := false, inRange := false }
    | [] => .ok { k with ranges := [(c, c)], isFirst := false, inRange := false }
  else if c = '-' && !k.isFirst then .ok { k with inRange := true }
  else .ok { k with ranges := (c, c) :: k.ranges, isFirst := false }

/-- The piece of a class. A dash at its end stands for itself. -/
def OpenClass.piece (k : OpenClass) : Piece :=
  .oneOf k.negated ((if k.inRange then ('-', '-') :: k.ranges else k.ranges).reverse)

mutual

/-- Reads the rest of a pattern. -/
def parseFrom (s : State) : List Char → Except Flaw (List Piece)
  | [] => if s.groups.isEmpty then .ok s.pieces.reverse else .error .unclosedBraces
  | '?' :: rest => parseFrom (s.push .any '?') rest
  | '*' :: '*' :: '/' :: rest =>
    if s.pieces.isEmpty then parseFrom (s.push .leading '/') rest
    else if s.mayCross then parseFrom (s.crossing .between '/') rest
    else parseFrom (s.pushStars.push (.literal '/') '/') rest
  | '*' :: '*' :: rest =>
    let atEnd := rest.isEmpty ||
      (!s.groups.isEmpty && !s.pieces.isEmpty &&
        (rest.head? = some ',' || rest.head? = some '\x7d'))
    if atEnd && s.pieces.isEmpty then parseFrom (s.push .leading '*') rest
    else if atEnd && s.mayCross then parseFrom (s.crossing .trailing '*') rest
    else parseFrom s.pushStars rest
  | '*' :: rest => parseFrom (s.push .star '*') rest
  | '[' :: '!' :: rest => classFrom s { negated := true } rest
  | '[' :: '^' :: rest => classFrom s { negated := true } rest
  | '[' :: rest => classFrom s { negated := false } rest
  | '\x7b' :: rest => parseFrom s.openGroup rest
  | '\x7d' :: rest => do parseFrom (← s.closeGroup) rest
  | ',' :: rest => parseFrom s.comma rest
  | '\\' :: [] => .error .danglingEscape
  | '\\' :: c :: rest => parseFrom (s.push (.literal c) c) rest
  | c :: rest => parseFrom (s.push (.literal c) c) rest

/-- Reads the rest of a pattern from inside a class. -/
def classFrom (s : State) (k : OpenClass) : List Char → Except Flaw (List Piece)
  | [] => .error .unclosedClass
  | c :: rest =>
    if c = ']' && !k.isFirst then parseFrom (s.push k.piece ']') rest
    else do classFrom s (← k.add c) rest

end

/-- The pieces of a pattern. -/
def parse (pattern : String) : Except Flaw (List Piece) := do
  let pieces ← parseFrom {} pattern.toList
  if nesting pieces ≤ nestingLimit then return pieces else throw .tooDeep

end CallForest.Glob
