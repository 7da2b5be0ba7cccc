import CallForest.ValuePattern.Mode

/-!
# Sets of characters in value patterns

A set of characters stands in brackets. Its members are characters, ranges, families, named sets and
further sets in brackets, and it may be combined with others by the operators `&&`, `--` and `~~`,
all of which bind alike and to the left. A bracket or a dash at the beginning stands for itself.

A pattern may not nest too deeply, so that reading a set also measures it: a set counts one more
than what is in it, and so do several members together and each operator.

## Main definitions

* `ValuePattern.SetLevel` — what has been read of a set;
* `ValuePattern.SetLevel.depth` — how deep it nests;
* `ValuePattern.Mode.readSet?` — reads a set.
-/

namespace CallForest.ValuePattern

/-- The names of the sets that have one. -/
def setNames : List String :=
  ["alnum", "alpha", "ascii", "blank", "cntrl", "digit", "graph", "lower", "print", "punct",
   "space", "upper", "word", "xdigit"]

/-- Whether a named set, given after its opening bracket, is the complement, and what follows it.
Anything else in brackets is not a named set. -/
def readNamedSet? : List Char → Option (Bool × List Char)
  | ':' :: text =>
    let (negated, text) := match text with
      | '^' :: rest => (true, rest)
      | _ => (false, text)
    match text.dropWhile (· ≠ ':') with
    | ':' :: ']' :: rest =>
      if setNames.contains (String.ofList (text.takeWhile (· ≠ ':'))) then some (negated, rest)
      else none
    | _ => none
  | _ => none

/-- What has been read of a set in brackets. -/
structure SetLevel where
  /-- The number of members since the last operator. -/
  members : Nat := 0
  /-- How deep the deepest of them nests. -/
  deepest : Nat := 0
  /-- How deep the part before the last operator nests, if there is an operator. -/
  operand : Option Nat := none
  /-- Nothing but dashes has been read. -/
  isFresh : Bool := true
deriving DecidableEq, Repr

namespace SetLevel

/-- The set with one more member of the given depth. -/
def add (level : SetLevel) (depth : Nat) : SetLevel :=
  { level with members := level.members + 1, deepest := max level.deepest depth, isFresh := false }

/-- How deep the members since the last operator nest. -/
def membersDepth (level : SetLevel) : Nat :=
  if level.members ≤ 1 then level.deepest else level.deepest + 1

/-- How deep the content of the brackets nests. -/
def depth (level : SetLevel) : Nat :=
  match level.operand with
  | none => level.membersDepth
  | some operand => max operand level.membersDepth + 1

/-- The set after an operator. -/
def operator (level : SetLevel) : SetLevel where
  operand := some level.depth
  isFresh := false

end SetLevel

/-- The symbol at the beginning of a text within brackets, and what follows it. -/
def Mode.readMember? (mode : Mode) : List Char → Option (Symbol × List Char)
  | [] => none
  | '\\' :: rest => mode.readEscape? rest
  | c :: rest => some (.char c false, rest)

/-- What follows a member or a range of characters, if it can be used. A dash makes a range unless
another dash or a closing bracket comes after it. -/
def Mode.passRange? (mode : Mode) (text : List Char) : Option (List Char) := do
  let (first, text) ← mode.readMember? text
  if !mode.admitsMember first then none
  else
    match mode.skip text with
    | '-' :: rest =>
      if mode.ahead? rest = some ']' || mode.ahead? rest = some '-' then some ('-' :: rest)
      else
        match first, ← mode.readMember? (mode.skip rest) with
        | .char low _, (.char high asByte, rest) =>
          if mode.admitsMember (.char high asByte) && low ≤ high then some rest else none
        | _, _ => none
    | rest => some rest

/-- What has been read of sets within sets, innermost first. -/
abbrev SetLevels := List SetLevel

/-- Begins a set after its opening bracket, and gives what follows. The complement of a set of
bytes is refused. -/
def Mode.openSet? (mode : Mode) (levels : SetLevels) (text : List Char) :
    Option (SetLevels × List Char) :=
  match mode.skip text with
  | '^' :: rest => if mode.byCharacter then some ({} :: levels, rest) else none
  | rest => some ({} :: levels, rest)

/-- Reads on in a set, up to its end, and gives the depth of the outermost set and what follows it.
Every round takes a character, so that the length of the text is fuel enough. -/
def Mode.readLevels? (mode : Mode) :
    (fuel : Nat) → SetLevels → List Char → Option (Nat × List Char)
  | 0, _, _ => none
  | _ + 1, [], _ => none
  | fuel + 1, level :: outer, text =>
    let literal := mode.admitsMember (.char ']' false)
    match mode.skip text with
    | [] => none
    | '-' :: rest =>
      if level.isFresh then
        if literal then mode.readLevels? fuel ({ level.add 0 with isFresh := true } :: outer) rest
        else none
      else
        match rest with
        | '-' :: rest => mode.readLevels? fuel (level.operator :: outer) rest
        | _ => do mode.readLevels? fuel (level.add 0 :: outer) (← mode.passRange? ('-' :: rest))
    | ']' :: rest =>
      if level.isFresh && level.members = 0 then
        if literal then mode.readLevels? fuel (level.add 0 :: outer) rest else none
      else
        match outer with
        | [] => some (level.depth + 1, rest)
        | around :: outer => mode.readLevels? fuel (around.add (level.depth + 1) :: outer) rest
    | '[' :: rest =>
      match readNamedSet? rest with
      | some (negated, rest) =>
        if if mode.byCharacter then !mode.folds else !negated then
          mode.readLevels? fuel (level.add 0 :: outer) rest
        else none
      | none => do
        let (levels, rest) ← mode.openSet? ({ level with isFresh := false } :: outer) rest
        mode.readLevels? fuel levels rest
    | '&' :: '&' :: rest | '~' :: '~' :: rest =>
      mode.readLevels? fuel (level.operator :: outer) rest
    | text => do mode.readLevels? fuel (level.add 0 :: outer) (← mode.passRange? text)

/-- The depth of a set that is given after its opening bracket, and what follows it. -/
def Mode.readSet? (mode : Mode) (text : List Char) : Option (Nat × List Char) := do
  let (levels, rest) ← mode.openSet? [] text
  mode.readLevels? (rest.length + 1) levels rest

end CallForest.ValuePattern
