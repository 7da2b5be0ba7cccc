import CallForest.Text.Letter
import CallForest.ValuePattern.CharacterSet

/-!
# The grammar of value patterns

A pattern is a list of alternatives between bars, each of them a list of items: characters, sets,
assertions and groups in parentheses, all of which may be repeated. Flags in parentheses hold up to
the end of the group that they stand in. Repetition with a count is not part of the grammar, since
the value of a field ends at its closing brace.

## Main definitions

* `ValuePattern.GroupLevel` — what has been read of a group;
* `ValuePattern.readFlags?`, `ValuePattern.readName?` — what may stand at the beginning of a group;
* `ValuePattern.State` — what has been read of a pattern;
* `ValuePattern.State.step?` — one more item;
* `ValuePattern.isValid` — whether a text is a pattern.
-/

namespace CallForest.ValuePattern

/-! ### Groups -/

/-- The last item of an alternative. -/
inductive LastItem where
  | none
  /-- Flags, which cannot be repeated. -/
  | flags
  /-- An item that nests so deep. -/
  | item (depth : Nat)
deriving DecidableEq, Repr

/-- How deep the last item nests. -/
def LastItem.depth : LastItem → Nat
  | .none | .flags => 0
  | .item depth => depth

/-- What has been read of a group, or of the pattern outside of all groups. -/
structure GroupLevel where
  /-- How deep the deepest finished alternative nests, if one is finished. -/
  finished : Option Nat := none
  /-- The number of items of the current alternative. -/
  items : Nat := 0
  /-- How deep the deepest item before the last one nests. -/
  deepest : Nat := 0
  last : LastItem := .none
deriving DecidableEq, Repr

namespace GroupLevel

/-- The group with one more item. -/
def add (level : GroupLevel) (item : LastItem) : GroupLevel :=
  { level with
    items := level.items + 1
    deepest := max level.deepest level.last.depth
    last := item }

/-- How deep the current alternative nests: several items together count one more. -/
def alternativeDepth (level : GroupLevel) : Nat :=
  if level.items ≤ 1 then level.last.depth else max level.deepest level.last.depth + 1

/-- How deep the alternatives nest: several of them together count one more. -/
def depth (level : GroupLevel) : Nat :=
  match level.finished with
  | none => level.alternativeDepth
  | some finished => max finished level.alternativeDepth + 1

/-- The group after a bar. -/
def bar (level : GroupLevel) : GroupLevel where
  finished := some (max (level.finished.getD 0) level.alternativeDepth)

/-- The group with its last item repeated. -/
def repeated? (level : GroupLevel) : Option GroupLevel :=
  match level.last with
  | .item depth => some { level with last := .item (depth + 1) }
  | .none | .flags => none

end GroupLevel

/-! ### Flags and names -/

/-- The letters of the flags. -/
def flagLetters : List Char :=
  ['i', 'm', 's', 'U', 'u', 'R', 'x']

/-- Flags, after those already read, last first, and what follows them with the mark that ends
them. None may come twice, and the dash before those to be switched off may not come last. -/
def readFlags? (read : List Char) : List Char → Option (List Char × List Char)
  | [] => none
  | c :: rest =>
    if c = ':' || c = ')' then
      if read.head? = some '-' then none else some (read.reverse, c :: rest)
    else if (c = '-' || flagLetters.contains c) && !read.contains c then readFlags? (c :: read) rest
    else none

/-- What flags say about a letter, and else what held before. -/
def flagState (flags : List Char) (letter : Char) (before : Bool) : Bool :=
  if (flags.takeWhile (· ≠ '-')).contains letter then true
  else if flags.contains letter then false
  else before

/-- The mode that flags switch to. -/
def Mode.set (mode : Mode) (flags : List Char) : Mode where
  folds := flagState flags 'i' mode.folds
  byCharacter := flagState flags 'u' mode.byCharacter
  isSpaced := flagState flags 'x' mode.isSpaced

/-- Whether a character may begin the name of a group. -/
def beginsName (c : Char) : Bool :=
  c = '_' || Text.isLetter c

/-- Whether a character may stand in the name of a group. -/
def isNameChar (c : Char) : Bool :=
  ['_', '.', '[', ']'].contains c || Text.isLetterOrNumber c

/-- The name of a group up to its closing angle, and what follows it. -/
def readName? (text : List Char) : Option (String × List Char) :=
  match text.takeWhile (· ≠ '>'), text.dropWhile (· ≠ '>') with
  | c :: name, _ :: rest =>
    if beginsName c && name.all isNameChar then some (String.ofList (c :: name), rest) else none
  | _, _ => none

/-! ### Patterns -/

/-- What has been read of a pattern. -/
structure State where
  mode : Mode := {}
  level : GroupLevel := {}
  /-- The groups around the current one, innermost first, with the modes that come back at its
  end. -/
  outer : List (Mode × GroupLevel) := []
  /-- The names that groups have. -/
  names : List String := []
deriving DecidableEq, Repr

namespace State

/-- The state after one more item. -/
def add (s : State) (depth : Nat) : State :=
  { s with level := s.level.add (.item depth) }

/-- The state at the beginning of a group in the given mode. -/
def openGroup (s : State) (mode : Mode) : State :=
  { s with mode, level := {}, outer := (s.mode, s.level) :: s.outer }

/-- The state after an opening parenthesis and what belongs to it, and what follows. Groups that
look around are not part of the grammar. -/
def enterGroup? (s : State) (text : List Char) : Option (State × List Char) :=
  match s.mode.skip text with
  | '?' :: '<' :: '=' :: _ | '?' :: '<' :: '!' :: _ => none
  | '?' :: 'P' :: '<' :: rest | '?' :: '<' :: rest => do
    let (name, rest) ← readName? rest
    if s.names.contains name then none
    else return ({ s.openGroup s.mode with names := name :: s.names }, rest)
  | '?' :: rest => do
    match ← readFlags? [] rest with
    | (flags, ':' :: rest) => return (s.openGroup (s.mode.set flags), rest)
    | (flags, _ :: rest) =>
      if flags.isEmpty then none
      else return ({ s with mode := s.mode.set flags, level := s.level.add .flags }, rest)
    | (_, []) => none
  | rest => some (s.openGroup s.mode, rest)

/-- The state after a closing parenthesis. -/
def leaveGroup? (s : State) : Option State :=
  match s.outer with
  | (mode, level) :: outer =>
    some { s with mode, level := level.add (.item (s.level.depth + 1)), outer }
  | [] => none

/-- The state after a symbol, if it can be used. -/
def symbol? (s : State) (symbol : Symbol) : Option State :=
  if s.mode.admits symbol then some (s.add 0) else none

/-- The state after one more character or what it begins, and what follows. A mark of repetition may
be followed by a question mark, which makes it as short as possible. -/
def step? (s : State) : List Char → Option (State × List Char)
  | [] => none
  | '(' :: rest => s.enterGroup? rest
  | ')' :: rest => do return (← s.leaveGroup?, rest)
  | '|' :: rest => some ({ s with level := s.level.bar }, rest)
  | '[' :: rest => do
    let (depth, rest) ← s.mode.readSet? rest
    return (s.add depth, rest)
  | '\x7b' :: _ => none
  | '\\' :: rest => do
    let (symbol, rest) ← s.mode.readEscape? rest
    return (← s.symbol? symbol, rest)
  | '.' :: rest => if s.mode.byCharacter then some (s.add 0, rest) else none
  | c :: rest =>
    if ['?', '*', '+'].contains c then do
      let level ← s.level.repeated?
      let rest := match rest with
        | '?' :: rest => rest
        | _ => rest
      return ({ s with level }, rest)
    else if c = '^' || c = '$' then some (s.add 0, rest)
    else do return (← s.symbol? (.char c false), rest)

/-- Reads the rest of a pattern. Every round takes a character, so that the length of the text is
fuel enough. -/
def run? : (fuel : Nat) → State → List Char → Option State
  | 0, _, _ => none
  | fuel + 1, s, text =>
    match s.mode.skip text with
    | [] => some s
    | text => do
      let (s, rest) ← s.step? text
      run? fuel s rest

end State

/-- How deep a pattern may nest. -/
def depthLimit : Nat := 250

/-- Whether a text is a pattern: all of it can be read, every group is closed, and it does not nest
too deeply. -/
def isValid (text : List Char) : Bool :=
  (State.run? (text.length + 1) {} text).any fun s =>
    s.outer.isEmpty && s.level.depth ≤ depthLimit

end CallForest.ValuePattern
