import CallForest.Text.Blank
import CallForest.Text.Digit

/-!
# Symbols of value patterns

A value pattern is a regular expression that a log filter compares with the value of a field. This
module holds what the rest of the grammar is made of: the modes that flags switch on and off, the
blanks that one of the modes passes over, and what an escape stands for.

Patterns are built without tables of character properties. So nothing that needs one can be used
while texts are sequences of characters: no case folding, no families such as digits, no boundaries
of words. While texts are sequences of bytes, these have their ASCII meaning, and what could match
one byte of a longer character is refused instead.

## Main definitions

* `ValuePattern.Mode` — the flags that matter to the form of a pattern;
* `ValuePattern.Mode.skip` — passes over what does not count;
* `ValuePattern.Symbol` — what an escape, or a single character, stands for;
* `ValuePattern.readEscape?` — reads an escape;
* `ValuePattern.Mode.admits`, `ValuePattern.Mode.admitsMember` — which symbols can be used, outside
  and inside of a set of characters.
-/

namespace CallForest.ValuePattern

/-- The flags that matter to the form of a pattern. -/
structure Mode where
  /-- Upper and lower case are alike. -/
  folds : Bool := false
  /-- A text is a sequence of characters rather than bytes. -/
  byCharacter : Bool := true
  /-- Blanks and comments do not count. -/
  isSpaced : Bool := false
deriving DecidableEq, Repr

/-- What follows blanks and comments, each of which goes to the end of its line. -/
def skipSpace (inComment : Bool) : List Char → List Char
  | [] => []
  | c :: rest =>
    if inComment then skipSpace (c ≠ '\n') rest
    else if Text.isBlank c then skipSpace false rest
    else if c = '#' then skipSpace true rest
    else c :: rest

/-- What follows blanks and comments, where they do not count. -/
def Mode.skip (mode : Mode) (text : List Char) : List Char :=
  if mode.isSpaced then skipSpace false text else text

/-- The character that a dash is followed by, looked at without reading on. Where blanks do not
count, it is the first other character, also after a number sign; if there is none, it is the
first character of all. -/
def Mode.ahead? (mode : Mode) (text : List Char) : Option Char :=
  if mode.isSpaced then
    let shown := match text.dropWhile Text.isBlank with
      | '#' :: rest => (rest.dropWhile Text.isBlank).head?
      | rest => rest.head?
    shown <|> text.head?
  else text.head?

/-! ### Symbols -/

/-- What an escape, or a single character, stands for. -/
inductive Symbol where
  /-- A character, which may have been given as the two hexadecimal digits of a byte. -/
  | char (c : Char) (asByte : Bool)
  /-- A digit, a blank or a character of a word, or any other character. -/
  | family (negated : Bool)
  /-- A boundary of a word, or no such boundary. -/
  | boundary
  /-- The beginning or the end of the text. -/
  | edge
deriving DecidableEq, Repr

/-- Whether a character stands for itself after a backslash. -/
def isEscapable (c : Char) : Bool :=
  c.toNat < 0x80 && !c.isAlphanum && c ≠ '<' && c ≠ '>'

/-- The code that a number of hexadecimal digits write, and what follows. -/
def Mode.readCode? (mode : Mode) : (count value : Nat) → List Char → Option (Nat × List Char)
  | 0, value, text => some (value, text)
  | _ + 1, _, [] => none
  | count + 1, value, c :: rest => do
    let digit ← Text.digitValue? c
    mode.readCode? count (value * 16 + digit) (mode.skip rest)

/-- The character whose code has the given number of hexadecimal digits, and what follows. -/
def Mode.readChar? (mode : Mode) (count : Nat) (text : List Char) :
    Option (Symbol × List Char) := do
  let (code, rest) ← mode.readCode? count 0 (mode.skip text)
  return (.char (← Text.charOf? code) (count == 2), rest)

/-- What stands for a character that cannot be typed. -/
def controlLetters : List (Char × Char) :=
  [('a', '\x07'), ('f', '\x0c'), ('t', '\t'), ('n', '\n'), ('r', '\r'), ('v', '\x0b')]

/-- The symbol after a backslash, and what follows it. -/
def Mode.readEscape? (mode : Mode) : List Char → Option (Symbol × List Char)
  | [] => none
  | c :: rest =>
    if c = 'x' then mode.readChar? 2 rest
    else if c = 'u' then mode.readChar? 4 rest
    else if c = 'U' then mode.readChar? 8 rest
    else if ['d', 's', 'w'].contains c then some (.family false, rest)
    else if ['D', 'S', 'W'].contains c then some (.family true, rest)
    else if ['b', 'B', '<', '>'].contains c then some (.boundary, rest)
    else if ['A', 'z'].contains c then some (.edge, rest)
    else if isEscapable c then some (.char c false, rest)
    else (controlLetters.lookup c).map fun control => (.char control false, rest)

/-- Whether a symbol can be used outside of a set of characters. -/
def Mode.admits (mode : Mode) : Symbol → Bool
  | .char c asByte => if mode.byCharacter then !mode.folds else !(asByte && 0x80 ≤ c.toNat)
  | .family negated => !mode.byCharacter && !negated
  | .boundary => !mode.byCharacter
  | .edge => true

/-- Whether a symbol can be used as a member of a set of characters. -/
def Mode.admitsMember (mode : Mode) : Symbol → Bool
  | .char c _ => if mode.byCharacter then !mode.folds else c.toNat < 0x80
  | .family negated => !mode.byCharacter && !negated
  | .boundary | .edge => false

end CallForest.ValuePattern
