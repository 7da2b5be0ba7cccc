import CallForest.Text.Blank
import CallForest.Text.Letter
import CallForest.Text.Utf8
import CallForest.ValuePattern.Grammar

/-!
# Log filters

A log filter is a list of directives between commas. A directive is a level, or a target and a span
in brackets, either of which may be missing, with a level after an equals sign. A span may have a
field in braces, with a value that is a number or a pattern. Empty directives do not count.

A directive is read without the blanks around it, but its parts are cut out of the directive as it
stands, at the offsets at which they were found. Blanks at the beginning therefore shift every part
to the left. An offset that falls into a character makes the cut impossible.

## Main definitions

* `LogFilter.Flaw` — what is wrong with a filter;
* `LogFilter.isLevel`, `LogFilter.isField` — whether a text names a level, or is a field;
* `LogFilter.Place` — how far a directive has been read;
* `LogFilter.checkDirective`, `LogFilter.check` — looks for flaws.
-/

namespace CallForest.LogFilter

/-- What is wrong with a log filter. -/
inductive Flaw where
  | malformed
  /-- A part would begin or end within a character. -/
  | indivisible
deriving DecidableEq, Repr

/-! ### Parts of directives -/

/-- The names of the levels. -/
def levelNames : List String :=
  ["off", "error", "warn", "info", "debug", "trace"]

/-- Whether a text names a level, in either case or by its number. -/
def isLevel (text : List Char) : Bool :=
  let digits := match text with
    | '+' :: rest => rest
    | _ => text
  let isNumber := !digits.isEmpty && digits.all Char.isDigit
  if isNumber then (String.ofList digits).toNat?.any (· < levelNames.length)
  else levelNames.contains (String.ofList (text.map Char.toLower))

/-- The text without a sign at its beginning. -/
def dropSign : List Char → List Char
  | '+' :: rest | '-' :: rest => rest
  | text => text

/-- Whether a text is empty or an exponent of ten. -/
def isExponent : List Char → Bool
  | [] => true
  | c :: rest =>
    let digits := dropSign rest
    c.toLower = 'e' && !digits.isEmpty && digits.all Char.isDigit

/-- Whether a text is a decimal number: digits with a point among them or not, and perhaps an
exponent. -/
def isDecimal (text : List Char) : Bool :=
  let rest := text.dropWhile Char.isDigit
  match rest with
  | '.' :: fraction =>
    (text.head?.any Char.isDigit || fraction.head?.any Char.isDigit) &&
      isExponent (fraction.dropWhile Char.isDigit)
  | _ => text.head?.any Char.isDigit && isExponent rest

/-- Whether a text is a number, perhaps with a sign. -/
def isNumber (text : List Char) : Bool :=
  let amount := dropSign text
  isDecimal amount ||
    ["inf", "infinity", "nan"].contains (String.ofList (amount.map Char.toLower))

/-- Whether a text is a field: a name, and perhaps an equals sign and a value. What follows a second
equals sign does not count. -/
def isField (text : List Char) : Bool :=
  !text.isEmpty &&
    match text.dropWhile (· ≠ '=') with
    | [] => true
    | _ :: rest =>
      let value := rest.takeWhile (· ≠ '=')
      isNumber value || ValuePattern.isValid value

/-! ### Directives -/

/-- How far a directive has been read. The parts that are not finished come with their offsets. -/
inductive Place where
  | start
  | target
  | span (first : Nat)
  | field (first : Nat)
  | afterFields
  | afterSpan
  | level (first : Nat)
deriving DecidableEq, Repr

/-- Whether a directive may begin with a character. -/
def beginsTarget (c : Char) : Bool :=
  ['-', ':', '_'].contains c || Text.isLetterOrNumber c

/-- The part of a directive between two offsets. -/
def part (text : List Char) (first last : Nat) : Except Flaw (List Char) :=
  match Text.Utf8.slice? text first last with
  | some part => .ok part
  | none => .error .indivisible

/-- The place after one more character, which stands at the given offset. -/
def Place.next (text : List Char) (place : Place) (offset : Nat) (c : Char) :
    Except Flaw Place := do
  match place with
  | .start =>
    if c = '[' then return .span (offset + 1)
    else if beginsTarget c then return .target
    else throw .malformed
  | .target =>
    if c = '=' || c = '[' then
      let _ ← part text 0 offset
      return if c = '=' then .level (offset + 1) else .span (offset + 1)
    else return .target
  | .span first =>
    if c = ']' || c = '\x7b' then
      let _ ← part text first offset
      return if c = ']' then .afterSpan else .field (offset + 1)
    else return .span first
  | .field first =>
    if c = '\x7d' then
      if isField (← part text first offset) then return .afterFields else throw .malformed
    else return .field first
  | .afterFields => if c = ']' then return .afterSpan else throw .malformed
  | .afterSpan => if c = '=' then return .level (offset + 1) else throw .malformed
  | .level first => return .level first

/-- The place after the rest of a directive, which stands at the given offset. -/
def Place.after (text : List Char) : (place : Place) → (offset : Nat) → List Char →
    Except Flaw Place
  | place, _, [] => .ok place
  | place, offset, c :: rest => do
    let next ← place.next text offset c
    next.after text (offset + (Text.Utf8.encodeChar c).length) rest

/-- Looks for a flaw in a directive. -/
def checkDirective (directive : String) : Except Flaw Unit := do
  let text := directive.toList
  match ← Place.start.after text 0 (Text.trim directive).toList with
  | .target | .afterSpan => return
  | .level first =>
    let level ← part text first (Text.Utf8.size directive)
    if level.isEmpty || isLevel level then return else throw .malformed
  | _ => throw .malformed

/-- Looks for the first flaw in a log filter. -/
def check (filter : String) : Except Flaw Unit :=
  ((filter.splitOn ",").filter (· ≠ "")).forM checkDirective

end CallForest.LogFilter
