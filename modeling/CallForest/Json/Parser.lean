import CallForest.Json.Basic
import CallForest.Text.Digit

/-!
# Reading JSON

The grammar of JSON texts over lists of characters. Blank space is the four characters space, tab,
line feed and carriage return. Strings are read as sequences of code values first, because an
escape may name half of a surrogate pair; the sequence is text when the halves pair up.

## Main definitions

* `Json.codes?` — the code values of a string, and what follows it;
* `Json.textOf?` — the text of a sequence of code values;
* `Json.numberLiteral?` — the literal of a number, and what follows it;
* `Json.parse?` — the value of a whole text.
-/

namespace CallForest.Json

/-- Blank space between tokens. -/
def isSpace (c : Char) : Bool :=
  c = ' ' || c = '\n' || c = '\t' || c = '\r'

/-- The value of four hexadecimal digits. -/
def hex4? (a b c d : Char) : Option Nat :=
  Text.number? 16 [a, b, c, d]

/-- The code value of a one-letter escape. -/
def shortEscape? (c : Char) : Option Nat :=
  if c = '"' ∨ c = '\\' ∨ c = '/' then some c.toNat
  else if c = 'b' then some 8
  else if c = 'f' then some 12
  else if c = 'n' then some 10
  else if c = 'r' then some 13
  else if c = 't' then some 9
  else none

/-- The code values of a string whose opening quote has been read, and what follows its closing
quote. A control character may not stand in it. -/
def codes? : List Char → Option (List Nat × List Char)
  | [] => none
  | '"' :: rest => some ([], rest)
  | '\\' :: 'u' :: a :: b :: c :: d :: rest => do
    let code ← hex4? a b c d
    let (codes, after) ← codes? rest
    return (code :: codes, after)
  | '\\' :: c :: rest => do
    let code ← shortEscape? c
    let (codes, after) ← codes? rest
    return (code :: codes, after)
  | c :: rest => do
    if c = '\\' ∨ c.toNat < 0x20 then none
    let (codes, after) ← codes? rest
    return (c.toNat :: codes, after)

/-- The text of a sequence of code values: halves of surrogate pairs have to stand in pairs. -/
def textOf? : List Nat → Option (List Char)
  | [] => some []
  | u :: rest =>
    if 0xd800 ≤ u ∧ u < 0xdc00 then
      match rest with
      | [] => none
      | v :: rest' =>
        if 0xdc00 ≤ v ∧ v < 0xe000 then
          (textOf? rest').map (Char.ofNat (0x10000 + (u - 0xd800) * 0x400 + (v - 0xdc00)) :: ·)
        else none
    else if 0xdc00 ≤ u ∧ u < 0xe000 then none
    else (textOf? rest).map (Char.ofNat u :: ·)

/-- One or more decimal digits, and what follows them. -/
def digits? (cs : List Char) : Option (List Char × List Char) :=
  match cs.takeWhile Char.isDigit with
  | [] => none
  | ds => some (ds, cs.dropWhile Char.isDigit)

/-- The whole part of a number: zero alone, or digits that do not start with zero. -/
def wholePart? : List Char → Option (List Char × List Char)
  | '0' :: rest => if (rest.head?.map Char.isDigit) = some true then none else some (['0'], rest)
  | cs => digits? cs

/-- The fraction of a number, empty when there is none. -/
def fractionPart? : List Char → Option (List Char × List Char)
  | '.' :: rest => (digits? rest).map fun (ds, after) => ('.' :: ds, after)
  | cs => some ([], cs)

/-- The exponent of a number, empty when there is none. -/
def exponentPart? : List Char → Option (List Char × List Char)
  | [] => some ([], [])
  | e :: rest =>
    if e = 'e' ∨ e = 'E' then
      match rest with
      | [] => none
      | s :: rest' =>
        if s = '+' ∨ s = '-' then (digits? rest').map fun (ds, after) => (e :: s :: ds, after)
        else (digits? (s :: rest')).map fun (ds, after) => (e :: ds, after)
    else some ([], e :: rest)

/-- The literal of a number, and what follows it. -/
def numberLiteral? (cs : List Char) : Option (List Char × List Char) := do
  let (sign, cs) := match cs with
    | '-' :: rest => (['-'], rest)
    | _ => ([], cs)
  let (whole, cs) ← wholePart? cs
  let (fraction, cs) ← fractionPart? cs
  let (exponent, cs) ← exponentPart? cs
  return (sign ++ whole ++ fraction ++ exponent, cs)

/-- An object, unless one of its keys is no text. -/
def ofMembers (members : List (Option String × Json)) : Json :=
  match members.mapM fun (key, value) => key.map (·, value) with
  | some readable => .object readable
  | none => .unreadable

/-- A key of an object, with the colon after it, and what follows. -/
def readKey? (cs : List Char) : Option (Option String × List Char) :=
  match cs.dropWhile isSpace with
  | '"' :: rest => do
    let (codes, after) ← codes? rest
    match after.dropWhile isSpace with
    | ':' :: after' => return ((textOf? codes).map String.ofList, after')
    | _ => none
  | _ => none

mutual

/-- A value with blank space before it, and what follows. The fuel bounds the number of values and
brackets. -/
def readValue? : Nat → List Char → Option (Json × List Char)
  | 0, _ => none
  | fuel + 1, cs =>
    match cs.dropWhile isSpace with
    | 'n' :: 'u' :: 'l' :: 'l' :: rest => some (.null, rest)
    | 't' :: 'r' :: 'u' :: 'e' :: rest => some (.bool true, rest)
    | 'f' :: 'a' :: 'l' :: 's' :: 'e' :: rest => some (.bool false, rest)
    | '"' :: rest => do
      let (codes, after) ← codes? rest
      match textOf? codes with
      | some text => return (.string (String.ofList text), after)
      | none => return (.unreadable, after)
    | '[' :: rest =>
      match rest.dropWhile isSpace with
      | ']' :: after => some (.array [], after)
      | _ => (readItems? fuel rest).map fun (items, after) => (.array items, after)
    | '\x7b' :: rest =>
      match rest.dropWhile isSpace with
      | '\x7d' :: after => some (.object [], after)
      | _ => (readMembers? fuel rest).map fun (members, after) => (ofMembers members, after)
    | rest => (numberLiteral? rest).map fun (literal, after) =>
      (.number (String.ofList literal), after)

/-- One or more items up to the closing bracket, and what follows it. -/
def readItems? : Nat → List Char → Option (List Json × List Char)
  | 0, _ => none
  | fuel + 1, cs => do
    let (item, after) ← readValue? fuel cs
    match after.dropWhile isSpace with
    | ']' :: after' => return ([item], after')
    | ',' :: after' =>
      let (items, beyond) ← readItems? fuel after'
      return (item :: items, beyond)
    | _ => none

/-- One or more members up to the closing brace, and what follows it. -/
def readMembers? : Nat → List Char → Option (List (Option String × Json) × List Char)
  | 0, _ => none
  | fuel + 1, cs => do
    let (key, after) ← readKey? cs
    let (value, after) ← readValue? fuel after
    match after.dropWhile isSpace with
    | '\x7d' :: after' => return ([(key, value)], after')
    | ',' :: after' =>
      let (members, beyond) ← readMembers? fuel after'
      return ((key, value) :: members, beyond)
    | _ => none

end

/-- The value of a whole text. Every value or bracket takes a character, so twice the length of the
text is fuel enough. -/
def parse? (text : String) : Option Json :=
  let cs := text.toList
  match readValue? (2 * cs.length + 2) cs with
  | some (json, rest) => if rest.all isSpace then some json else none
  | none => none

end CallForest.Json
