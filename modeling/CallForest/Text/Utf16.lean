import CallForest.Text.Utf8

/-!
# UTF-16 code units

Text as sequences of 16-bit code units. A supplementary character takes two units, a high and a
low surrogate. A sequence of units need not be well formed: a surrogate without its partner reads
as U+FFFD.

## Main definitions

* `Utf16.encode` — the units of a text;
* `Utf16.decodeLossy` — the text of any units.
-/

namespace CallForest.Text.Utf16

/-- The first unit of a pair. -/
def isHigh (u : Nat) : Bool := 0xd800 ≤ u && u < 0xdc00

/-- The second unit of a pair. -/
def isLow (u : Nat) : Bool := 0xdc00 ≤ u && u < 0xe000

/-- The units of one character. -/
def encodeChar (c : Char) : List Nat :=
  let n := c.toNat
  if n < 0x10000 then [n] else [0xd800 + (n - 0x10000) / 0x400, 0xdc00 + (n - 0x10000) % 0x400]

/-- The units of a text. -/
def encode (s : String) : List Nat :=
  s.toList.flatMap encodeChar

/-- The supplementary character of a pair of surrogates. -/
def pair (high low : Nat) : Char :=
  Char.ofNat (0x10000 + (high - 0xd800) * 0x400 + (low - 0xdc00))

/-- The characters of a sequence of units. -/
def decodeUnits : List Nat → List Char
  | [] => []
  | u :: rest =>
    if isHigh u then
      match rest with
      | [] => [Utf8.replacement]
      | v :: rest' =>
        if isLow v then pair u v :: decodeUnits rest'
        else Utf8.replacement :: decodeUnits (v :: rest')
    else if isLow u then Utf8.replacement :: decodeUnits rest
    else Char.ofNat u :: decodeUnits rest

/-- The text of a sequence of units, unpaired surrogates replaced. -/
def decodeLossy (units : List Nat) : String :=
  String.ofList (decodeUnits units)

end CallForest.Text.Utf16
