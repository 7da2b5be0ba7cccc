import CallForest.Text.Utf8
import CallForest.Text.Utf16

/-!
# Modified UTF-8

The byte form of text in class files. Each UTF-16 unit is written on its own in one to three
bytes, NUL in two. Some producers write standard UTF-8 instead, so bytes that are well-formed as a
whole in the standard form are read in it, and only other bytes are read unit by unit.

## Main definitions

* `ModifiedUtf8.encode` — the modified form of a sequence of units;
* `ModifiedUtf8.units` — reads bytes unit by unit, without failing;
* `ModifiedUtf8.decode` — the text of any bytes.
-/

namespace CallForest.Text.ModifiedUtf8

/-- The bytes of one unit. -/
def encodeUnit (u : Nat) : List UInt8 :=
  if 0 < u ∧ u < 0x80 then [.ofNat u]
  else if u < 0x800 then [.ofNat (0xc0 + u / 0x40), .ofNat (0x80 + u % 0x40)]
  else [.ofNat (0xe0 + u / 0x1000), .ofNat (0x80 + u / 0x40 % 0x40), .ofNat (0x80 + u % 0x40)]

/-- The bytes of a sequence of units. -/
def encode (units : List Nat) : List UInt8 :=
  units.flatMap encodeUnit

/-- The units of a sequence of bytes. Only the marks in the first byte of a unit and the number of
bytes left count; a byte that starts no unit reads as U+FFFD. -/
def units : List UInt8 → List Nat
  | [] => []
  | a :: rest =>
    let n := a.toNat
    if n < 0x80 then n :: units rest
    else if n / 0x20 = 6 then
      match rest with
      | [] => [0xfffd]
      | b :: rest' => (n % 0x20 * 0x40 + b.toNat % 0x40) :: units rest'
    else if n / 0x10 = 0xe then
      match rest with
      | [] => [0xfffd]
      | [b] => 0xfffd :: units [b]
      | b :: c :: rest' =>
        (n % 0x10 * 0x1000 + b.toNat % 0x40 * 0x40 + c.toNat % 0x40) :: units rest'
    else 0xfffd :: units rest

/-- The text of a sequence of bytes. -/
def decode (bytes : List UInt8) : String :=
  match Utf8.decode? bytes with
  | some text => text
  | none => Utf16.decodeLossy (units bytes)

end CallForest.Text.ModifiedUtf8
