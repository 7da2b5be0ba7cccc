/-!
# Shortest decimal form of a binary number

A finite binary floating-point number stands for all reals that round to it. Its shortest decimal
form has the fewest digits of all decimals among those reals, and of these it is the one nearest
to the number. The search is exact arithmetic on natural numbers: for one digit, two digits and so
on, the two neighbours of the number on that decimal grid are tested.

## Main definitions

* `Decimal.BinaryFormat` — the field widths of a floating-point format;
* `Decimal.Binary` — the meaning of a bit pattern;
* `Decimal.Span` — a positive number with the interval of reals that round to it;
* `Decimal.shortest` — digits and decimal exponent of the shortest form;
* `Decimal.plain` — the number written without exponent.
-/

namespace CallForest.Decimal

/-- The widths of the fraction and exponent fields. -/
structure BinaryFormat where
  fractionBits : Nat
  exponentBits : Nat

/-- The 32-bit format. -/
def single : BinaryFormat := ⟨23, 8⟩

/-- The 64-bit format. -/
def double : BinaryFormat := ⟨52, 11⟩

/-- The meaning of a bit pattern. A finite number is `significand * 2 ^ exponent`, and
`atPowerOfTwo` says that its lower neighbour is only half as far away as its upper one. -/
inductive Binary where
  | nan
  | infinite (negative : Bool)
  | zero (negative : Bool)
  | finite (negative : Bool) (significand : Nat) (exponent : Int) (atPowerOfTwo : Bool)

/-- Reads the sign, exponent and fraction fields of a bit pattern. -/
def Binary.ofBits (format : BinaryFormat) (bits : Nat) : Binary :=
  let fraction := bits % (1 <<< format.fractionBits)
  let biased := (bits >>> format.fractionBits) % (1 <<< format.exponentBits)
  let negative := (bits >>> (format.fractionBits + format.exponentBits)) % 2 == 1
  let least : Int := 2 - (1 <<< (format.exponentBits - 1) : Nat) - format.fractionBits
  if biased = 1 <<< format.exponentBits - 1 then
    if fraction = 0 then .infinite negative else .nan
  else if biased = 0 then
    if fraction = 0 then .zero negative else .finite negative fraction least false
  else
    .finite negative (1 <<< format.fractionBits + fraction) (least + (biased - 1))
      (fraction == 0 && biased != 1)

/-- The number `value / unit` and the ends of the interval of reals that round to it, over the
same `unit`. The ends belong to the interval when `closed` is set. -/
structure Span where
  value : Nat
  low : Nat
  high : Nat
  unit : Nat
  closed : Bool

/-- The interval around `significand * 2 ^ exponent`: half of the distance to either neighbour,
with the ends included when the significand is even. -/
def Span.around (significand : Nat) (exponent : Int) (atPowerOfTwo : Bool) : Span :=
  let up := 1 <<< exponent.toNat
  { value := 4 * significand * up
    low := (4 * significand - if atPowerOfTwo then 1 else 2) * up
    high := (4 * significand + 2) * up
    unit := 4 <<< (-exponent).toNat
    closed := significand % 2 == 0 }

/-- The number of decimal digits of `n`, none for zero. -/
def digitCount (n : Nat) : Nat :=
  if n = 0 then 0 else (Nat.toDigits 10 n).length

/-- The position of the decimal point: the least `k` with `value / unit < 10 ^ k`, searched
downwards over at most `fuel` zeros when the number is below one tenth. -/
def Span.point (s : Span) (fuel : Nat) : Int :=
  if s.unit ≤ s.value then digitCount (s.value / s.unit) else go fuel 0
where
  go : Nat → Nat → Int
    | 0, zeros => -(zeros : Int)
    | k + 1, zeros =>
      if s.unit ≤ s.value * Nat.pow 10 (zeros + 1) then -(zeros : Int) else go k (zeros + 1)

/-- Whether the decimal `digits * 10 ^ exponent` lies in the interval. -/
def Span.holds (s : Span) (digits : Nat) (exponent : Int) : Bool :=
  let there := digits * Nat.pow 10 exponent.toNat * s.unit
  let scale := Nat.pow 10 (-exponent).toNat
  if s.closed then s.low * scale ≤ there && there ≤ s.high * scale
  else s.low * scale < there && there < s.high * scale

/-- The nearer of the two neighbours on the grid of `10 ^ exponent` that lie in the interval, the
upper one when both are equally near. -/
def Span.onGrid? (s : Span) (exponent : Int) : Option Nat :=
  let scaled := s.value * Nat.pow 10 (-exponent).toNat
  let step := s.unit * Nat.pow 10 exponent.toNat
  let below := scaled / step
  let down := s.holds below exponent && below != 0
  let up := s.holds (below + 1) exponent
  if down && up then
    some (if 2 * (scaled % step) < step then below else below + 1)
  else if down then some below
  else if up then some (below + 1)
  else none

/-- Digits and exponent of the shortest decimal in the interval, of at most `most` digits. -/
def Span.shortest (s : Span) (most : Nat) : Nat × Int :=
  let point := s.point 400
  match (List.range most).findSome? fun n =>
      let exponent := point - (n + 1 : Nat)
      (s.onGrid? exponent).map (·, exponent) with
  | some found => found
  | none => (s.value / s.unit, 0)

/-- Digits and exponent of the shortest decimal that reads back as the given number. Seventeen
digits tell any two numbers of either format apart. -/
def shortest (significand : Nat) (exponent : Int) (atPowerOfTwo : Bool) : Nat × Int :=
  (Span.around significand exponent atPowerOfTwo).shortest 17

/-- `digits * 10 ^ exponent` written positionally, with no point when it is a whole number. -/
def positional (digits : Nat) (exponent : Int) : String :=
  let ds := Nat.toDigits 10 digits
  if 0 ≤ exponent then String.ofList (ds ++ List.replicate exponent.toNat '0')
  else
    let places := (-exponent).toNat
    let padded := List.replicate (places + 1 - ds.length) '0' ++ ds
    let whole := padded.take (padded.length - places)
    let part := padded.drop (padded.length - places)
    let kept := (part.reverse.dropWhile (· = '0')).reverse
    String.ofList (if kept.isEmpty then whole else whole ++ '.' :: kept)

/-- The shortest form of a number without exponent. Zero keeps its sign. -/
def plain : Binary → String
  | .nan => "NaN"
  | .infinite negative => if negative then "-inf" else "inf"
  | .zero negative => if negative then "-0" else "0"
  | .finite negative significand exponent atPowerOfTwo =>
    let (digits, power) := shortest significand exponent atPowerOfTwo
    (if negative then "-" else "") ++ positional digits power

end CallForest.Decimal
