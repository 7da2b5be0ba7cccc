/-!
# UTF-8

Reading and writing text as UTF-8, one byte at a time. A character that takes several bytes is
remembered as a `Pending` value: the bits read so far, how many bytes are still to come, and the
range the next of them has to lie in. The range rules out over-long forms, surrogates and values
above U+10FFFF, so nothing has to be checked when the last byte arrives.

## Main definitions

* `Utf8.encode` — the bytes of a text;
* `Utf8.decode?` — the text of well-formed bytes;
* `Utf8.decodeLossy` — the text of any bytes, each longest ill-formed stretch that begins like a
  character replaced by U+FFFD;
* `Utf8.slice?` — the part of a text between two numbers of bytes.
-/

namespace CallForest.Text.Utf8

/-- The bytes of one character. -/
def encodeChar (c : Char) : List UInt8 :=
  let n := c.toNat
  if n < 0x80 then [.ofNat n]
  else if n < 0x800 then [.ofNat (0xc0 + n / 0x40), .ofNat (0x80 + n % 0x40)]
  else if n < 0x10000 then
    [.ofNat (0xe0 + n / 0x1000), .ofNat (0x80 + n / 0x40 % 0x40), .ofNat (0x80 + n % 0x40)]
  else
    [.ofNat (0xf0 + n / 0x40000), .ofNat (0x80 + n / 0x1000 % 0x40),
      .ofNat (0x80 + n / 0x40 % 0x40), .ofNat (0x80 + n % 0x40)]

/-- The bytes of a text. -/
def encode (s : String) : List UInt8 :=
  s.toList.flatMap encodeChar

/-- A character of which some bytes are still to come. -/
structure Pending where
  /-- The bits read so far. -/
  bits : Nat
  /-- How many bytes follow the next one. -/
  more : Nat
  /-- The least value the next byte may have. -/
  lo : Nat
  /-- The greatest value the next byte may have. -/
  hi : Nat

/-- What a byte at the beginning of a character says. -/
inductive Lead where
  | whole (c : Char)
  | opens (p : Pending)
  | bad

/-- Reads the first byte of a character. -/
def lead (b : UInt8) : Lead :=
  let n := b.toNat
  if n < 0x80 then .whole (Char.ofNat n)
  else if n < 0xc2 then .bad
  else if n < 0xe0 then .opens ⟨n - 0xc0, 0, 0x80, 0xbf⟩
  else if n < 0xf0 then
    .opens ⟨n - 0xe0, 1, if n = 0xe0 then 0xa0 else 0x80, if n = 0xed then 0x9f else 0xbf⟩
  else if n < 0xf5 then
    .opens ⟨n - 0xf0, 2, if n = 0xf0 then 0x90 else 0x80, if n = 0xf4 then 0x8f else 0xbf⟩
  else .bad

/-- Reads a further byte of a character: the character if it is complete, what is still pending if
not, and nothing if the byte is out of range. -/
def Pending.next? (p : Pending) (b : UInt8) : Option (Char ⊕ Pending) :=
  let n := b.toNat
  if p.lo ≤ n ∧ n ≤ p.hi then
    let bits := p.bits * 0x40 + (n - 0x80)
    match p.more with
    | 0 => some (.inl (Char.ofNat bits))
    | k + 1 => some (.inr ⟨bits, k, 0x80, 0xbf⟩)
  else none

/-- Decodes the rest of a text, given the character that is being read, if any. -/
def decodeFrom? : Option Pending → List UInt8 → Option (List Char)
  | none, [] => some []
  | some _, [] => none
  | none, b :: rest =>
    match lead b with
    | .whole c => (decodeFrom? none rest).map (c :: ·)
    | .opens p => decodeFrom? (some p) rest
    | .bad => none
  | some p, b :: rest =>
    match p.next? b with
    | some (.inl c) => (decodeFrom? none rest).map (c :: ·)
    | some (.inr q) => decodeFrom? (some q) rest
    | none => none

/-- The text of well-formed bytes, and nothing for any other bytes. -/
def decode? (bytes : List UInt8) : Option String :=
  (decodeFrom? none bytes).map String.ofList

/-- The character that stands for what cannot be read. -/
def replacement : Char := Char.ofNat 0xfffd

/-- Decodes the rest of a text with replacements. A byte that does not continue the character
being read ends it with one replacement and is then read as a first byte. -/
def decodeLossyFrom : Option Pending → List UInt8 → List Char
  | none, [] => []
  | some _, [] => [replacement]
  | none, b :: rest =>
    match lead b with
    | .whole c => c :: decodeLossyFrom none rest
    | .opens p => decodeLossyFrom (some p) rest
    | .bad => replacement :: decodeLossyFrom none rest
  | some p, b :: rest =>
    match p.next? b with
    | some (.inl c) => c :: decodeLossyFrom none rest
    | some (.inr q) => decodeLossyFrom (some q) rest
    | none =>
      replacement :: match lead b with
        | .whole c => c :: decodeLossyFrom none rest
        | .opens q => decodeLossyFrom (some q) rest
        | .bad => replacement :: decodeLossyFrom none rest

/-- The text of any bytes. -/
def decodeLossy (bytes : List UInt8) : String :=
  String.ofList (decodeLossyFrom none bytes)

/-- The number of bytes of a text. -/
def size (s : String) : Nat :=
  (encode s).length

/-- The characters in the first `count` bytes and those after them, if no character has bytes on
both sides. -/
def splitAt? : (count : Nat) → List Char → Option (List Char × List Char)
  | 0, cs => some ([], cs)
  | _ + 1, [] => none
  | count + 1, c :: cs =>
    let width := (encodeChar c).length
    if count + 1 < width then none
    else (splitAt? (count + 1 - width) cs).map fun (front, back) => (c :: front, back)

/-- The part of a text between two numbers of bytes, if both fall between characters. -/
def slice? (cs : List Char) (first last : Nat) : Option (List Char) := do
  let (front, _) ← splitAt? last cs
  let (_, part) ← splitAt? first front
  return part

end CallForest.Text.Utf8
