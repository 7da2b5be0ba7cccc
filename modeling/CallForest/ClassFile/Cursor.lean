import CallForest.ClassFile.Fault
import CallForest.ClassFile.Word

/-!
# Reading bytes in order

A cursor is a place in a sequence of bytes: the bytes before it and the bytes after it. A decoder
reads from the place on and fails with a fault that says where it read and how much there was.
Offsets count from the beginning of the cursor's own bytes, so a decoder that runs on a part of the
bytes reports offsets in that part.

## Main definitions

* `Cursor` — a place in a sequence of bytes;
* `Decoder` — a computation that reads from a cursor;
* `Decoder.take` — the next bytes, by which all other reads are defined;
* `Decoder.within` — runs a decoder on the next bytes alone;
* `Decoder.times` — repeats a decoder.
-/

namespace CallForest.ClassFile

/-- A place in a sequence of bytes. -/
structure Cursor where
  /-- The bytes before the place, nearest first. -/
  before : List UInt8 := []
  /-- The bytes after the place. -/
  after : List UInt8
deriving DecidableEq, Repr

namespace Cursor

/-- The beginning of a sequence of bytes. -/
def start (bytes : List UInt8) : Cursor := { after := bytes }

/-- The number of bytes before the place. -/
def position (c : Cursor) : Nat := c.before.length

/-- The number of bytes in all. -/
def size (c : Cursor) : Nat := c.before.length + c.after.length

/-- All bytes. -/
def bytes (c : Cursor) : List UInt8 := c.before.reverse ++ c.after

end Cursor

/-- A computation that reads from a cursor. A failure leaves the cursor where the failing read
found it. -/
abbrev Decoder := EStateM Fault Cursor

namespace Decoder

/-- The next `n` bytes. -/
def take (n : Nat) : Decoder (List UInt8) := fun c =>
  let bytes := c.after.take n
  if bytes.length < n then .error (.outOfBounds c.position n c.size) c
  else .ok bytes { before := bytes.reverse ++ c.before, after := c.after.drop n }

/-- Passes over the next `n` bytes. -/
def skip (n : Nat) : Decoder Unit := do
  let _ ← take n

/-- Moves to a position, which may be the end but not beyond. -/
def seek (position : Nat) : Decoder Unit := fun c =>
  if c.size < position then .error (.outOfBounds position 0 c.size) c
  else .ok () { before := (c.bytes.take position).reverse, after := c.bytes.drop position }

/-- An unsigned word of `width` bytes. -/
def word (width : Nat) : Decoder Nat := do
  return Word.decode (← take width)

/-- An unsigned byte. -/
def u8 : Decoder Nat := word 1

/-- An unsigned word of two bytes. -/
def u16 : Decoder Nat := word 2

/-- An unsigned word of four bytes. -/
def u32 : Decoder Nat := word 4

/-- A signed word of four bytes. -/
def i32 : Decoder Int := do
  return Word.signed 32 (← u32)

/-- An unsigned word of eight bytes, read in two halves. -/
def u64 : Decoder Nat := do
  let high ← u32
  let low ← u32
  return high * UInt32.size + low

/-- Runs a decoder on the next `n` bytes alone, with offsets that count from there. -/
def within {α : Type} (n : Nat) (d : Decoder α) : Decoder α := do
  let bytes ← take n
  match d.run (.start bytes) with
  | .ok a _ => return a
  | .error fault _ => throw fault

/-- Runs a decoder `n` times. -/
def times {α : Type} (d : Decoder α) : Nat → Decoder (List α)
  | 0 => return []
  | n + 1 => do
    let a ← d
    let rest ← times d n
    return a :: rest

/-- Reads a count of two bytes and then as many items. -/
def counted {α : Type} (d : Decoder α) : Decoder (List α) := do
  times d (← u16)

/-- A result that does not depend on the cursor. -/
def lift {α : Type} : Except Fault α → Decoder α
  | .ok a => return a
  | .error fault => throw fault

/-- The result of a decoder on a whole sequence of bytes. -/
def decode {α : Type} (d : Decoder α) (bytes : List UInt8) : Except Fault α :=
  match d.run (.start bytes) with
  | .ok a _ => .ok a
  | .error fault _ => .error fault

end Decoder

/-- The signed word of four bytes at an offset in a sequence of bytes. -/
def intAt (bytes : List UInt8) (offset : Nat) : Except Fault Int :=
  Decoder.decode (do Decoder.seek offset; Decoder.i32) bytes

end CallForest.ClassFile
