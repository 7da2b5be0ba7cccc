import CallForest.ClassFile.Fault
import CallForest.ClassFile.Word

/-!
# Instructions

Code is a sequence of instructions, each an opcode with operand bytes after it. The number of
operand bytes follows from the opcode, except for the two switches, which carry their size and are
aligned, and for the prefix that widens the next instruction.

## Main definitions

* `Layout.of` — how the operands of an opcode are laid out;
* `Instruction.padding` — the alignment bytes of a switch;
* `Instruction.operandCount` — the number of operand bytes of an instruction;
* `Instruction.walk` — the instructions of a piece of code;
* `Instruction.lengthAt` — the length of the instruction at an offset;
* `InvokeKind` — the ways to call a method.
-/

namespace CallForest.ClassFile

/-- How the operands of an opcode are laid out. -/
inductive Layout where
  | fixed (operands : Nat)
  | tableSwitch
  | lookupSwitch
  | wide
  | unknown
deriving DecidableEq, Repr

/-- The opcode that adds to a variable. -/
def iincOpcode : Nat := 0x84

/-- The layout of an opcode. -/
def Layout.of (opcode : Nat) : Layout :=
  if opcode ≤ 0x0f then .fixed 0
  else if opcode = 0x10 then .fixed 1
  else if opcode = 0x11 then .fixed 2
  else if opcode = 0x12 then .fixed 1
  else if opcode ≤ 0x14 then .fixed 2
  else if opcode ≤ 0x19 then .fixed 1
  else if opcode ≤ 0x35 then .fixed 0
  else if opcode ≤ 0x3a then .fixed 1
  else if opcode ≤ 0x83 then .fixed 0
  else if opcode = iincOpcode then .fixed 2
  else if opcode ≤ 0x98 then .fixed 0
  else if opcode ≤ 0xa8 then .fixed 2
  else if opcode = 0xa9 then .fixed 1
  else if opcode = 0xaa then .tableSwitch
  else if opcode = 0xab then .lookupSwitch
  else if opcode ≤ 0xb1 then .fixed 0
  else if opcode ≤ 0xb8 then .fixed 2
  else if opcode ≤ 0xba then .fixed 4
  else if opcode = 0xbb then .fixed 2
  else if opcode = 0xbc then .fixed 1
  else if opcode = 0xbd then .fixed 2
  else if opcode ≤ 0xbf then .fixed 0
  else if opcode ≤ 0xc1 then .fixed 2
  else if opcode ≤ 0xc3 then .fixed 0
  else if opcode = 0xc4 then .wide
  else if opcode = 0xc5 then .fixed 3
  else if opcode ≤ 0xc7 then .fixed 2
  else if opcode ≤ 0xc9 then .fixed 4
  else if opcode = 0xca ∨ opcode = 0xfe ∨ opcode = 0xff then .fixed 0
  else .unknown

namespace Instruction

/-- The bytes between the opcode of a switch at `offset` and its operands, which start at a
multiple of four. -/
def padding (offset : Nat) : Nat :=
  (4 - (offset + 1) % 4) % 4

/-- Whether a list has at least `n` members. -/
def hasAtLeast {α : Type} : Nat → List α → Bool
  | 0, _ => true
  | _ + 1, [] => false
  | n + 1, _ :: rest => hasAtLeast n rest

/-- The signed word of four bytes at position `k` of `rest`, where `rest` starts at offset `base`
of the code and goes on to its end. -/
def intAfter (base : Nat) (rest : List UInt8) (k : Nat) : Except Fault Int :=
  if !hasAtLeast k rest then .error (.outOfBounds (base + k) 0 (base + rest.length))
  else if !hasAtLeast (k + 4) rest then .error (.outOfBounds (base + k) 4 (base + rest.length))
  else .ok (Word.signed 32 (Word.decode ((rest.drop k).take 4)))

/-- The number of operand bytes that the instruction at `offset` announces, where `rest` is what
follows its opcode. -/
def announced (offset opcode : Nat) (rest : List UInt8) : Except Fault Nat :=
  match Layout.of opcode with
  | .fixed n => .ok n
  | .tableSwitch => do
    let aligned := padding offset
    let low ← intAfter (offset + 1) rest (aligned + 4)
    let high ← intAfter (offset + 1) rest (aligned + 8)
    if high < low then .error (.malformed (.emptyTableRange offset))
    else return aligned + 12 + (high - low + 1).toNat * 4
  | .lookupSwitch => do
    let aligned := padding offset
    let pairs ← intAfter (offset + 1) rest (aligned + 4)
    if pairs < 0 then .error (.malformed (.negativePairCount offset))
    else return aligned + 8 + pairs.toNat * 8
  | .wide =>
    match rest with
    | [] => .error (.malformed (.truncatedWide offset))
    | next :: _ => .ok (if next.toNat = iincOpcode then 5 else 3)
  | .unknown => .error (.malformed (.unknownOpcode opcode offset))

/-- The number of operand bytes of the instruction at `offset`, all of which have to be there. -/
def operandCount (offset opcode : Nat) (rest : List UInt8) : Except Fault Nat := do
  let n ← announced offset opcode rest
  if hasAtLeast n rest then return n else throw (.malformed (.overrun opcode offset))

/-- An instruction at its place in the code. -/
structure Placed where
  offset : Nat
  opcode : Nat
  operands : List UInt8
deriving DecidableEq, Repr

/-- The number of bytes of an instruction. -/
def Placed.length (i : Placed) : Nat :=
  1 + i.operands.length

/-- The index that stands in the first two operand bytes. -/
def Placed.index (i : Placed) : Nat :=
  Word.decode (i.operands.take 2)

/-- The instructions of the code that starts at `offset`, up to the first that cannot be read, and
what is wrong with that one. -/
def walk (offset : Nat) : List UInt8 → List Placed × Option Fault
  | [] => ([], none)
  | b :: rest =>
    match operandCount offset b.toNat rest with
    | .error fault => ([], some fault)
    | .ok n =>
      let (more, fault) := walk (offset + 1 + n) (rest.drop n)
      (⟨offset, b.toNat, rest.take n⟩ :: more, fault)
termination_by code => code.length
decreasing_by
  simp only [List.length_drop, List.length_cons]
  omega

/-- The length of the instruction at an offset of the code. -/
def lengthAt (code : List UInt8) (offset : Nat) : Except Fault Nat :=
  match code.drop offset with
  | [] => .error (.outsideCode offset)
  | b :: rest => do return 1 + (← operandCount offset b.toNat rest)

end Instruction

/-- The ways to call a method. -/
inductive InvokeKind where
  | virtual
  | special
  | static
  | interface
deriving DecidableEq, Repr

namespace InvokeKind

/-- The opcode of a call. -/
def opcode : InvokeKind → Nat
  | .virtual => 0xb6
  | .special => 0xb7
  | .static => 0xb8
  | .interface => 0xb9

/-- The kind of call that an opcode makes. -/
def ofOpcode? (opcode : Nat) : Option InvokeKind :=
  if opcode = 0xb6 then some .virtual
  else if opcode = 0xb7 then some .special
  else if opcode = 0xb8 then some .static
  else if opcode = 0xb9 then some .interface
  else none

/-- The kind of a method handle that makes a call. -/
def referenceKind : InvokeKind → Nat
  | .virtual => 5
  | .static => 6
  | .special => 7
  | .interface => 9

/-- The kind of call that a method handle makes. A handle that creates an object calls its
initializer; a handle for a field calls nothing. -/
def ofReferenceKind? (kind : Nat) : Option InvokeKind :=
  if kind = 5 then some .virtual
  else if kind = 6 then some .static
  else if kind = 7 ∨ kind = 8 then some .special
  else if kind = 9 then some .interface
  else none

/-- The name of a kind of call. -/
def name : InvokeKind → String
  | .virtual => "virtual"
  | .special => "special"
  | .static => "static"
  | .interface => "interface"

end InvokeKind

end CallForest.ClassFile
