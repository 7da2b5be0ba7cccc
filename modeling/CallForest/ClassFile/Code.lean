import CallForest.ClassFile.Bootstrap

/-!
# Code and the calls in it

The code of a method and the calls it makes, in the order of the instructions. A call names its
target through the constant pool; a dynamic call site counts as a call of the method behind its
lambda, if it has one.

## Main definitions

* `skipAttributes` — passes over a list of attributes;
* `readCode` — reads the code of a method;
* `Invocation` — a call in the code;
* `invocations` — the calls of a piece of code.
-/

namespace CallForest.ClassFile

open Decoder

/-- Passes over one attribute, whatever it is. -/
def skipAttribute : Decoder Unit := do
  skip 2
  skip (← u32)

/-- Passes over a list of attributes. -/
def skipAttributes : Decoder Unit := do
  let _ ← counted skipAttribute

/-- Reads the body of a code attribute. Stack and variable limits, exception handlers and inner
attributes are passed over. -/
def readCode : Decoder (List UInt8) := do
  skip 4
  let length ← u32
  let code ← take length
  let handlers ← u16
  skip (handlers * 8)
  skipAttributes
  return code

/-- A call in the code of a method. -/
structure Invocation where
  kind : InvokeKind
  target : MemberRef
  offset : Nat
deriving DecidableEq, Repr

/-- The opcode of a dynamic call site. -/
def dynamicOpcode : Nat := 0xba

/-- The call that an instruction makes, if it makes one. -/
def invocation? (pool : ConstantPool) (table : BootstrapTable) (i : Instruction.Placed) :
    Except Fault (Option Invocation) :=
  match InvokeKind.ofOpcode? i.opcode with
  | some kind => do return some { kind, target := ← pool.methodRef i.index, offset := i.offset }
  | none =>
    if i.opcode = dynamicOpcode then do
      match ← table.lambdaTarget pool i.index with
      | some (kind, target) => return some { kind, target, offset := i.offset }
      | none => return none
    else return none

/-- The calls of a piece of code, in order. The first instruction that cannot be read or resolved
decides the fault. -/
def invocations (pool : ConstantPool) (table : BootstrapTable) (code : List UInt8) :
    Except Fault (List Invocation) := do
  let (instructions, fault) := Instruction.walk 0 code
  let calls ← instructions.mapM (invocation? pool table)
  match fault with
  | some fault => throw fault
  | none => return calls.filterMap id

end CallForest.ClassFile
