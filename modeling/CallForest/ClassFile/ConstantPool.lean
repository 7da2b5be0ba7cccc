import CallForest.ClassFile.Constant
import CallForest.Decimal.Shortest

/-!
# Constant pools

The table of constants of a class file. Slot zero is never used, and neither is the slot after a
long or double. What an index leads to is found through the table, and a wrong index is a fault.

## Main definitions

* `ConstantPool` — the table;
* `ConstantPool.read` — reads a table;
* `ConstantPool.utf8`, `className`, `nameAndType`, `methodRef`, `methodHandle`, `invokeDynamic` —
  what an index leads to;
* `ConstantPool.text` — a loadable constant as text.
-/

namespace CallForest.ClassFile

/-- The table of constants of a class file. -/
structure ConstantPool where
  slots : Array Constant := #[.unusable]
deriving DecidableEq, Repr

/-- A method as a constant pool names it. -/
structure MemberRef where
  owner : String
  name : String
  descriptor : String
deriving DecidableEq, Repr

namespace ConstantPool

open Decoder

/-- Fills the given number of slots, of which the first has the index `entry`. -/
def readSlots : (count entry : Nat) → Decoder (List Constant)
  | 0, _ => return []
  | 1, entry => do
    let constant ← Constant.read entry
    if constant.isWide then throw (.malformed .splitWideConstant)
    return [constant]
  | count + 2, entry => do
    let constant ← Constant.read entry
    if constant.isWide then
      return constant :: .unusable :: (← readSlots count (entry + 2))
    else
      return constant :: (← readSlots (count + 1) (entry + 1))

/-- Reads the number of slots and then the slots. -/
def read : Decoder ConstantPool := do
  let count ← u16
  if count = 0 then throw (.malformed .emptyPool)
  let slots ← readSlots (count - 1) 1
  return { slots := (Constant.unusable :: slots).toArray }

/-- The number of slots. -/
def size (pool : ConstantPool) : Nat :=
  pool.slots.size

/-- The constant at an index. -/
def get? (pool : ConstantPool) (index : Nat) : Option Constant :=
  pool.slots[index]?

/-- The text at an index. -/
def utf8 (pool : ConstantPool) (index : Nat) : Except Fault String :=
  match pool.get? index with
  | some (.utf8 text) => .ok text
  | _ => .error (.invalidConstant index .utf8)

/-- The name of the class at an index. -/
def className (pool : ConstantPool) (index : Nat) : Except Fault String :=
  match pool.get? index with
  | some (.classRef name) => pool.utf8 name
  | _ => .error (.invalidConstant index .classRef)

/-- The name and descriptor at an index. -/
def nameAndType (pool : ConstantPool) (index : Nat) : Except Fault (String × String) :=
  match pool.get? index with
  | some (.nameAndType name descriptor) => do
    return (← pool.utf8 name, ← pool.utf8 descriptor)
  | _ => .error (.invalidConstant index .nameAndType)

/-- The method of a class or interface at an index. -/
def methodRef (pool : ConstantPool) (index : Nat) : Except Fault MemberRef :=
  match pool.get? index with
  | some (.methodRef owner member) | some (.interfaceMethodRef owner member) => do
    let owner ← pool.className owner
    let (name, descriptor) ← pool.nameAndType member
    return { owner, name, descriptor }
  | _ => .error (.invalidConstant index .methodRef)

/-- The kind and target of the method handle at an index. -/
def methodHandle (pool : ConstantPool) (index : Nat) : Except Fault (Nat × Nat) :=
  match pool.get? index with
  | some (.methodHandle kind reference) => .ok (kind, reference)
  | _ => .error (.invalidConstant index .methodHandle)

/-- The bootstrap slot of the dynamic call site at an index. -/
def invokeDynamic (pool : ConstantPool) (index : Nat) : Except Fault Nat :=
  match pool.get? index with
  | some (.invokeDynamic bootstrap _) => .ok bootstrap
  | _ => .error (.invalidConstant index .invokeDynamic)

/-- The text of an integer in an element with the given tag: a truth value, a character, which is
empty when there is no such character, or a number. -/
def integerText (tag : Nat) (value : Int) : String :=
  if tag = 'Z'.toNat then (if value = 0 then "false" else "true")
  else if tag = 'C'.toNat then
    let code := Word.unsigned 32 value
    if code.isValidChar then String.singleton (Char.ofNat code) else ""
  else toString value

/-- The loadable constant at an index as text, for an element with the given tag. -/
def text (pool : ConstantPool) (index tag : Nat) : Except Fault String :=
  match pool.get? index with
  | some (.integer value) => .ok (integerText tag value)
  | some (.long value) => .ok (toString value)
  | some (.float bits) => .ok (Decimal.plain (.ofBits Decimal.single bits))
  | some (.double bits) => .ok (Decimal.plain (.ofBits Decimal.double bits))
  | some (.utf8 text) => .ok text
  | _ => .error (.invalidConstant index .constantValue)

end ConstantPool

end CallForest.ClassFile
