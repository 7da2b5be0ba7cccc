import CallForest.ClassFile.Cursor
import CallForest.Text.ModifiedUtf8

/-!
# Constants

The entries of a constant pool. References to other entries are by index. A long or double fills
two slots, of which the second cannot be used.

## Main definitions

* `Constant` — an entry;
* `Constant.read` — reads an entry;
* `Constant.encode` — the bytes of an entry.
-/

namespace CallForest.ClassFile

/-- An entry of a constant pool. Floating-point numbers are kept as bit patterns. -/
inductive Constant where
  | utf8 (text : String)
  | integer (value : Int)
  | float (bits : Nat)
  | long (value : Int)
  | double (bits : Nat)
  | classRef (name : Nat)
  | string (text : Nat)
  | fieldRef (owner member : Nat)
  | methodRef (owner member : Nat)
  | interfaceMethodRef (owner member : Nat)
  | nameAndType (name descriptor : Nat)
  | methodHandle (kind reference : Nat)
  | methodType (descriptor : Nat)
  | dynamic (bootstrap member : Nat)
  | invokeDynamic (bootstrap member : Nat)
  | moduleRef (name : Nat)
  | packageRef (name : Nat)
  /-- The slot of index zero, and the second slot of a long or double. -/
  | unusable
deriving DecidableEq, Repr, Inhabited

namespace Constant

/-- Whether the constant fills two slots. -/
def isWide : Constant → Bool
  | .long _ | .double _ => true
  | _ => false

open Decoder in
/-- Reads an entry; its number is for the fault only. -/
def read (entry : Nat) : Decoder Constant := do
  match ← u8 with
  | 1 =>
    let length ← u16
    return .utf8 (Text.ModifiedUtf8.decode (← take length))
  | 3 => return .integer (← i32)
  | 4 => return .float (← u32)
  | 5 => return .long (Word.signed 64 (← u64))
  | 6 => return .double (← u64)
  | 7 => return .classRef (← u16)
  | 8 => return .string (← u16)
  | 9 => return .fieldRef (← u16) (← u16)
  | 10 => return .methodRef (← u16) (← u16)
  | 11 => return .interfaceMethodRef (← u16) (← u16)
  | 12 => return .nameAndType (← u16) (← u16)
  | 15 => return .methodHandle (← u8) (← u16)
  | 16 => return .methodType (← u16)
  | 17 => return .dynamic (← u16) (← u16)
  | 18 => return .invokeDynamic (← u16) (← u16)
  | 19 => return .moduleRef (← u16)
  | 20 => return .packageRef (← u16)
  | tag => throw (.malformed (.unknownTag tag entry))

/-- The bytes of an entry. Text is written in standard UTF-8. -/
def encode : Constant → List UInt8
  | .utf8 text =>
    let bytes := Text.Utf8.encode text
    1 :: Word.encode 2 bytes.length ++ bytes
  | .integer value => 3 :: Word.encode 4 (Word.unsigned 32 value)
  | .float bits => 4 :: Word.encode 4 bits
  | .long value => 5 :: Word.encode 8 (Word.unsigned 64 value)
  | .double bits => 6 :: Word.encode 8 bits
  | .classRef name => 7 :: Word.encode 2 name
  | .string text => 8 :: Word.encode 2 text
  | .fieldRef owner member => 9 :: Word.encode 2 owner ++ Word.encode 2 member
  | .methodRef owner member => 10 :: Word.encode 2 owner ++ Word.encode 2 member
  | .interfaceMethodRef owner member =>
    11 :: Word.encode 2 owner ++ Word.encode 2 member
  | .nameAndType name descriptor => 12 :: Word.encode 2 name ++ Word.encode 2 descriptor
  | .methodHandle kind reference => 15 :: Word.encode 1 kind ++ Word.encode 2 reference
  | .methodType descriptor => 16 :: Word.encode 2 descriptor
  | .dynamic bootstrap member =>
    17 :: Word.encode 2 bootstrap ++ Word.encode 2 member
  | .invokeDynamic bootstrap member =>
    18 :: Word.encode 2 bootstrap ++ Word.encode 2 member
  | .moduleRef name => 19 :: Word.encode 2 name
  | .packageRef name => 20 :: Word.encode 2 name
  | .unusable => []

end Constant

end CallForest.ClassFile
