/-!
# Faults in class files

Everything that can be wrong with a class file, as a cause. The wording is in one place.

Most faults concern one file and are reported beside the results for all others. Two of them mean
that the work cannot be done at all: a descriptor whose parameter types cannot be cut apart, and an
instruction offset outside of the code.

## Main definitions

* `Expected` — what a constant pool reference should have led to;
* `Defect` — a violation of the format;
* `Fault` — the reason why a class file cannot be read;
* `Fault.message` — the wording;
* `Fault.isFatal` — whether the fault ends the work.
-/

namespace CallForest.ClassFile

/-- What a constant pool reference should have led to. -/
inductive Expected where
  | utf8
  | classRef
  | nameAndType
  | methodRef
  | methodHandle
  | invokeDynamic
  | constantValue
deriving DecidableEq, Repr

/-- The name of the expected kind of constant. -/
def Expected.name : Expected → String
  | .utf8 => "Utf8"
  | .classRef => "Class"
  | .nameAndType => "NameAndType"
  | .methodRef => "Methodref or InterfaceMethodref"
  | .methodHandle => "MethodHandle"
  | .invokeDynamic => "InvokeDynamic"
  | .constantValue => "constant value"

/-- A violation of the format. -/
inductive Defect where
  | emptyPool
  | unknownTag (tag entry : Nat)
  | splitWideConstant
  | emptyTableRange (offset : Nat)
  | negativePairCount (offset : Nat)
  | truncatedWide (offset : Nat)
  | unknownOpcode (opcode offset : Nat)
  | overrun (opcode offset : Nat)
  | missingBootstrap (site slot count : Nat)
  | deepNesting (limit : Nat)
  | unknownElementTag (tag : Nat)
deriving DecidableEq, Repr

/-- A number in hexadecimal with at least the given number of digits. -/
def hex (width n : Nat) : String :=
  let digits := Nat.toDigits 16 n
  "0x" ++ String.ofList (List.replicate (width - digits.length) '0' ++ digits)

/-- The wording of a violation. -/
def Defect.message : Defect → String
  | .emptyPool => "constant pool count is zero"
  | .unknownTag tag entry => s!"unknown constant tag {tag} at entry {entry}"
  | .splitWideConstant => "long or double occupies the last constant pool slot"
  | .emptyTableRange offset => s!"tableswitch at {offset} has high < low"
  | .negativePairCount offset => s!"lookupswitch at {offset} has negative pair count"
  | .truncatedWide offset => s!"truncated wide instruction at {offset}"
  | .unknownOpcode opcode offset => "unknown opcode " ++ hex 2 opcode ++ s!" at {offset}"
  | .overrun opcode offset =>
    "instruction " ++ hex 2 opcode ++ s!" at {offset} runs past the end of the code"
  | .missingBootstrap site slot count =>
    s!"call site {site} names bootstrap method {slot} of {count}"
  | .deepNesting limit => s!"annotation nesting exceeds {limit}"
  | .unknownElementTag tag => "unknown element value tag " ++ hex 2 tag

/-- The reason why a class file cannot be read. -/
inductive Fault where
  | badMagic (magic : Nat)
  | unsupportedVersion (major minor : Nat)
  /-- A read of `length` bytes at `offset`, where only `available` bytes exist in all. -/
  | outOfBounds (offset length available : Nat)
  | invalidConstant (index : Nat) (expected : Expected)
  | malformed (defect : Defect)
  /-- The parameter types of the descriptor cannot be cut apart. -/
  | indivisible (descriptor : String)
  /-- No instruction starts there, because the code ends before. -/
  | outsideCode (offset : Nat)
deriving DecidableEq, Repr

/-- The wording of a fault. -/
def Fault.message : Fault → String
  | .badMagic magic => "not a class file (magic " ++ hex 8 magic ++ ")"
  | .unsupportedVersion major minor => s!"unsupported class file version {major}.{minor}"
  | .outOfBounds offset length available =>
    s!"read of {length} bytes at offset {offset} exceeds {available} available bytes"
  | .invalidConstant index expected =>
    s!"invalid constant pool reference #{index}: " ++ expected.name
  | .malformed defect => "malformed class file: " ++ defect.message
  | .indivisible descriptor => "parameter types of '" ++ descriptor ++ "' cannot be cut apart"
  | .outsideCode offset => s!"no instruction at {offset}"

/-- Whether the fault ends the work as a whole. -/
def Fault.isFatal : Fault → Bool
  | .indivisible _ | .outsideCode _ => true
  | _ => false

end CallForest.ClassFile
