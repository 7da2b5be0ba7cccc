import CallForest.ClassFile.ClassSpec
import CallForest.ClassFile.PoolBuilder

/-!
# Writing class files

The bytes of a class specification. Everything that refers to constants is written while the pool
is being built, and the pool itself, which comes first in the file, last.

## Main definitions

* `emitElement`, `emitAnnotationUse` — annotations;
* `emitItem`, `emitBody` — code;
* `emitMethod`, `ClassSpec.emit` — methods and classes;
* `ClassSpec.encode` — the bytes of a class file.
-/

namespace CallForest.ClassFile

open Build

/-- An attribute. Its name is put into the pool after what its body needs. -/
def emitAttribute (name : String) (body : Build (List UInt8)) : Build (List UInt8) := do
  let body ← body
  let index ← utf8 name
  return Word.encode 2 index ++ Word.encode 4 body.length ++ body

/-! ### Annotations -/

mutual

/-- The value of an element. -/
def emitElement : ElementValue → Build (List UInt8)
  | .const text => do return 0x73 :: Word.encode 2 (← utf8 text)
  | .enum type name => do
    let type ← utf8 type
    let name ← utf8 name
    return 0x65 :: Word.encode 2 type ++ Word.encode 2 name
  | .classLiteral descriptor => do return 0x63 :: Word.encode 2 (← utf8 descriptor)
  | .nested type elements => do
    let type ← utf8 type
    let body ← emitElements elements
    return 0x40 :: Word.encode 2 type ++ Word.encode 2 elements.length ++ body
  | .array values => do
    let body ← emitValues values
    return 0x5b :: Word.encode 2 values.length ++ body

/-- Named elements, one after the other. -/
def emitElements : List (String × ElementValue) → Build (List UInt8)
  | [] => return []
  | (name, value) :: rest => do
    let name ← utf8 name
    let value ← emitElement value
    return Word.encode 2 name ++ value ++ (← emitElements rest)

/-- Values, one after the other. -/
def emitValues : List ElementValue → Build (List UInt8)
  | [] => return []
  | value :: rest => do
    let value ← emitElement value
    return value ++ (← emitValues rest)

end

/-- An annotation. -/
def emitAnnotationUse (a : AnnotationUse) : Build (List UInt8) := do
  let type ← utf8 a.type
  let body ← emitElements a.elements
  return Word.encode 2 type ++ Word.encode 2 a.elements.length ++ body

/-- Annotations, one after the other. -/
def emitAll : List AnnotationUse → Build (List UInt8)
  | [] => return []
  | a :: rest => do
    let first ← emitAnnotationUse a
    return first ++ (← emitAll rest)

/-- The attribute with the given annotations. -/
def emitAnnotations (annotations : List AnnotationUse) : Build (List UInt8) :=
  emitAttribute visibleAnnotations do
    return Word.encode 2 annotations.length ++ (← emitAll annotations)

/-! ### Code -/

/-- The handle kind of a static call. -/
def staticHandle : Nat := InvokeKind.referenceKind .static

/-- The descriptor of the method that links a lambda. -/
def lambdaFactoryDescriptor : String :=
  "(Ljava/lang/invoke/MethodHandles$Lookup;Ljava/lang/String;Ljava/lang/invoke/MethodType;" ++
  "Ljava/lang/invoke/MethodType;Ljava/lang/invoke/MethodHandle;Ljava/lang/invoke/MethodType;)" ++
  "Ljava/lang/invoke/CallSite;"

/-- The descriptor of a method that links a call site without arguments. -/
def plainFactoryDescriptor : String :=
  "(Ljava/lang/invoke/MethodHandles$Lookup;Ljava/lang/String;Ljava/lang/invoke/MethodType;)" ++
  "Ljava/lang/invoke/CallSite;"

/-- The descriptor of a function of one argument with the types left out. -/
def erasedFunction : String := "(Ljava/lang/Object;)Ljava/lang/Object;"

/-- A dynamic call site. -/
def emitSite (site : Nat) : List UInt8 :=
  .ofNat dynamicOpcode :: Word.encode 2 site ++ Word.encode 2 0

/-- The variables that the parameters of a descriptor take. -/
def slotsOf (descriptor : String) : Nat :=
  Descriptor.slots ((Descriptor.parameters? descriptor).getD [])

/-- The bytes of an instruction at an offset. The targets of a switch are relative to the switch
itself and all name the instruction after it. -/
def emitItem (offset : Nat) : BodyItem → Build (List UInt8)
  | .invoke kind target => do
    let index ← methodRef target (kind = .interface)
    let count := if kind = .interface then Word.encode 1 (slotsOf target.descriptor + 1) ++ [0]
      else []
    return .ofNat kind.opcode :: Word.encode 2 index ++ count
  | .lambda kind target => do
    let reference ← methodRef target (kind = .interface)
    let implementation ← methodHandle kind.referenceKind reference
    let erased ← methodType erasedFunction
    let instantiated ← methodType target.descriptor
    let factory ← methodRef ⟨lambdaFactory, "metafactory", lambdaFactoryDescriptor⟩ false
    let handle ← methodHandle staticHandle factory
    let slot ← bootstrap ⟨handle, [erased, implementation, instantiated]⟩
    let site ← invokeDynamic slot "apply" "()Ljava/util/function/Function;"
    return emitSite site
  | .dynamic owner name => do
    let factory ← methodRef ⟨owner, name, plainFactoryDescriptor⟩ false
    let handle ← methodHandle staticHandle factory
    let slot ← bootstrap ⟨handle, []⟩
    let site ← invokeDynamic slot "run" "()V"
    return emitSite site
  | .loadString text => do
    let index ← string text
    return if index ≤ 255 then [0x12, .ofNat index] else 0x13 :: Word.encode 2 index
  | .tableSwitch low high =>
    let gap := Instruction.padding offset
    let entries := (high - low + 1).toNat
    let next := Word.encode 4 (1 + gap + 12 + entries * 4)
    return 0xaa :: List.replicate gap 0 ++ next ++ Word.encode 4 (Word.unsigned 32 low) ++
      Word.encode 4 (Word.unsigned 32 high) ++ (List.replicate entries next).flatten
  | .lookupSwitch keys =>
    let gap := Instruction.padding offset
    let next := Word.encode 4 (1 + gap + 8 + keys.length * 8)
    return 0xab :: List.replicate gap 0 ++ next ++ Word.encode 4 keys.length ++
      (keys.mergeSort (· ≤ ·)).flatMap fun key => Word.encode 4 (Word.unsigned 32 key) ++ next
  | .raw bytes => return bytes

/-- The bytes of instructions from an offset on, with a return after the last. -/
def emitBody (offset : Nat) : List BodyItem → Build (List UInt8)
  | [] => return [0xb1]
  | item :: rest => do
    let bytes ← emitItem offset item
    return bytes ++ (← emitBody (offset + bytes.length) rest)

/-- The attribute with the code of a method. -/
def emitCode (descriptor : String) (body : List BodyItem) : Build (List UInt8) :=
  emitAttribute codeAttribute do
    let code ← emitBody 0 body
    return Word.encode 2 16 ++ Word.encode 2 (slotsOf descriptor + 1) ++
      Word.encode 4 code.length ++ code ++ Word.encode 2 0 ++ Word.encode 2 0

/-! ### Methods and classes -/

/-- A method. -/
def emitMethod (m : MethodSpec) : Build (List UInt8) := do
  let name ← utf8 m.name
  let descriptor ← utf8 m.descriptor
  let code ← match m.body with
    | some body => emitCode m.descriptor body
    | none => pure []
  let annotations ← if m.annotations.isEmpty then pure [] else emitAnnotations m.annotations
  let count := m.body.toList.length + (if m.annotations.isEmpty then 0 else 1)
  return Word.encode 2 m.accessFlags ++ Word.encode 2 name ++ Word.encode 2 descriptor ++
    Word.encode 2 count ++ code ++ annotations

/-- Methods, one after the other. -/
def emitMethods : List MethodSpec → Build (List UInt8)
  | [] => return []
  | m :: rest => do
    let first ← emitMethod m
    return first ++ (← emitMethods rest)

/-- Classes as indices, one after the other. -/
def emitClassRefs : List String → Build (List UInt8)
  | [] => return []
  | name :: rest => do
    let first ← classRef name
    return Word.encode 2 first ++ (← emitClassRefs rest)

/-- The bootstrap table. -/
def encodeBootstraps (methods : List BootstrapMethod) : List UInt8 :=
  Word.encode 2 methods.length ++ methods.flatMap fun m =>
    Word.encode 2 m.handle ++ Word.encode 2 m.arguments.length ++
      m.arguments.flatMap (Word.encode 2)

/-- The part of a class file after the constant pool. -/
def ClassSpec.emit (c : ClassSpec) : Build (List UInt8) := do
  let this ← classRef c.name
  let parent ← match c.superName with
    | some name => classRef name
    | none => pure 0
  let interfaces ← emitClassRefs c.interfaces
  let methods ← emitMethods c.methods
  let bootstraps := (← get).bootstraps
  let annotations ← if c.annotations.isEmpty then pure [] else emitAnnotations c.annotations
  let table ← if bootstraps.isEmpty then pure [] else
    emitAttribute bootstrapAttribute (pure (encodeBootstraps bootstraps))
  let count := (if c.annotations.isEmpty then 0 else 1) + (if bootstraps.isEmpty then 0 else 1)
  return Word.encode 2 c.accessFlags ++ Word.encode 2 this ++ Word.encode 2 parent ++
    Word.encode 2 c.interfaces.length ++ interfaces ++ Word.encode 2 0 ++
    Word.encode 2 c.methods.length ++ methods ++ Word.encode 2 count ++ annotations ++ table

/-- The bytes of a class file, every descriptor taken as one that can be counted. -/
def ClassSpec.toBytes (c : ClassSpec) : List UInt8 :=
  let (body, pool) := c.emit.run {}
  Word.encode 4 magicNumber ++ Word.encode 2 0 ++ Word.encode 2 c.major ++ pool.encode ++ body

/-- The bytes of a class file. -/
def ClassSpec.encode (c : ClassSpec) : Except Fault (List UInt8) :=
  match c.indivisible? with
  | some descriptor => .error (.indivisible descriptor)
  | none => .ok c.toBytes

end CallForest.ClassFile
