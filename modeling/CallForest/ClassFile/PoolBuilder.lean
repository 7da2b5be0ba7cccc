import CallForest.ClassFile.Bootstrap

/-!
# Building constant pools

While a class file is written, constants are put into a pool one by one and referred to by index.
A constant that is there already is not put in again, so equal requests give equal indices. The
bootstrap table grows in the same way.

## Main definitions

* `PoolBuilder` — the constants and bootstrap methods put in so far;
* `Build` — a computation that puts in constants;
* `Build.intern` — the index of a constant;
* `Build.bootstrap` — the slot of a bootstrap method;
* `PoolBuilder.encode` — the bytes of the pool.
-/

namespace CallForest.ClassFile

/-- The constants and bootstrap methods put in so far, in order. -/
structure PoolBuilder where
  constants : List Constant := []
  bootstraps : List BootstrapMethod := []
deriving DecidableEq, Repr

/-- A computation that puts in constants. -/
abbrev Build := StateM PoolBuilder

namespace Build

/-- The index of a constant, which is put in at the end unless it is there. Indices start at
one. -/
def intern (constant : Constant) : Build Nat := fun p =>
  match p.constants.idxOf? constant with
  | some i => (i + 1, p)
  | none => (p.constants.length + 1, { p with constants := p.constants ++ [constant] })

/-- The index of a text. -/
def utf8 (text : String) : Build Nat :=
  intern (.utf8 text)

/-- The index of a class. -/
def classRef (name : String) : Build Nat := do
  intern (.classRef (← utf8 name))

/-- The index of a string. -/
def string (text : String) : Build Nat := do
  intern (.string (← utf8 text))

/-- The index of a name with a descriptor. -/
def nameAndType (name descriptor : String) : Build Nat := do
  let name ← utf8 name
  let descriptor ← utf8 descriptor
  intern (.nameAndType name descriptor)

/-- The index of a method of a class, or of an interface. -/
def methodRef (target : MemberRef) (ofInterface : Bool) : Build Nat := do
  let owner ← classRef target.owner
  let member ← nameAndType target.name target.descriptor
  intern (if ofInterface then .interfaceMethodRef owner member else .methodRef owner member)

/-- The index of a method handle. -/
def methodHandle (kind reference : Nat) : Build Nat :=
  intern (.methodHandle kind reference)

/-- The index of a method type. -/
def methodType (descriptor : String) : Build Nat := do
  intern (.methodType (← utf8 descriptor))

/-- The index of a dynamic call site. -/
def invokeDynamic (slot : Nat) (name descriptor : String) : Build Nat := do
  let member ← nameAndType name descriptor
  intern (.invokeDynamic slot member)

/-- The slot of a bootstrap method, which is put in at the end unless it is there. Slots start at
zero. -/
def bootstrap (method : BootstrapMethod) : Build Nat := fun p =>
  match p.bootstraps.idxOf? method with
  | some slot => (slot, p)
  | none => (p.bootstraps.length, { p with bootstraps := p.bootstraps ++ [method] })

end Build

/-- The bytes of the pool: the number of slots, slot zero included, and the constants. -/
def PoolBuilder.encode (p : PoolBuilder) : List UInt8 :=
  Word.encode 2 (p.constants.length + 1) ++ p.constants.flatMap Constant.encode

end CallForest.ClassFile
