import CallForest.ClassFile.ConstantPool
import CallForest.ClassFile.Instruction

/-!
# Bootstrap methods

A dynamic call site names an entry of the bootstrap table, which says how the site is linked. A
site that is linked by the lambda factory calls the method that implements the lambda; what any
other site calls is not known.

## Main definitions

* `BootstrapMethod`, `BootstrapTable` — the table;
* `BootstrapTable.read` — reads it;
* `BootstrapTable.lambdaTarget` — the method that a dynamic call site calls.
-/

namespace CallForest.ClassFile

/-- An entry of the bootstrap table: a method handle and the arguments it is called with. -/
structure BootstrapMethod where
  handle : Nat
  arguments : List Nat
deriving DecidableEq, Repr

/-- The bootstrap table of a class. -/
structure BootstrapTable where
  methods : Array BootstrapMethod := #[]
deriving DecidableEq, Repr

/-- The name of the attribute that holds the table. -/
def bootstrapAttribute : String := "BootstrapMethods"

/-- The class whose methods link lambdas. -/
def lambdaFactory : String := "java/lang/invoke/LambdaMetafactory"

/-- The position of the implementing method among the arguments of the lambda factory. -/
def implementationArgument : Nat := 1

namespace BootstrapTable

open Decoder

/-- Reads the table. -/
def read : Decoder BootstrapTable := do
  let methods ← counted do
    let handle ← u16
    let arguments ← counted u16
    return { handle, arguments }
  return { methods := methods.toArray }

/-- The method that the lambda or method reference made at a call site stands for. -/
def lambdaTarget (table : BootstrapTable) (pool : ConstantPool) (site : Nat) :
    Except Fault (Option (InvokeKind × MemberRef)) := do
  let slot ← pool.invokeDynamic site
  match table.methods[slot]? with
  | none => throw (.malformed (.missingBootstrap site slot table.methods.size))
  | some bootstrap =>
    let (_, factoryIndex) ← pool.methodHandle bootstrap.handle
    let factory ← pool.methodRef factoryIndex
    if factory.owner ≠ lambdaFactory then return none
    match bootstrap.arguments[implementationArgument]? with
    | none => return none
    | some handle =>
      let (referenceKind, target) ← pool.methodHandle handle
      match InvokeKind.ofReferenceKind? referenceKind with
      | none => return none
      | some kind => return some (kind, ← pool.methodRef target)

end BootstrapTable

end CallForest.ClassFile
