import CallForest.AnnotationUse
import CallForest.ClassFile.ParsedClass

/-!
# Class specifications

A description of a class from which a class file can be written: names, annotations and methods
with straight-line bodies.

## Main definitions

* `BodyItem` — an instruction of a body;
* `MethodSpec`, `ClassSpec` — a method and a class to be written;
* `ClassSpec.indivisible?` — a descriptor that keeps the class from being written.
-/

namespace CallForest.ClassFile

/-- An instruction of a body. -/
inductive BodyItem where
  /-- A call. -/
  | invoke (kind : InvokeKind) (target : MemberRef)
  /-- A lambda over the given method. -/
  | lambda (kind : InvokeKind) (target : MemberRef)
  /-- A dynamic call site that is linked by a static method without arguments. -/
  | dynamic (owner name : String)
  /-- The load of a string. -/
  | loadString (text : String)
  /-- A switch over a range of keys, all of which lead to the next instruction. -/
  | tableSwitch (low high : Int)
  /-- A switch over some keys, all of which lead to the next instruction. -/
  | lookupSwitch (keys : List Int)
  /-- Instructions given by their bytes. -/
  | raw (bytes : List UInt8)
deriving DecidableEq, Repr

/-- A method to be written. -/
structure MethodSpec where
  name : String
  descriptor : String
  accessFlags : Nat := 0x0001
  annotations : List AnnotationUse := []
  /-- No body means that there is no code at all. -/
  body : Option (List BodyItem) := some []

/-- A public method with an empty body. -/
def MethodSpec.concrete (name descriptor : String) : MethodSpec :=
  { name, descriptor }

/-- A public abstract method. -/
def MethodSpec.abstract (name descriptor : String) : MethodSpec :=
  { name, descriptor, accessFlags := 0x0401, body := none }

/-- The method with one more instruction; an abstract method gets a body by it. -/
def MethodSpec.addItem (m : MethodSpec) (item : BodyItem) : MethodSpec :=
  { m with body := some (m.body.getD [] ++ [item]) }

/-- A class to be written. -/
structure ClassSpec where
  name : String
  superName : Option String := some objectClass
  interfaces : List String := []
  accessFlags : Nat := 0x0001
  major : Nat := 52
  annotations : List AnnotationUse := []
  methods : List MethodSpec := []

/-- A public interface. -/
def ClassSpec.interface (name : String) : ClassSpec :=
  { name, accessFlags := 0x0601 }

/-- The descriptors whose parameters have to be counted to write a method: its own, if it has
code, and those of the interface methods it calls. -/
def MethodSpec.countedDescriptors (m : MethodSpec) : List String :=
  match m.body with
  | none => []
  | some body => m.descriptor :: body.filterMap fun
    | .invoke .interface target => some target.descriptor
    | _ => none

/-- The first descriptor whose parameters have to be counted and cannot be. -/
def ClassSpec.indivisible? (c : ClassSpec) : Option String :=
  (c.methods.flatMap MethodSpec.countedDescriptors).find? fun descriptor =>
    (Descriptor.parameters? descriptor).isNone

end CallForest.ClassFile
