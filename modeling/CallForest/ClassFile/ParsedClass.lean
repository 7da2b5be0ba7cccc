import CallForest.ClassFile.AnnotationTable
import CallForest.ClassFile.Code
import CallForest.EntryPoint
import CallForest.Text.Blank
import CallForest.Text.Search

/-!
# Reading class files

A class file gives one record per method. The calls of a method are those of its code, each target
once, and only those in a given package when one is given. A bridge method that forwards to a
method of the same name and parameter types is left out, because it has the same identity.

## Main definitions

* `RawMethod` — a method as it stands in the file;
* `ClassImage` — a class file, read but not yet interpreted;
* `inNamespace` — whether a class lies in a package;
* `ParsedClass` — the records of a class;
* `parseClass` — reads and interprets a class file.
-/

namespace CallForest.ClassFile

open Decoder

/-! ### Access flags -/

namespace Access

/-- The flag of public classes and methods. -/
def isPublic (flags : Nat) : Bool := flags.testBit 0

/-- The flag of methods that belong to the class and not to its objects. -/
def isStatic (flags : Nat) : Bool := flags.testBit 3

/-- The flag of methods that forward to another method with the types it was declared with. -/
def isBridge (flags : Nat) : Bool := flags.testBit 6

/-- The flag of methods without code. -/
def isAbstract (flags : Nat) : Bool := flags.testBit 10

/-- The flag of methods that are not in the source. -/
def isSynthetic (flags : Nat) : Bool := flags.testBit 12

end Access

/-! ### The file -/

/-- The first four bytes of a class file, as a number. -/
def magicNumber : Nat := 0xcafebabe

/-- The newest major version that is read. -/
def newestMajor : Nat := 69

/-- The class that all classes extend, which is of no interest as a superclass. -/
def objectClass : String := "java/lang/Object"

/-- The name of the attribute with the code of a method. -/
def codeAttribute : String := "Code"

/-- A method as it stands in the file. -/
structure RawMethod where
  accessFlags : Nat
  name : String
  descriptor : String
  annotations : List AnnotationUse
  code : Option (List UInt8)

/-- An attribute that is of interest on a method. -/
inductive MethodAttribute where
  | code (bytes : List UInt8)
  | annotations (list : List AnnotationUse)
  | other

/-- The code in an attribute. -/
def MethodAttribute.code? : MethodAttribute → Option (List UInt8)
  | .code bytes => some bytes
  | _ => none

/-- The annotations in an attribute. -/
def MethodAttribute.annotationList : MethodAttribute → List AnnotationUse
  | .annotations list => list
  | _ => []

/-- An attribute that is of interest on a class. -/
inductive ClassAttribute where
  | bootstrap (table : BootstrapTable)
  | annotations (list : List AnnotationUse)
  | other

/-- The bootstrap table in an attribute. -/
def ClassAttribute.bootstrap? : ClassAttribute → Option BootstrapTable
  | .bootstrap table => some table
  | _ => none

/-- The annotations in an attribute. -/
def ClassAttribute.annotationList : ClassAttribute → List AnnotationUse
  | .annotations list => list
  | _ => []

/-- Reads an attribute of a method. -/
def readMethodAttribute (pool : ConstantPool) : Decoder MethodAttribute := do
  let name ← readText pool
  let length ← u32
  if name = codeAttribute then return .code (← within length readCode)
  else if isAnnotationAttribute name then
    return .annotations (← within length (readAnnotations pool))
  else
    skip length
    return .other

/-- Reads a method. Of several code attributes the last counts, and the annotations of all
attributes are put together. -/
def readMethod (pool : ConstantPool) : Decoder RawMethod := do
  let accessFlags ← u16
  let name ← readText pool
  let descriptor ← readText pool
  let attributes ← counted (readMethodAttribute pool)
  return {
    accessFlags, name, descriptor
    annotations := attributes.flatMap MethodAttribute.annotationList
    code := (attributes.filterMap MethodAttribute.code?).getLast? }

/-- Passes over a field. -/
def skipField : Decoder Unit := do
  skip 6
  skipAttributes

/-- Reads an attribute of a class. -/
def readClassAttribute (pool : ConstantPool) : Decoder ClassAttribute := do
  let name ← readText pool
  let length ← u32
  if name = bootstrapAttribute then return .bootstrap (← within length BootstrapTable.read)
  else if isAnnotationAttribute name then
    return .annotations (← within length (readAnnotations pool))
  else
    skip length
    return .other

/-- Reads an index and the name of the class it leads to. -/
def readClassName (pool : ConstantPool) : Decoder String := do
  lift (pool.className (← u16))

/-- Reads an index and the name of the superclass it leads to, empty for none of interest. -/
def readSuperName (pool : ConstantPool) : Decoder String := do
  let index ← u16
  if index = 0 then return ""
  let name ← lift (pool.className index)
  return if name = objectClass then "" else name

/-- A class file, read but not yet interpreted. -/
structure ClassImage where
  pool : ConstantPool
  accessFlags : Nat
  name : String
  superName : String
  interfaces : List String
  methods : List RawMethod
  annotations : List AnnotationUse
  bootstrap : BootstrapTable

/-- Reads a class file up to its last attribute. What follows does not matter. -/
def readImage : Decoder ClassImage := do
  let magic ← u32
  if magic ≠ magicNumber then throw (.badMagic magic)
  let minor ← u16
  let major ← u16
  if newestMajor < major then throw (.unsupportedVersion major minor)
  let pool ← ConstantPool.read
  let accessFlags ← u16
  let name ← readClassName pool
  let superName ← readSuperName pool
  let interfaces ← counted (readClassName pool)
  let _ ← counted skipField
  let methods ← counted (readMethod pool)
  let attributes ← counted (readClassAttribute pool)
  return {
    pool, accessFlags, name, superName, interfaces, methods
    annotations := attributes.flatMap ClassAttribute.annotationList
    bootstrap := ((attributes.filterMap ClassAttribute.bootstrap?).getLast?).getD {} }

/-! ### Records -/

/-- Whether the class `owner` lies in the package `scope` or below it. Separators at the end of the
package do not count, and every class lies in the empty package. -/
def inNamespace (owner scope : String) : Bool :=
  let package := Text.dropEndWhile (· = '/') scope.toList
  package.isEmpty ||
    match Text.dropStart? package owner.toList with
    | some rest => rest.head? = some '/'
    | none => false

/-- The calls of a piece of code whose targets lie in the package, if one is given, each target
once. -/
def callSites (pool : ConstantPool) (table : BootstrapTable) (scope : Option String)
    (code : List UInt8) : Except Fault (List CallSite) := do
  let calls ← invocations pool table code
  let kept := calls.filter fun call => scope.all (inNamespace call.target.owner)
  let sites ← kept.mapM fun call =>
    match CallSite.of? call.target.owner call.target.name call.target.descriptor with
    | some site => .ok site
    | none => .error (.indivisible call.target.descriptor)
  return CallSite.distinct [] sites

/-- The part of a method's identity inside its class. -/
def RawMethod.key (m : RawMethod) : String × String :=
  (m.name, Descriptor.identifying m.descriptor)

/-- The methods without the bridges to a method that is there too. -/
def withoutShadows (methods : List RawMethod) : List RawMethod :=
  let declared := (methods.filter fun m => !Access.isBridge m.accessFlags).map RawMethod.key
  methods.filter fun m => !(Access.isBridge m.accessFlags && declared.contains m.key)

/-- The shape of a method for the classification of entry points. -/
def RawMethod.shape (m : RawMethod) : MethodShape where
  name := m.name
  isPublic := Access.isPublic m.accessFlags
  isStatic := Access.isStatic m.accessFlags
  isSynthetic := Access.isSynthetic m.accessFlags

namespace ClassImage

/-- What the annotations of the class say about its methods. -/
def mapping (image : ClassImage) : ClassMapping :=
  .of image.annotations

/-- The class as its records see it. -/
def info (image : ClassImage) : ClassInfo where
  name := image.name
  superName := image.superName
  interfaces := image.interfaces
  basePath := image.mapping.basePath

/-- The record of a method. -/
def record (image : ClassImage) (scope : Option String) (m : RawMethod) :
    Except Fault MethodRecord := do
  match MethodRecord.of? image.info m.name m.descriptor with
  | none => throw (.indivisible m.descriptor)
  | some blank =>
    let entry := EntryPoint.classify image.mapping m.shape m.annotations
    let callees ← match m.code with
      | some code => callSites image.pool image.bootstrap scope code
      | none => .ok []
    return { blank with
      isAbstract := Access.isAbstract m.accessFlags
      entryKind := entry.kind
      mappingPath := entry.path
      requestMethods := entry.requestMethods
      callees }

end ClassImage

/-- The records of a class. -/
structure ParsedClass where
  info : ClassInfo
  accessFlags : Nat
  methods : List MethodRecord

/-- Interprets a class file. -/
def ClassImage.parsed (image : ClassImage) (scope : Option String) : Except Fault ParsedClass := do
  let methods ← (withoutShadows image.methods).mapM (image.record scope)
  return { info := image.info, accessFlags := image.accessFlags, methods }

/-- Reads and interprets a class file, with only the calls into the package `scope` if one is
given. -/
def parseClass (bytes : List UInt8) (scope : Option String) : Except Fault ParsedClass := do
  let image ← readImage.decode bytes
  image.parsed scope

end CallForest.ClassFile
