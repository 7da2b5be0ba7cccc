import CallForest.AnnotationUse
import CallForest.ClassFile.ConstantPool

/-!
# Annotations in class files

The body of an annotation attribute is a counted list of annotations. Annotations nest in each
other and in arrays. Both raise the depth, but only an annotation checks it.

## Main definitions

* `readElement` — reads the value of an element;
* `readAnnotations` — reads the body of an annotation attribute.
-/

namespace CallForest.ClassFile

open Decoder

/-- The name of the attribute with the annotations that a running program can see. -/
def visibleAnnotations : String := "RuntimeVisibleAnnotations"

/-- The name of the attribute with the annotations that a running program cannot see. -/
def invisibleAnnotations : String := "RuntimeInvisibleAnnotations"

/-- Whether the attribute of a name holds annotations. -/
def isAnnotationAttribute (name : String) : Bool :=
  name = visibleAnnotations || name = invisibleAnnotations

/-- An annotation deeper than this is refused. -/
def maxNesting : Nat := 64

/-- The tags of elements that hold a constant. -/
def constantTags : List Nat :=
  ['B', 'C', 'D', 'F', 'I', 'J', 'S', 'Z', 's'].map Char.toNat

/-- Reads an index and the text it leads to. -/
def readText (pool : ConstantPool) : Decoder String := do
  lift (pool.utf8 (← u16))

/-- Reads an annotation at the given depth, with a way to read the values of its elements. -/
def readAnnotationWith (pool : ConstantPool) (element : Decoder ElementValue) (depth : Nat) :
    Decoder AnnotationUse := do
  if maxNesting < depth then throw (.malformed (.deepNesting maxNesting))
  let type ← readText pool
  let elements ← counted do
    let name ← readText pool
    return (name, ← element)
  return { type, elements }

/-- Reads the value of an element of an annotation at the given depth. A value takes at least one
byte, so the number of bytes is fuel enough. -/
def readElement (pool : ConstantPool) : (fuel depth : Nat) → Decoder ElementValue
  | 0, _ => throw (.malformed (.deepNesting maxNesting))
  | fuel + 1, depth => do
    let tag ← u8
    if constantTags.contains tag then
      return .const (← lift (pool.text (← u16) tag))
    else if tag = 'e'.toNat then
      return .enum (← readText pool) (← readText pool)
    else if tag = 'c'.toNat then
      return .classLiteral (← readText pool)
    else if tag = '@'.toNat then
      let a ← readAnnotationWith pool (readElement pool fuel (depth + 1)) (depth + 1)
      return .nested a.type a.elements
    else if tag = '['.toNat then
      return .array (← counted (readElement pool fuel (depth + 1)))
    else
      throw (.malformed (.unknownElementTag tag))

/-- Reads the body of an annotation attribute. -/
def readAnnotations (pool : ConstantPool) : Decoder (List AnnotationUse) := do
  let fuel := (← get).after.length + 1
  counted (readAnnotationWith pool (readElement pool fuel 0) 0)

end CallForest.ClassFile
