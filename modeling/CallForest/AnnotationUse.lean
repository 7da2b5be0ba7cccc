/-!
# Annotations

An annotation has a type and named elements. The value of an element is a constant, a constant of
an enumeration, a class, another annotation, or an array of values.

## Main definitions

* `ElementValue`, `AnnotationUse` — annotations as they stand on classes and methods;
* `AnnotationUse.element?` — the first element of a name;
* `AnnotationUse.strings`, `AnnotationUse.enumNames` — the constants under a name, arrays flattened.
-/

namespace CallForest

/-- The value of an element of an annotation. -/
inductive ElementValue where
  /-- A constant of a primitive type or a string, as text. -/
  | const (text : String)
  | enum (type name : String)
  | classLiteral (descriptor : String)
  | nested (type : String) (elements : List (String × ElementValue))
  | array (values : List ElementValue)
deriving Inhabited

/-- An annotation of a class or method. The type is a field descriptor such as `Lorg/acme/Get;`. -/
structure AnnotationUse where
  type : String
  elements : List (String × ElementValue)
deriving Inhabited

namespace ElementValue

mutual

/-- The constants of a value, arrays flattened; other kinds of values have none. -/
def strings : ElementValue → List String
  | .const text => [text]
  | .array values => stringsAll values
  | _ => []

/-- The constants of several values, in order. -/
def stringsAll : List ElementValue → List String
  | [] => []
  | value :: rest => strings value ++ stringsAll rest

end

mutual

/-- The names of the enumeration constants of a value, arrays flattened. -/
def enumNames : ElementValue → List String
  | .enum _ name => [name]
  | .array values => enumNamesAll values
  | _ => []

/-- The names of the enumeration constants of several values, in order. -/
def enumNamesAll : List ElementValue → List String
  | [] => []
  | value :: rest => enumNames value ++ enumNamesAll rest

end

end ElementValue

namespace AnnotationUse

/-- The value of the first element with the given name. -/
def element? (a : AnnotationUse) (name : String) : Option ElementValue :=
  (a.elements.find? (·.1 = name)).map (·.2)

/-- The constants under a name. -/
def strings (a : AnnotationUse) (name : String) : List String :=
  ((a.element? name).map ElementValue.strings).getD []

/-- The names of the enumeration constants under a name. -/
def enumNames (a : AnnotationUse) (name : String) : List String :=
  ((a.element? name).map ElementValue.enumNames).getD []

end AnnotationUse

end CallForest
