import CallForest.AnnotationUse
import CallForest.Method.Record

/-!
# Entry points

A method can be entered from outside when its annotations say so. The first annotation on the
method that maps web requests decides alone. Without one, the method belongs to a remote service
when it is marked as such itself, or when its class is marked and the method is public, not
static, not synthetic and no initializer.

## Main definitions

* `ClassMapping.of` — what the annotations of a class say about its methods;
* `webMapping?` — the first request mapping among annotations;
* `EntryPoint.classify` — how a method is entered.
-/

namespace CallForest

/-- The annotation that maps requests of any verb, or of the verbs it names. -/
def requestMapping : String := "Lorg/springframework/web/bind/annotation/RequestMapping;"

/-- The annotations that map requests of one verb. -/
def verbMappings : List (String × String) :=
  [("Lorg/springframework/web/bind/annotation/GetMapping;", "GET"),
   ("Lorg/springframework/web/bind/annotation/PostMapping;", "POST"),
   ("Lorg/springframework/web/bind/annotation/PutMapping;", "PUT"),
   ("Lorg/springframework/web/bind/annotation/DeleteMapping;", "DELETE"),
   ("Lorg/springframework/web/bind/annotation/PatchMapping;", "PATCH")]

/-- The annotations that mark a remote service. -/
def serviceMarkers : List String :=
  ["Lorg/apache/dubbo/config/annotation/DubboService;",
   "Lorg/apache/dubbo/config/annotation/Service;",
   "Lcom/alibaba/dubbo/config/annotation/Service;"]

/-- Whether an annotation marks a remote service. -/
def AnnotationUse.isServiceMarker (a : AnnotationUse) : Bool :=
  serviceMarkers.contains a.type

/-- The path of a mapping: the first text under `value`, then under `path`, that is not empty. -/
def AnnotationUse.mappingPath (a : AnnotationUse) : String :=
  ((a.strings "value" ++ a.strings "path").find? (· ≠ "")).getD ""

/-- What the annotations of a class say about its methods. -/
structure ClassMapping where
  basePath : String := ""
  isService : Bool := false
deriving DecidableEq, Repr

/-- The base path comes from the first request mapping of the class, the service mark from any. -/
def ClassMapping.of (annotations : List AnnotationUse) : ClassMapping where
  basePath := ((annotations.find? (·.type = requestMapping)).map AnnotationUse.mappingPath).getD ""
  isService := annotations.any AnnotationUse.isServiceMarker

/-- The parts of a method declaration that matter for service methods. -/
structure MethodShape where
  name : String
  isPublic : Bool
  isStatic : Bool
  isSynthetic : Bool
deriving DecidableEq, Repr

/-- Whether the methods of a service of this shape are remote methods. -/
def MethodShape.isServiceMethod (m : MethodShape) : Bool :=
  m.isPublic && !m.isStatic && !m.isSynthetic && m.name.toList.head? != some '<'

/-- How a method is entered, with path and verbs for web requests. -/
structure EntryPoint where
  kind : EntryKind
  path : String := ""
  requestMethods : List String := []
deriving DecidableEq, Repr

/-- The request mapping that an annotation stands for. -/
def AnnotationUse.webMapping? (a : AnnotationUse) : Option EntryPoint :=
  if a.type = requestMapping then
    some { kind := .http, path := a.mappingPath, requestMethods := a.enumNames "method" }
  else
    (verbMappings.find? (·.1 = a.type)).map fun (_, verb) =>
      { kind := .http, path := a.mappingPath, requestMethods := [verb] }

/-- How a method is entered, given the mapping of its class. -/
def EntryPoint.classify (mapping : ClassMapping) (method : MethodShape)
    (annotations : List AnnotationUse) : EntryPoint :=
  match annotations.findSome? AnnotationUse.webMapping? with
  | some entry => entry
  | none =>
    if annotations.any AnnotationUse.isServiceMarker ||
        (mapping.isService && method.isServiceMethod)
    then { kind := .rpc }
    else { kind := .closed }

end CallForest
