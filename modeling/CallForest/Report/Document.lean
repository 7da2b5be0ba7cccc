import CallForest.CallTree
import CallForest.Json.Parser
import CallForest.Json.Printer

/-!
# Forests as JSON documents

A forest is written as an object with the trees of either kind. A node has its method, what is
special about it, and its children; a flag that is not set, a path that is not there and an empty
list of verbs are left out. When a document is read, these may be missing, members of other names
are passed over, and a node or forest may also be given as an array of its members in order.

## Main definitions

* `EntryForest.toJson`, `EntryForest.toDocument` — writing;
* `EntryForest.ofJson?`, `EntryForest.ofDocument?` — reading.
-/

namespace CallForest

/-! ### Writing -/

mutual

/-- A tree as a JSON object. -/
def CallTree.toJson : CallTree → Json
  | .node root children =>
    .object <|
      [("signature", .string root.signature), ("class_name", .string root.className),
       ("method_name", .string root.methodName), ("parameters", .strings root.parameters)] ++
      (if root.isAbstract then [("is_abstract", .bool true)] else []) ++
      (root.mappingPath.map fun path => ("mapping_path", Json.string path)).toList ++
      (if root.requestMethods.isEmpty then []
       else [("request_methods", .strings root.requestMethods)]) ++
      [("children", .array (CallTree.allToJson children))]

/-- Trees as JSON objects. -/
def CallTree.allToJson : List CallTree → List Json
  | [] => []
  | t :: rest => t.toJson :: CallTree.allToJson rest

end

/-- A forest as a JSON object. -/
def EntryForest.toJson (f : EntryForest) : Json :=
  .object [("http", .array (CallTree.allToJson f.http)), ("rpc", .array (CallTree.allToJson f.rpc))]

/-- The document of a forest. -/
def EntryForest.toDocument (f : EntryForest) : String :=
  f.toJson.pretty

/-! ### Reading -/

namespace Json

/-- The text of a string. -/
def text? : Json → Option String
  | .string text => some text
  | _ => none

/-- The truth value of a literal. -/
def truth? : Json → Option Bool
  | .bool b => some b
  | _ => none

/-- The items of an array. -/
def items? : Json → Option (List Json)
  | .array items => some items
  | _ => none

/-- The texts of an array of strings. -/
def texts? (json : Json) : Option (List String) := do
  (← json.items?).mapM text?

/-- A text that may be null. -/
def optionalText? : Json → Option (Option String)
  | .null => some none
  | .string text => some (some text)
  | _ => none

/-- The members with the given names, in that order, each of which may be missing. An object may
not repeat one of them, and an array gives them by position and has no more than those. -/
def fields? (names : List String) : Json → Option (List (Option Json))
  | .object members => names.mapM fun name =>
    match members.filter (·.1 = name) with
    | [] => some none
    | [(_, value)] => some (some value)
    | _ => none
  | .array items =>
    if items.length ≤ names.length then
      some (items.map some ++ List.replicate (names.length - items.length) none)
    else none
  | _ => none

/-- A member that has to be there. -/
def required {α : Type} (read : Json → Option α) (field : Option Json) : Option α := do
  read (← field)

/-- A member that may be missing. -/
def optional {α : Type} (default : α) (read : Json → Option α) : Option Json → Option α
  | none => some default
  | some json => read json

end Json

/-- The names of the members of a node. -/
def CallNode.fieldNames : List String :=
  ["signature", "class_name", "method_name", "parameters", "is_abstract", "mapping_path",
   "request_methods", "children"]

/-- Reads a tree. A node is a bracket with brackets in it, so that two levels of the allowed
nesting are used up before its children. -/
def CallTree.ofJson? : (levels : Nat) → Json → Option CallTree
  | 0, _ | 1, _ => none
  | levels + 2, json => do
    match ← json.fields? CallNode.fieldNames with
    | [signature, className, methodName, parameters, isAbstract, mappingPath, requestMethods,
        children] =>
      let root : CallNode := {
        signature := ← Json.required Json.text? signature
        className := ← Json.required Json.text? className
        methodName := ← Json.required Json.text? methodName
        parameters := ← Json.required Json.texts? parameters
        isAbstract := ← Json.optional false Json.truth? isAbstract
        mappingPath := ← Json.optional none Json.optionalText? mappingPath
        requestMethods := ← Json.optional [] Json.texts? requestMethods }
      let items ← Json.optional [] Json.items? children
      return .node root (← items.mapM (CallTree.ofJson? levels))
    | _ => none

/-- The number of brackets that may stand in each other in a document. -/
def maxBrackets : Nat := 127

/-- Reads a forest. The forest and the list of its trees are the two outer brackets. -/
def EntryForest.ofJson? (json : Json) : Option EntryForest := do
  match ← json.fields? ["http", "rpc"] with
  | [http, rpc] =>
    let trees (field : Option Json) : Option (List CallTree) := do
      (← Json.required Json.items? field).mapM (CallTree.ofJson? (maxBrackets - 2))
    return { http := ← trees http, rpc := ← trees rpc }
  | _ => none

/-- The forest of a document. -/
def EntryForest.ofDocument? (text : String) : Option EntryForest := do
  EntryForest.ofJson? (← Json.parse? text)

end CallForest
