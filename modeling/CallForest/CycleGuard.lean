import CallForest.CallTree
import CallForest.Json.Printer
import CallForest.Text.LowerCase
import CallForest.Text.Search

/-!
# Cycle guards

A call tree of a recursive program would be infinite. A guard decides, from the path between the
root and the node that is being expanded, whether a call may become a child of that node.

The `ancestor` guard refuses a signature that stands on the path. The `serialized` guard refuses a
signature that occurs anywhere in the JSON text of the path, as a part of a longer one too.

## Main definitions

* `Frame` — what a guard sees of a node;
* `CycleGuard` — the two guards;
* `CycleGuard.admits` — the decision;
* `Trail` — a path with its text, which grows by one frame at a time;
* `CycleGuard.select` — the decision on several calls at the end of a trail;
* `CycleGuard.ofName` — the guard of a name.

## Main results

* `CycleGuard.select_eq_filter` — on a trail, the same calls are admitted as on its path.
-/

namespace CallForest

/-- What a guard sees of a node on the path. -/
structure Frame where
  signature : String
  className : String
  methodName : String
  parameters : List String
  mappingPath : Option String := none
deriving DecidableEq, Repr

/-- The frame of a node. -/
def CallNode.frame (n : CallNode) : Frame where
  signature := n.signature
  className := n.className
  methodName := n.methodName
  parameters := n.parameters
  mappingPath := n.mappingPath

/-- A frame as a JSON object; a missing path is left out. -/
def Frame.toJson (f : Frame) : Json :=
  .object <|
    [("signature", .string f.signature), ("class_name", .string f.className),
     ("method_name", .string f.methodName), ("parameters", .strings f.parameters)] ++
    (f.mappingPath.map fun path => ("mapping_path", Json.string path)).toList

/-- The JSON text of a path, root first. -/
def pathText (path : List Frame) : List Char :=
  (Json.array (path.map Frame.toJson)).compactChars

/-! ### Trails

While a tree grows, its paths grow by one frame at a time. A trail keeps the text of its path last
character first, so that one more frame is written in front of it. -/

/-- A path with its text. -/
structure Trail where
  /-- The frames, last frame first. -/
  frames : List Frame
  /-- The text of the path without its closing bracket, last character first. It is written out only
  when a guard looks at it. -/
  text : Thunk (List Char)
  text_eq : ']' :: text.get = (pathText frames.reverse).reverse

namespace Trail

/-- The path of a trail, root first. -/
def path (t : Trail) : List Frame :=
  t.frames.reverse

theorem pathText_append_singleton (path : List Frame) (f : Frame) (h : path ≠ []) :
    pathText (path ++ [f]) = (pathText path).dropLast ++ ',' :: f.toJson.compactChars ++ [']'] := by
  have hne : path.map Frame.toJson ≠ [] := by simpa using h
  have hopen (cs : List Char) : ('[' :: (cs ++ [']'])).dropLast = '[' :: cs := by
    rw [← List.cons_append, List.dropLast_concat]
  simp only [pathText, Json.compactChars, List.map_append, List.map_cons, List.map_nil,
    Json.compactItems_append_singleton _ _ hne, hopen]
  simp

/-- The trail with no frame. -/
def empty : Trail where
  frames := []
  text := Thunk.pure ['[']
  text_eq := rfl

/-- The trail with one more frame at its end. -/
def push (t : Trail) (f : Frame) : Trail where
  frames := f :: t.frames
  text := Thunk.mk fun _ =>
    f.toJson.compactChars.reverse ++
      if t.frames.isEmpty then t.text.get else ',' :: t.text.get
  text_eq := by
    show ']' :: (f.toJson.compactChars.reverse ++
      if t.frames.isEmpty then t.text.get else ',' :: t.text.get) = _
    have ht := t.text_eq
    cases hf : t.frames with
    | nil =>
      rw [hf] at ht
      have hbare : t.text.get = ['['] := by
        simpa [pathText, Json.compactChars, Json.compactItems] using ht
      simp [hbare, pathText, Json.compactChars, Json.compactItems]
    | cons g rest =>
      have hne : (g :: rest).reverse ≠ [] := by simp
      rw [hf] at ht
      have hlast : (pathText (g :: rest).reverse).dropLast = t.text.get.reverse := by
        rw [← List.reverse_reverse (pathText (g :: rest).reverse), ← ht]
        simp
      rw [List.reverse_cons, pathText_append_singleton _ _ hne, hlast]
      simp

theorem path_push (t : Trail) (f : Frame) : (t.push f).path = t.path ++ [f] := by
  simp [path, push]

end Trail

/-! ### Guards -/

/-- The rule by which repeated calls are cut off. -/
inductive CycleGuard where
  | serialized
  | ancestor
deriving DecidableEq, Repr, Inhabited

namespace CycleGuard

/-- Whether a call of `candidate` may stand under the last frame of the path. -/
def admits : CycleGuard → List Frame → String → Bool
  | .serialized, path, candidate => !Text.occursIn candidate.toList (pathText path)
  | .ancestor, path, candidate => !path.any (·.signature = candidate)

/-- The calls that may stand at the end of a trail. -/
def select (guard : CycleGuard) (trail : Trail) (sites : List CallSite) : List CallSite :=
  match guard with
  | .serialized =>
    let text := ']' :: trail.text.get
    sites.filter fun site => !Text.occursIn site.signature.toList.reverse text
  | .ancestor => sites.filter fun site => !trail.frames.any (·.signature = site.signature)

theorem select_eq_filter (guard : CycleGuard) (trail : Trail) (sites : List CallSite) :
    guard.select trail sites = sites.filter fun site => guard.admits trail.path site.signature := by
  cases guard with
  | serialized =>
    simp only [select, admits, trail.text_eq, Text.occursIn_reverse, Trail.path]
  | ancestor => simp [select, admits, Trail.path]

/-- The name of a guard. -/
def name : CycleGuard → String
  | .serialized => "serialized"
  | .ancestor => "ancestor"

/-- A name that no guard has, in lower case. -/
structure UnknownName where
  name : String
deriving DecidableEq, Repr

/-- What is said about an unknown name. -/
def UnknownName.message (e : UnknownName) : String :=
  "unknown cycle guard '" ++ e.name ++ "'"

/-- The guard of a name in any case. Each guard has two names. -/
def ofName (name : String) : Except UnknownName CycleGuard :=
  let lower := Text.lowerCase name
  if lower = "serialized" ∨ lower = "containment" then .ok .serialized
  else if lower = "ancestor" ∨ lower = "path" then .ok .ancestor
  else .error ⟨lower⟩

end CycleGuard

end CallForest
