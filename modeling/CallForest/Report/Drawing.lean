import CallForest.CallTree

/-!
# Forests as drawings

A forest is drawn as a directed graph in the DOT language. Every node of every tree is drawn on its
own and numbered in the order of a depth-first visit, so that each edge of a tree is one arrow.

## Main definitions

* `Drawing.escape` — a label between quotes;
* `Drawing.rootLabel` — the label of a root;
* `Drawing.treeLines` — the lines of a tree;
* `EntryForest.toDrawing` — the drawing of a forest.
-/

namespace CallForest

namespace Drawing

/-- The form of one character between quotes. -/
def escapeChar (c : Char) : List Char :=
  if c = '\\' then ['\\', '\\']
  else if c = '"' then ['\\', '"']
  else if c = '\n' then ['\\', 'n']
  else [c]

/-- A label as it stands between quotes. -/
def escape (label : String) : String :=
  String.ofList (label.toList.flatMap escapeChar)

/-- The label of a root: its kind, its verbs and path if it has a path, and its signature on a line
of its own. -/
def rootLabel (kind : EntryKind) (n : CallNode) : String :=
  let verbs := if n.requestMethods.isEmpty then "" else "|".intercalate n.requestMethods ++ " "
  let path := match n.mappingPath with
    | some path => " " ++ verbs ++ path
    | none => ""
  "[" ++ kind.name ++ "]" ++ path ++ "\n" ++ n.signature

/-- The looks of a node. -/
structure Looks where
  style : String
  fill : String
  border : String
deriving DecidableEq, Repr

/-- Roots are rounded, with a colour by kind. -/
def rootLooks (kind : EntryKind) : Looks where
  style := "filled,rounded"
  fill := if kind = .rpc then "#cba6f7" else "#a6e3a1"
  border := "#40a02b"

/-- Other nodes are dashed when they are abstract. -/
def childLooks (n : CallNode) : Looks :=
  if n.isAbstract then ⟨"filled,dashed", "#f9e2af", "#df8e1d"⟩
  else ⟨"filled", "#89b4fa", "#1e66f5"⟩

/-- The name of the node with a number. -/
def nodeName (id : Nat) : String :=
  "n" ++ toString id

/-- The line that draws a node. -/
def nodeLine (id : Nat) (label : String) (looks : Looks) : String :=
  "    " ++ nodeName id ++ " [label=\"" ++ escape label ++ "\", style=\"" ++ looks.style ++
    "\", fillcolor=\"" ++ looks.fill ++ "\", color=\"" ++ looks.border ++ "\"];"

/-- The line that draws an arrow. -/
def edgeLine (parent child : Nat) : String :=
  "    " ++ nodeName parent ++ " -> " ++ nodeName child ++ ";"

mutual

/-- The lines of a subtree whose top has the number `id` and hangs below `parent`. -/
def subtreeLines (parent id : Nat) : CallTree → List String
  | .node root children =>
    nodeLine id root.signature (childLooks root) :: edgeLine parent id ::
      childLines id (id + 1) children

/-- The lines of subtrees that hang below `parent`, the first with the number `id`. -/
def childLines (parent id : Nat) : List CallTree → List String
  | [] => []
  | t :: rest => subtreeLines parent id t ++ childLines parent (id + t.size) rest

end

/-- The lines of a tree whose root has the number `id`. -/
def treeLines (kind : EntryKind) (id : Nat) (t : CallTree) : List String :=
  nodeLine id (rootLabel kind t.root) (rootLooks kind) :: childLines id (id + 1) t.children

/-- The lines of several trees, a blank line before each. -/
def forestLines (id : Nat) : List (EntryKind × CallTree) → List String
  | [] => []
  | (kind, t) :: rest => "" :: treeLines kind id t ++ forestLines (id + t.size) rest

/-- The lines before the first tree. -/
def header : List String :=
  ["digraph InvokeLinks \x7b",
   "    rankdir=LR;",
   "    node [fontname=\"Helvetica\", fontsize=11, shape=box];",
   "    edge [fontname=\"Helvetica\", fontsize=9];"]

/-- All lines of a drawing. -/
def lines (f : EntryForest) : List String :=
  header ++ forestLines 0 f.trees ++ ["\x7d"]

end Drawing

/-- The drawing of a forest. -/
def EntryForest.toDrawing (f : EntryForest) : String :=
  "\n".intercalate (Drawing.lines f)

end CallForest
