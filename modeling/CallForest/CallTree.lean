import CallForest.Method.Record

/-!
# Call trees

A call tree shows what an entry point runs: the root is the entry point, and the children of a
node are the methods it may call. Nodes are never shared, so a method that is reached in two ways
appears twice. The trees of all entry points make up a forest in two parts.

## Main definitions

* `CallNode` — what a node says about its method;
* `CallTree` — a node with its subtrees;
* `CallTree.preorder` — the nodes in the order of a depth-first visit, with their levels;
* `EntryForest` — the trees of all entry points, by kind.
-/

namespace CallForest

/-- What a node of a call tree says about its method. -/
structure CallNode where
  signature : String
  className : String
  methodName : String
  parameters : List String
  isAbstract : Bool := false
  /-- The whole request path; only the root of a web request has one. -/
  mappingPath : Option String := none
  requestMethods : List String := []
deriving DecidableEq, Repr, Inhabited

/-- The node of a method that is known by its record. -/
def CallNode.ofRecord (r : MethodRecord) : CallNode where
  signature := r.signature
  className := r.owner.name
  methodName := r.name
  parameters := r.parameters
  isAbstract := r.isAbstract

/-- The node of a method that is known by a call of it. -/
def CallNode.ofCallSite (site : CallSite) (isAbstract : Bool) : CallNode where
  signature := site.signature
  className := site.owner
  methodName := site.name
  parameters := site.parameters
  isAbstract := isAbstract

/-- A node with its subtrees. -/
inductive CallTree where
  | node (root : CallNode) (children : List CallTree)
deriving Inhabited

namespace CallTree

/-- The node at the top. -/
def root : CallTree → CallNode
  | .node root _ => root

/-- The subtrees directly below the top. -/
def children : CallTree → List CallTree
  | .node _ children => children

/-- Whether there is nothing below the top. -/
def isLeaf (t : CallTree) : Bool :=
  t.children.isEmpty

mutual

/-- The number of nodes. -/
def size : CallTree → Nat
  | .node _ children => 1 + sizeAll children

/-- The number of nodes of several trees. -/
def sizeAll : List CallTree → Nat
  | [] => 0
  | t :: rest => size t + sizeAll rest

end

mutual

/-- The number of levels. -/
def depth : CallTree → Nat
  | .node _ children => 1 + depthAll children

/-- The number of levels of the deepest of several trees. -/
def depthAll : List CallTree → Nat
  | [] => 0
  | t :: rest => max (depth t) (depthAll rest)

end

mutual

/-- The nodes in the order of a depth-first visit with their levels, where the top stands at the
given level. -/
def preorder (level : Nat) : CallTree → List (Nat × CallNode)
  | .node root children => (level, root) :: preorderAll (level + 1) children

/-- The nodes of several trees, one tree after the other. -/
def preorderAll (level : Nat) : List CallTree → List (Nat × CallNode)
  | [] => []
  | t :: rest => preorder level t ++ preorderAll level rest

end

/-- The nodes of a tree, top first. -/
def nodes (t : CallTree) : List CallNode :=
  (t.preorder 0).map (·.2)

mutual

/-- The first subtree, in depth-first order, whose top has the given signature. -/
def find? (signature : String) : CallTree → Option CallTree
  | .node root children =>
    if root.signature = signature then some (.node root children) else findIn? signature children

/-- The first subtree of several trees with the given signature. -/
def findIn? (signature : String) : List CallTree → Option CallTree
  | [] => none
  | t :: rest => (find? signature t).or (findIn? signature rest)

end

end CallTree

/-- The trees of all entry points. -/
structure EntryForest where
  http : List CallTree := []
  rpc : List CallTree := []
deriving Inhabited

namespace EntryForest

/-- The number of trees. -/
def size (f : EntryForest) : Nat :=
  f.http.length + f.rpc.length

/-- Whether there is no tree. -/
def isEmpty (f : EntryForest) : Bool :=
  f.http.isEmpty && f.rpc.isEmpty

/-- All trees with their kind, web requests first. -/
def trees (f : EntryForest) : List (EntryKind × CallTree) :=
  f.http.map (.http, ·) ++ f.rpc.map (.rpc, ·)

/-- The forest with only the trees that satisfy `p`. -/
def filter (p : CallTree → Bool) (f : EntryForest) : EntryForest where
  http := f.http.filter p
  rpc := f.rpc.filter p

end EntryForest

end CallForest
