import Std.Data.TreeSet
import CallForest.CallIndex
import CallForest.CycleGuard
import CallForest.MappingPath

/-!
# Assembling call trees

The records of all methods are turned into one tree per entry point. A method that is not abstract
has the methods it calls as children, each once and only if the guard admits it. An abstract method
has the methods that implement it as children, and the guard is not asked. Below the depth limit
nothing is expanded.

## Main definitions

* `latest` — the last record of each signature, in the order of the signatures;
* `CallGraph` — what is looked up while trees grow;
* `CallGraph.grow` — a tree of limited depth;
* `Assembly.assemble` — the forest of all entry points.
-/

namespace CallForest

/-- The last record of each signature, in the order of the signatures. -/
def latest (records : List MethodRecord) : List MethodRecord :=
  (records.foldl (fun kept r => kept.insert r.signature r)
    (∅ : Std.TreeMap String MethodRecord)).values

/-- What is looked up while trees grow. -/
structure CallGraph where
  index : CallIndex
  dispatch : DispatchIndex
  abstracts : Std.TreeSet String

namespace CallGraph

/-- The graph of a list of records. -/
def ofRecords (records : List MethodRecord) : CallGraph where
  index := .build records
  dispatch := .build records
  abstracts := records.foldl
    (fun abstracts r => if r.isAbstract then abstracts.insert r.signature else abstracts) ∅

/-- Whether a signature is that of an abstract method. -/
def isAbstract (g : CallGraph) (signature : String) : Bool :=
  g.abstracts.contains signature

/-- The methods that implement the method of a node. -/
def implementations (g : CallGraph) (n : CallNode) : List CallNode :=
  (g.dispatch.resolve n.className n.methodName n.parameters).map CallNode.ofRecord

/-- The methods that the method of a node calls, as far as the guard admits them at the end of the
trail. -/
def calls (g : CallGraph) (guard : CycleGuard) (trail : Trail) (n : CallNode) : List CallNode :=
  (guard.select trail (CallSite.distinct [] (g.index.callees n.signature))).map
    fun site => CallNode.ofCallSite site (g.isAbstract site.signature)

/-- The nodes below a node, where the trail leads from the root to the node itself. -/
def below (g : CallGraph) (guard : CycleGuard) (trail : Trail) (n : CallNode) : List CallNode :=
  if g.isAbstract n.signature then g.implementations n else g.calls guard trail n

/-- The tree under a node with at most `levels` further levels, where the trail leads to the
node. -/
def grow (g : CallGraph) (guard : CycleGuard) : Nat → Trail → CallNode → CallTree
  | 0, _, n => .node n []
  | levels + 1, trail, n =>
    let here := trail.push n.frame
    .node n ((g.below guard here n).map (g.grow guard levels here))

end CallGraph

/-- The root of the tree of an entry point. Only web requests have a path and verbs. -/
def MethodRecord.rootNode (r : MethodRecord) : CallNode :=
  if r.entryKind = .http then
    { CallNode.ofRecord r with
      mappingPath := some (MappingPath.join r.owner.basePath r.mappingPath)
      requestMethods := r.requestMethods }
  else CallNode.ofRecord r

/-- How trees are assembled. -/
structure Assembly where
  guard : CycleGuard := .serialized
  /-- The greatest number of levels; a tree always has one. -/
  maxDepth : Nat := 512
deriving DecidableEq, Repr

namespace Assembly

/-- The tree of one entry point. -/
def tree (a : Assembly) (g : CallGraph) (r : MethodRecord) : CallTree :=
  g.grow a.guard (max 1 a.maxDepth - 1) .empty r.rootNode

/-- The trees of the entry points of one kind. -/
def treesOf (a : Assembly) (g : CallGraph) (kind : EntryKind) (records : List MethodRecord) :
    List CallTree :=
  (records.filter (·.entryKind = kind)).map (a.tree g)

/-- The forest of all entry points. -/
def assemble (a : Assembly) (records : List MethodRecord) : EntryForest :=
  let known := latest records
  let g := CallGraph.ofRecords known
  { http := a.treesOf g .http known, rpc := a.treesOf g .rpc known }

end Assembly

end CallForest
