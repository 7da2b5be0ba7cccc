import CallForest.Proofs.FirstCalls
import CallForest.Proofs.Lookup
import Mathlib.Data.Finset.Card
import Mathlib.Data.Finset.Dedup

/-!
# Growing trees

What one step of growth puts under a node, and what therefore holds of every node of a tree. A
tree grows one level at a time, so a property that passes from a node to the nodes directly below
it holds throughout.

## Main definitions

* `Mention` — a method as a record, a call or a node names it;
* `mentions` — every mention in a list of records;
* `signatures` — the different signatures in a list of records.

## Main results

* `CallTree.nodes_node`, `CallTree.depth_node_le` — nodes and depth, level by level;
* `CallGraph.mem_calls_iff`, `CallGraph.exists_mem_calls` — the calls below a node;
* `CallGraph.forall_nodes_grow` — what passes to the nodes below holds in the whole tree;
* `mention_mem_of_mem_below` — a tree names only methods that the records mention.
-/

namespace CallForest

/-! ### Mentions -/

/-- A method as a record, a call or a node names it. -/
structure Mention where
  signature : String
  /-- The class that the method is looked up in. -/
  owner : String
  name : String
  parameters : List String
deriving DecidableEq, Repr

/-- The method of a record. -/
def MethodRecord.mention (r : MethodRecord) : Mention :=
  ⟨r.signature, r.owner.name, r.name, r.parameters⟩

/-- The method that is called. -/
def CallSite.mention (site : CallSite) : Mention :=
  ⟨site.signature, site.owner, site.name, site.parameters⟩

/-- The method of a node. -/
def CallNode.mention (n : CallNode) : Mention :=
  ⟨n.signature, n.className, n.methodName, n.parameters⟩

@[simp]
theorem CallNode.mention_ofRecord (r : MethodRecord) :
    (CallNode.ofRecord r).mention = r.mention := rfl

@[simp]
theorem CallNode.mention_ofCallSite (site : CallSite) (b : Bool) :
    (CallNode.ofCallSite site b).mention = site.mention := rfl

@[simp]
theorem MethodRecord.mention_rootNode (r : MethodRecord) : r.rootNode.mention = r.mention := by
  unfold rootNode
  split <;> rfl

theorem MethodRecord.signature_rootNode (r : MethodRecord) :
    r.rootNode.signature = r.signature :=
  congrArg Mention.signature r.mention_rootNode

/-- Every mention of a method in a list of records, by its own record or by a call. -/
def mentions (records : List MethodRecord) : List Mention :=
  records.flatMap fun r => r.mention :: r.callees.map CallSite.mention

/-- The different signatures in a list of records. -/
def signatures (records : List MethodRecord) : Finset String :=
  ((mentions records).map Mention.signature).toFinset

section Mentions

variable {records : List MethodRecord} {r : MethodRecord} {site : CallSite}

/-- A record mentions its own method. -/
theorem mention_mem (hr : r ∈ records) : r.mention ∈ mentions records :=
  List.mem_flatMap.mpr ⟨r, hr, List.mem_cons_self⟩

/-- A record mentions what it calls. -/
theorem mention_callee_mem (hr : r ∈ records) (hsite : site ∈ r.callees) :
    site.mention ∈ mentions records :=
  List.mem_flatMap.mpr ⟨r, hr, List.mem_cons_of_mem _ (List.mem_map_of_mem hsite)⟩

theorem signature_mem {m : Mention} (hm : m ∈ mentions records) :
    m.signature ∈ signatures records :=
  List.mem_toFinset.mpr (List.mem_map_of_mem hm)

end Mentions

/-! ### Trees level by level -/

namespace CallTree

mutual

theorem map_preorder (i j : Nat) :
    (t : CallTree) → (t.preorder i).map (·.2) = (t.preorder j).map (·.2)
  | .node n children => by
    simp only [preorder, List.map_cons, map_preorderAll (i + 1) (j + 1) children]

theorem map_preorderAll (i j : Nat) :
    (ts : List CallTree) → (preorderAll i ts).map (·.2) = (preorderAll j ts).map (·.2)
  | [] => rfl
  | t :: rest => by
    simp only [preorderAll, List.map_append, map_preorder i j t, map_preorderAll i j rest]

end

/-- The nodes of a tree are its top and those of the trees below it. -/
theorem nodes_node (n : CallNode) (children : List CallTree) :
    (node n children).nodes = n :: children.flatMap nodes := by
  have hall : (preorderAll 0 children).map (·.2) = children.flatMap nodes := by
    induction children with
    | nil => rfl
    | cons t rest ih => rw [preorderAll, List.map_append, ih, List.flatMap_cons, nodes]
  rw [nodes, preorder, List.map_cons, map_preorderAll _ 0, hall]

theorem root_mem_nodes (t : CallTree) : t.root ∈ t.nodes := by
  obtain ⟨n, children⟩ := t
  rw [nodes_node]
  exact List.mem_cons_self

/-- The depth of several trees is that of the deepest. -/
theorem depthAll_le {ts : List CallTree} {k : Nat} :
    depthAll ts ≤ k ↔ ∀ t ∈ ts, t.depth ≤ k := by
  induction ts with
  | nil => simp [depthAll]
  | cons t rest ih => simp [depthAll, ih]

/-- A tree has at most one level more than the trees below its top. -/
theorem depth_node_le {n : CallNode} {children : List CallTree} {k : Nat} :
    (node n children).depth ≤ k + 1 ↔ ∀ t ∈ children, t.depth ≤ k := by
  rw [depth, Nat.add_comm, Nat.add_le_add_iff_right, depthAll_le]

end CallTree

/-! ### One step of growth -/

/-- The guard against ancestors lets in what is not on the path. -/
theorem admits_ancestor {path : List Frame} {s : String} :
    CycleGuard.admits .ancestor path s = true ↔ ∀ f ∈ path, f.signature ≠ s := by
  simp [CycleGuard.admits]

namespace CallGraph

variable {g : CallGraph} {guard : CycleGuard} {trail : Trail} {n c : CallNode}

theorem calls_eq (g : CallGraph) (guard : CycleGuard) (trail : Trail) (n : CallNode) :
    g.calls guard trail n =
      ((CallSite.distinct [] (g.index.callees n.signature)).filter
        fun site => guard.admits trail.path site.signature).map
          fun site => .ofCallSite site (g.isAbstract site.signature) := by
  rw [calls, CycleGuard.select_eq_filter]

/-- Below a node stands the first call of each signature that the guard admits. -/
theorem mem_calls_iff : c ∈ g.calls guard trail n ↔
    ∃ site, (g.index.callees n.signature).find? (·.signature = site.signature) = some site ∧
      guard.admits trail.path site.signature = true ∧
      c = .ofCallSite site (g.isAbstract site.signature) := by
  simp only [calls_eq, List.mem_map, List.mem_filter, CallSite.mem_distinct_iff, and_assoc,
    eq_comm (a := c)]

/-- A call below a node comes from a call site of its method that the guard lets in. -/
theorem mem_calls (h : c ∈ g.calls guard trail n) :
    ∃ site ∈ g.index.callees n.signature, guard.admits trail.path site.signature = true ∧
      c = .ofCallSite site (g.isAbstract site.signature) := by
  obtain ⟨site, hsite, hadmits, hc⟩ := mem_calls_iff.mp h
  exact ⟨site, List.mem_of_find?_eq_some hsite, hadmits, hc⟩

/-- An admitted call stands below the node, though perhaps by another call of the same method. -/
theorem exists_mem_calls {site : CallSite} (hsite : site ∈ g.index.callees n.signature)
    (hadmits : guard.admits trail.path site.signature = true) :
    ∃ c ∈ g.calls guard trail n, c.signature = site.signature := by
  obtain ⟨kept, hkept, hsig⟩ := CallSite.exists_mem_distinct hsite
  refine ⟨.ofCallSite kept (g.isAbstract kept.signature), ?_, hsig⟩
  rw [calls_eq]
  exact List.mem_map_of_mem (List.mem_filter.mpr ⟨hkept, by rw [hsig]; exact hadmits⟩)

/-- An implementation below a node is a record that dispatch resolves to. -/
theorem mem_implementations (h : c ∈ g.implementations n) :
    ∃ m ∈ g.dispatch.resolve n.className n.methodName n.parameters, c = .ofRecord m := by
  obtain ⟨m, hm, rfl⟩ := List.mem_map.mp h
  exact ⟨m, hm, rfl⟩

theorem below_of_isAbstract (h : g.isAbstract n.signature = true) :
    g.below guard trail n = g.implementations n := by
  rw [below, if_pos h]

theorem below_of_not_isAbstract (h : ¬ g.isAbstract n.signature = true) :
    g.below guard trail n = g.calls guard trail n := by
  rw [below, if_neg h]

theorem grow_succ (g : CallGraph) (guard : CycleGuard) (levels : Nat) (trail : Trail)
    (n : CallNode) :
    g.grow guard (levels + 1) trail n =
      .node n ((g.below guard (trail.push n.frame) n).map
        (g.grow guard levels (trail.push n.frame))) := rfl

/-- What grows from a node has the node at its top. -/
@[simp]
theorem root_grow (g : CallGraph) (guard : CycleGuard) (levels : Nat) (trail : Trail)
    (n : CallNode) : (g.grow guard levels trail n).root = n := by
  cases levels <;> rfl

/-- What passes from a node to the nodes directly below it holds in the whole tree. -/
theorem forall_nodes_grow (P : CallNode → Prop)
    (step : ∀ trail n c, P n → c ∈ g.below guard trail n → P c)
    (levels : Nat) (trail : Trail) (n : CallNode) (hn : P n) :
    ∀ c ∈ (g.grow guard levels trail n).nodes, P c := by
  induction levels generalizing trail n with
  | zero =>
    intro c hc
    rw [grow, CallTree.nodes_node, List.flatMap_nil, List.mem_singleton] at hc
    exact hc ▸ hn
  | succ levels ih =>
    intro c hc
    rw [grow_succ, CallTree.nodes_node, List.flatMap_map, List.mem_cons] at hc
    rcases hc with rfl | hc
    · exact hn
    · obtain ⟨child, hchild, hc⟩ := List.mem_flatMap.mp hc
      exact ih _ child (step _ n child hn hchild) c hc

/-- A node below the top that the step of growth puts there lies in the tree, with all of its own
tree. -/
theorem mem_nodes_grow_succ {levels : Nat}
    (hchild : c ∈ g.below guard (trail.push n.frame) n) {m : CallNode}
    (hm : m ∈ (g.grow guard levels (trail.push n.frame) c).nodes) :
    m ∈ (g.grow guard (levels + 1) trail n).nodes := by
  rw [grow_succ, CallTree.nodes_node, List.flatMap_map]
  exact List.mem_cons_of_mem _ (List.mem_flatMap.mpr ⟨c, hchild, hm⟩)

end CallGraph

/-! ### Trees of a list of records -/

section Records

variable {records : List MethodRecord} {guard : CycleGuard} {trail : Trail} {n c : CallNode}

/-- The call sites of a method are those of its last record. -/
theorem mem_callees_graphOf {s : String} {site : CallSite} :
    site ∈ (graphOf records).index.callees s ↔
      ∃ r, recordOf? records s = some r ∧ site ∈ r.callees := by
  rw [callees_graphOf]
  cases recordOf? records s <;> simp

theorem mem_resolve_graphOf {parent name : String} {parameters : List String} {m : MethodRecord}
    (h : m ∈ (graphOf records).dispatch.resolve parent name parameters) :
    m ∈ latest records ∧ (m.owner.superName = parent ∨ parent ∈ m.owner.interfaces) :=
  DispatchIndex.mem_of_mem_implementations (List.mem_filter.mp h).1

/-- A tree names only methods that the records mention. -/
theorem mention_mem_of_mem_below (h : c ∈ (graphOf records).below guard trail n) :
    c.mention ∈ mentions records := by
  by_cases habs : (graphOf records).isAbstract n.signature = true
  · rw [CallGraph.below_of_isAbstract habs] at h
    obtain ⟨m, hm, rfl⟩ := CallGraph.mem_implementations h
    exact mention_mem (latest_subset records (mem_resolve_graphOf hm).1)
  · rw [CallGraph.below_of_not_isAbstract habs] at h
    obtain ⟨site, hsite, -, rfl⟩ := CallGraph.mem_calls h
    obtain ⟨r, hr, hmem⟩ := mem_callees_graphOf.mp hsite
    exact mention_callee_mem (mem_of_recordOf? hr).1 hmem

namespace Assembly

variable {a : Assembly} {t : CallTree}

theorem http_assemble (a : Assembly) (records : List MethodRecord) :
    (a.assemble records).http =
      ((latest records).filter (·.entryKind = .http)).map (a.tree (graphOf records)) := rfl

theorem rpc_assemble (a : Assembly) (records : List MethodRecord) :
    (a.assemble records).rpc =
      ((latest records).filter (·.entryKind = .rpc)).map (a.tree (graphOf records)) := rfl

/-- Every tree of a forest is the tree of one of the latest records. -/
theorem exists_record_of_mem (h : t ∈ (a.assemble records).http ++ (a.assemble records).rpc) :
    ∃ r ∈ latest records, t = a.tree (graphOf records) r := by
  rw [http_assemble, rpc_assemble, ← List.map_append] at h
  obtain ⟨r, hr, rfl⟩ := List.mem_map.mp h
  rcases List.mem_append.mp hr with hr | hr <;> exact ⟨r, (List.mem_filter.mp hr).1, rfl⟩

@[simp]
theorem root_tree (a : Assembly) (g : CallGraph) (r : MethodRecord) :
    (a.tree g r).root = r.rootNode :=
  CallGraph.root_grow ..

end Assembly

end Records

/-! ### An example -/

/-- An interface that is implemented by a class which calls the interface again. The class stands
twice on the path that starts from it. -/
def decoratedService : List MethodRecord :=
  [{ signature := "a/Web#go()", name := "go", descriptor := "()V", parameters := [],
     owner := { name := "a/Web" }, entryKind := .http,
     callees := [⟨"a/Logged#run()", "a/Logged", "run", "()V", []⟩] },
   { signature := "a/Service#run()", name := "run", descriptor := "()V", parameters := [],
     owner := { name := "a/Service" }, isAbstract := true },
   { signature := "a/Logged#run()", name := "run", descriptor := "()V", parameters := [],
     owner := { name := "a/Logged", interfaces := ["a/Service"] },
     callees := [⟨"a/Service#run()", "a/Service", "run", "()V", []⟩,
       ⟨"a/Store#all()", "a/Store", "all", "()V", []⟩] }]

end CallForest
