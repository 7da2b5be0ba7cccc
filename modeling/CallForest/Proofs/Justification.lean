import CallForest.Proofs.Branch

/-!
# Every node has its reason

A tree shows nothing that the records do not say. Whatever stands under a node was put there for one
of two reasons: the node is abstract and some record tells of a method that implements it, or the
node is not abstract and its own record calls the method. A node that comes from a record is marked
abstract by that record, and a node that comes from a call is marked by looking its signature up.
Both are marked alike, because among the latest records a signature has one record only.

The guard is asked about calls only, and what it is shown is the path from the root to the node that
calls.

## Main definitions

* `Justified` — what is shown at a place of a tree is what the records say.

## Main results

* `CallGraph.justified_implementation`, `CallGraph.justified_call` — the two reasons, for one step
  of growth;
* `CallGraph.nodup_signatures_calls` — no call is shown twice under a node;
* `Assembly.justified_of_branch`, `Assembly.exists_child_of_callee` — every place of an assembled
  tree;
* `nodes_justified` — every place and every root, for all forests.
-/

namespace CallForest

/-- What a tree shows at a place is what the last records of the signatures say, where the nodes
`above` lead down to the place from the root. -/
structure Justified (records : List MethodRecord) (guard : CycleGuard) (above : List CallNode)
    (sub : CallTree) : Prop where
  /-- The node is marked abstract exactly when its method is. -/
  mark : sub.root.isAbstract = true ↔
    ∃ r, recordOf? records sub.root.signature = some r ∧ r.isAbstract = true
  /-- Under an abstract node there are methods of the same name and parameter types, in classes that
  name the class of the node as their superclass or as an interface. -/
  implemented : sub.root.isAbstract = true → ∀ child ∈ sub.children,
    ∃ r, recordOf? records child.root.signature = some r ∧ child.root.mention = r.mention ∧
      r.name = sub.root.methodName ∧ r.parameters = sub.root.parameters ∧
      (r.owner.superName = sub.root.className ∨ sub.root.className ∈ r.owner.interfaces)
  /-- Under any other node there are methods that its record calls. Each is named as in the first
  call of its signature, and the guard admits it on the path that leads to the node. -/
  called : sub.root.isAbstract = false → ∀ child ∈ sub.children,
    ∃ r site, recordOf? records sub.root.signature = some r ∧
      r.callees.find? (·.signature = child.root.signature) = some site ∧
      child.root.mention = site.mention ∧
      guard.admits ((above ++ [sub.root]).map CallNode.frame) child.root.signature = true
  /-- No call is shown twice. -/
  distinct : sub.root.isAbstract = false → (sub.children.map (·.root.signature)).Nodup
  /-- Below the root there are no request paths and no verbs. -/
  unmapped : above ≠ [] → sub.root.mappingPath = none ∧ sub.root.requestMethods = []

/-! ### One step of growth -/

namespace CallGraph

variable {records : List MethodRecord} {g : CallGraph} {guard : CycleGuard} {trail : Trail}
  {n c : CallNode}

/-- An implementation below a node is recorded in a class that extends or implements that of the
node. -/
theorem justified_implementation (h : c ∈ (graphOf records).implementations n) :
    ∃ r, recordOf? records c.signature = some r ∧ c.mention = r.mention ∧
      r.name = n.methodName ∧ r.parameters = n.parameters ∧
      (r.owner.superName = n.className ∨ n.className ∈ r.owner.interfaces) := by
  obtain ⟨r, hr, rfl⟩ := mem_implementations h
  obtain ⟨hlatest, hparent⟩ := mem_resolve_graphOf hr
  obtain ⟨hname, hparameters⟩ : r.name = n.methodName ∧ r.parameters = n.parameters := by
    simpa using (List.mem_filter.mp hr).2
  exact ⟨r, mem_latest.mp hlatest, CallNode.mention_ofRecord r, hname, hparameters, hparent⟩

/-- A call below a node comes from the first call site with its signature, and the guard lets it
in. -/
theorem justified_call (h : c ∈ (graphOf records).calls guard trail n) :
    ∃ r site, recordOf? records n.signature = some r ∧
      r.callees.find? (·.signature = c.signature) = some site ∧ c.mention = site.mention ∧
      guard.admits trail.path c.signature = true := by
  obtain ⟨site, hsite, hadmits, rfl⟩ := mem_calls_iff.mp h
  rw [callees_graphOf] at hsite
  cases hr : recordOf? records n.signature with
  | none =>
    rw [hr] at hsite
    cases hsite
  | some r =>
    rw [hr] at hsite
    exact ⟨r, site, rfl, hsite, CallNode.mention_ofCallSite site _, hadmits⟩

/-- No call is shown twice, whatever the guard refuses. -/
theorem nodup_signatures_calls (g : CallGraph) (guard : CycleGuard) (trail : Trail) (n : CallNode) :
    ((g.calls guard trail n).map CallNode.signature).Nodup := by
  rw [calls_eq, List.map_map]
  have hsublist : (((CallSite.distinct [] (g.index.callees n.signature)).filter
      fun site => guard.admits trail.path site.signature).map CallSite.signature).Sublist
        ((CallSite.distinct [] (g.index.callees n.signature)).map CallSite.signature) :=
    List.filter_sublist.map _
  exact (CallSite.nodup_map_distinct _).sublist hsublist

/-- What grows has no request path and no verbs, since neither records nor calls give it any. -/
theorem unmapped_of_mem_below (h : c ∈ g.below guard trail n) :
    c.mappingPath = none ∧ c.requestMethods = [] := by
  unfold below at h
  split at h
  · obtain ⟨r, -, rfl⟩ := mem_implementations h
    exact ⟨rfl, rfl⟩
  · obtain ⟨site, -, -, rfl⟩ := mem_calls h
    exact ⟨rfl, rfl⟩

end CallGraph

/-! ### Assembled trees -/

namespace Assembly

variable {a : Assembly} {records : List MethodRecord} {t sub : CallTree} {above : List CallNode}

/-- Every branch of an assembled tree is justified by the records. -/
theorem justified_of_branch (ht : t ∈ (a.assemble records).http ++ (a.assemble records).rpc)
    (hbranch : t.Branch above sub) : Justified records a.guard above sub := by
  have hmark := isAbstract_eq ht _ hbranch.root_mem_nodes
  refine ⟨?_, ?_, ?_, ?_, ?_⟩
  · rw [hmark]
    exact isAbstract_graphOf
  · intro habs child hchild
    obtain ⟨trail, -, hbelow⟩ := child_mem_below ht hbranch hchild
    rw [CallGraph.below_of_isAbstract (hmark ▸ habs)] at hbelow
    exact CallGraph.justified_implementation hbelow
  · intro habs child hchild
    obtain ⟨trail, hpath, hbelow⟩ := child_mem_below ht hbranch hchild
    rw [hmark] at habs
    rw [CallGraph.below_of_not_isAbstract (ne_true_of_eq_false habs)] at hbelow
    have hcall := CallGraph.justified_call hbelow
    rwa [hpath] at hcall
  · -- Either the calls are there, without repetition, or the depth limit has cut all of them off.
    intro habs
    obtain ⟨trail, -, hchildren⟩ := exists_children_eq ht hbranch
    rw [hmark] at habs
    rw [CallGraph.below_of_not_isAbstract (ne_true_of_eq_false habs)] at hchildren
    have hnodup : ((sub.children.map CallTree.root).map CallNode.signature).Nodup := by
      rw [hchildren]
      split
      · exact CallGraph.nodup_signatures_calls ..
      · exact List.nodup_nil
    rwa [List.map_map] at hnodup
  · intro habove
    obtain ⟨front, parent, -, hparent, hsub⟩ := hbranch.exists_parent habove
    obtain ⟨trail, -, hbelow⟩ := child_mem_below ht hparent hsub
    exact CallGraph.unmapped_of_mem_below hbelow

/-- Above the depth limit, every call of the record that the guard admits is shown. -/
theorem exists_child_of_callee (ht : t ∈ (a.assemble records).http ++ (a.assemble records).rpc)
    (hbranch : t.Branch above sub) (hdepth : above.length + 1 < a.maxDepth)
    (habs : sub.root.isAbstract = false) {r : MethodRecord} {site : CallSite}
    (hr : recordOf? records sub.root.signature = some r) (hsite : site ∈ r.callees)
    (hadmits : a.guard.admits ((above ++ [sub.root]).map CallNode.frame) site.signature = true) :
    ∃ child ∈ sub.children, child.root.signature = site.signature := by
  obtain ⟨trail, hpath, hchildren⟩ := exists_children_eq ht hbranch
  rw [isAbstract_eq ht _ hbranch.root_mem_nodes] at habs
  rw [if_pos hdepth, CallGraph.below_of_not_isAbstract (ne_true_of_eq_false habs)] at hchildren
  rw [← hpath] at hadmits
  obtain ⟨c, hc, hsig⟩ :=
    CallGraph.exists_mem_calls (mem_callees_graphOf.mpr ⟨r, hr, hsite⟩) hadmits
  rw [← hchildren] at hc
  obtain ⟨child, hchild, rfl⟩ := List.mem_map.mp hc
  exact ⟨child, hchild, hsig⟩

/-- The trees of one kind grow from the records of that kind, in order. -/
theorem forall₂_treesOf (a : Assembly) (g : CallGraph) (kind : EntryKind)
    (known : List MethodRecord) :
    List.Forall₂ (fun r t => r.entryKind = kind ∧ t.root = r.rootNode)
      (known.filter (·.entryKind = kind)) (a.treesOf g kind known) := by
  rw [treesOf, List.forall₂_map_right_iff, List.forall₂_same]
  intro r hr
  exact ⟨of_decide_eq_true (List.mem_filter.mp hr).2, root_tree ..⟩

end Assembly

/-- In every assembled forest, every place of every tree is justified by the last records of the
signatures, and above the depth limit no call that the guard admits is missing. The roots are the
entry points among these records: a web request has its path and its verbs, and a method of a remote
service has neither. -/
theorem nodes_justified (a : Assembly) (records : List MethodRecord) :
    let forest := a.assemble records
    (∀ t ∈ forest.http ++ forest.rpc, ∀ above sub, t.Branch above sub →
      Justified records a.guard above sub ∧
      (above.length + 1 < a.maxDepth → sub.root.isAbstract = false →
        ∀ r, recordOf? records sub.root.signature = some r → ∀ site ∈ r.callees,
          a.guard.admits ((above ++ [sub.root]).map CallNode.frame) site.signature = true →
          ∃ child ∈ sub.children, child.root.signature = site.signature)) ∧
    List.Forall₂ (fun r t => t.root.mention = r.mention ∧
        t.root.mappingPath = some (MappingPath.join r.owner.basePath r.mappingPath) ∧
        t.root.requestMethods = r.requestMethods)
      ((latest records).filter (·.entryKind = .http)) forest.http ∧
    List.Forall₂ (fun r t => t.root.mention = r.mention ∧ t.root.mappingPath = none ∧
        t.root.requestMethods = [])
      ((latest records).filter (·.entryKind = .rpc)) forest.rpc := by
  intro forest
  refine ⟨?_, ?_, ?_⟩
  · intro t ht above sub hbranch
    refine ⟨Assembly.justified_of_branch ht hbranch, ?_⟩
    intro hdepth habs r hr site hsite hadmits
    exact Assembly.exists_child_of_callee ht hbranch hdepth habs hr hsite hadmits
  · refine (Assembly.forall₂_treesOf a (graphOf records) .http (latest records)).imp ?_
    rintro r t ⟨hkind, hroot⟩
    rw [hroot, r.mention_rootNode, MethodRecord.rootNode, if_pos hkind]
    exact ⟨rfl, rfl, rfl⟩
  · refine (Assembly.forall₂_treesOf a (graphOf records) .rpc (latest records)).imp ?_
    rintro r t ⟨hkind, hroot⟩
    have hother : r.entryKind ≠ .http := by
      rw [hkind]
      decide
    rw [hroot, r.mention_rootNode, MethodRecord.rootNode, if_neg hother]
    exact ⟨rfl, rfl, rfl⟩

theorem nodes_justified_decoratedService :
    ∃ t ∈ (Assembly.assemble ⟨.serialized, 8⟩ decoratedService).http, ∃ child ∈ t.children,
      t.Branch [t.root] child ∧ child.root.signature = "a/Logged#run()" ∧
      child.children.map (·.root.signature) = ["a/Service#run()", "a/Store#all()"] ∧
      Justified decoratedService .serialized [t.root] child := by
  have hfound : (Assembly.assemble ⟨.serialized, 8⟩ decoratedService).http.map
      (fun t => t.children.map fun c => (c.root.signature, c.children.map (·.root.signature))) =
        [[("a/Logged#run()", ["a/Service#run()", "a/Store#all()"])]] := by
    decide
  obtain ⟨t, ht, hchildren⟩ := List.mem_map.mp (hfound ▸ List.mem_singleton_self _)
  obtain ⟨child, hchild, hpair⟩ := List.mem_map.mp (hchildren ▸ List.mem_singleton_self _)
  obtain ⟨hsig, hbelow⟩ := Prod.mk.inj hpair
  have hbranch : t.Branch [t.root] child := by
    obtain ⟨n, children⟩ := t
    exact .down hchild (.here child)
  exact ⟨t, ht, child, hchild, hbranch, hsig, hbelow,
    ((nodes_justified ⟨.serialized, 8⟩ decoratedService).1 t (List.mem_append_left _ ht) _ _
      hbranch).1⟩

end CallForest
