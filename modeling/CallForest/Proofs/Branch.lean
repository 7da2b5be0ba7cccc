import CallForest.Proofs.Growth

/-!
# Branches of a tree

A branch leads from the root of a tree down to one of its subtrees. While a tree grows, the trail
at a node is the branch that leads to it. So whatever is found under a node of a finished tree was
put there by one step of growth that saw exactly the nodes above, and what a step can do says what
can stand in a tree.

## Main definitions

* `CallTree.Branch` — the nodes that lead down to a subtree.

## Main results

* `CallGraph.branch_grow` — every subtree grew at the end of its branch;
* `Assembly.exists_children_eq` — what stands under a node was put there by one step of growth;
* `Assembly.isAbstract_eq` — a node is marked abstract exactly when its signature is that of an
  abstract method.
-/

namespace CallForest

namespace CallTree

/-- The subtree `sub` stands in the tree under the nodes `above`, which lead down to it from the
root. -/
inductive Branch : CallTree → List CallNode → CallTree → Prop
  | here (t : CallTree) : Branch t [] t
  | down {n : CallNode} {children : List CallTree} {child sub : CallTree} {above : List CallNode}
      (hchild : child ∈ children) (hbranch : Branch child above sub) :
      Branch (.node n children) (n :: above) sub

/-- The node that a branch leads to is one of the tree. -/
theorem Branch.root_mem_nodes {t sub : CallTree} {above : List CallNode}
    (h : t.Branch above sub) : sub.root ∈ t.nodes := by
  induction h with
  | here t => exact t.root_mem_nodes
  | down hchild _ ih =>
    rw [nodes_node]
    exact List.mem_cons_of_mem _ (List.mem_flatMap.mpr ⟨_, hchild, ih⟩)

/-- The last of the nodes that lead down to a subtree is the one it stands under. -/
theorem Branch.exists_parent {t sub : CallTree} {above : List CallNode} (h : t.Branch above sub)
    (habove : above ≠ []) :
    ∃ front parent, above = front ++ [parent.root] ∧ t.Branch front parent ∧
      sub ∈ parent.children := by
  induction h with
  | here t => exact absurd rfl habove
  | @down n children child sub above hchild hbranch ih =>
    by_cases hlast : above = []
    · subst hlast
      cases hbranch
      exact ⟨[], .node n children, rfl, .here _, hchild⟩
    · obtain ⟨front, parent, rfl, hfront, hsub⟩ := ih hlast
      exact ⟨n :: front, parent, rfl, .down hchild hfront, hsub⟩

end CallTree

/-! ### Branches of growing trees -/

namespace CallGraph

variable {g : CallGraph} {guard : CycleGuard} {trail : Trail} {n : CallNode} {levels : Nat}
  {child sub : CallTree} {above : List CallNode}

/-- A subtree directly under the top grew from a node that one step of growth put there. -/
theorem mem_children_grow (h : child ∈ (g.grow guard levels trail n).children) :
    ∃ left, levels = left + 1 ∧ child.root ∈ g.below guard (trail.push n.frame) n ∧
      child = g.grow guard left (trail.push n.frame) child.root := by
  cases levels with
  | zero => cases h
  | succ left =>
    rw [grow_succ, CallTree.children] at h
    obtain ⟨c, hc, rfl⟩ := List.mem_map.mp h
    rw [root_grow]
    exact ⟨left, rfl, hc, rfl⟩

/-- One step of growth gives the children of the top, if there is a level left for them. -/
theorem map_root_children_grow (g : CallGraph) (guard : CycleGuard) (levels : Nat) (trail : Trail)
    (n : CallNode) : (g.grow guard levels trail n).children.map CallTree.root =
      if 0 < levels then g.below guard (trail.push n.frame) n else [] := by
  cases levels with
  | zero => rfl
  | succ left =>
    rw [grow_succ, if_pos (Nat.zero_lt_succ left), CallTree.children, List.map_map]
    exact (List.map_congr_left fun c _ => root_grow ..).trans (List.map_id _)

/-- Every node that one step of growth puts below another one is there in the tree. -/
theorem exists_child_of_mem_below {c : CallNode}
    (hc : c ∈ g.below guard (trail.push n.frame) n) :
    ∃ child ∈ (g.grow guard (levels + 1) trail n).children, child.root = c := by
  refine ⟨g.grow guard levels (trail.push n.frame) c, ?_, root_grow ..⟩
  rw [grow_succ]
  exact List.mem_map_of_mem hc

/-- Every subtree grew at the end of the branch that leads to it, with the levels that the branch
had left. -/
theorem branch_grow (h : (g.grow guard levels trail n).Branch above sub) :
    ∃ left trail', levels = left + above.length ∧
      trail'.path = trail.path ++ above.map CallNode.frame ∧
      sub = g.grow guard left trail' sub.root := by
  induction above generalizing levels trail n with
  | nil =>
    have hsub : sub = g.grow guard levels trail n := by
      generalize g.grow guard levels trail n = t at h
      cases h
      rfl
    refine ⟨levels, trail, rfl, (List.append_nil _).symm, ?_⟩
    rw [hsub, root_grow]
  | cons top above ih =>
    generalize ht : g.grow guard levels trail n = t at h
    cases h with
    | @down _ children child _ _ hchild hbranch =>
      have htop : n = top := by
        have hroot := root_grow g guard levels trail n
        rw [ht] at hroot
        exact hroot.symm
      subst htop
      have hmem : child ∈ (g.grow guard levels trail n).children := by
        rw [ht]
        exact hchild
      obtain ⟨left, rfl, -, hgrown⟩ := mem_children_grow hmem
      rw [hgrown] at hbranch
      obtain ⟨left, trail', rfl, hpath, hsub⟩ := ih hbranch
      refine ⟨left, trail', ?_, ?_, hsub⟩
      · rw [List.length_cons, Nat.add_assoc]
      · rw [hpath, Trail.path_push, List.map_cons, List.append_assoc, List.singleton_append]

end CallGraph

/-! ### Branches of assembled trees -/

namespace Assembly

variable {a : Assembly} {records : List MethodRecord} {t sub child : CallTree}
  {above : List CallNode}

/-- A node that the depth limit does not cut off has the children that one step of growth gives it,
at the end of the path that leads to the node; any other has none. -/
theorem exists_children_eq (ht : t ∈ (a.assemble records).http ++ (a.assemble records).rpc)
    (hbranch : t.Branch above sub) :
    ∃ trail : Trail, trail.path = (above ++ [sub.root]).map CallNode.frame ∧
      sub.children.map CallTree.root =
        if above.length + 1 < a.maxDepth then (graphOf records).below a.guard trail sub.root
        else [] := by
  obtain ⟨r, -, rfl⟩ := exists_record_of_mem ht
  obtain ⟨left, trail, hlevels, hpath, hsub⟩ := CallGraph.branch_grow hbranch
  refine ⟨trail.push sub.root.frame, ?_, ?_⟩
  · rw [Trail.path_push, hpath, List.map_append]
    rfl
  · have hleft : 0 < left ↔ above.length + 1 < a.maxDepth := by omega
    have hchildren := CallGraph.map_root_children_grow (graphOf records) a.guard left trail sub.root
    rw [← hsub] at hchildren
    simp only [hchildren, hleft]

/-- What stands under a node of an assembled tree was put there by one step of growth, at the end
of the path that leads to the node. -/
theorem child_mem_below (ht : t ∈ (a.assemble records).http ++ (a.assemble records).rpc)
    (hbranch : t.Branch above sub) (hchild : child ∈ sub.children) :
    ∃ trail : Trail, trail.path = (above ++ [sub.root]).map CallNode.frame ∧
      child.root ∈ (graphOf records).below a.guard trail sub.root := by
  obtain ⟨trail, hpath, hchildren⟩ := exists_children_eq ht hbranch
  refine ⟨trail, hpath, ?_⟩
  have hmem : child.root ∈ sub.children.map CallTree.root := List.mem_map_of_mem hchild
  rw [hchildren] at hmem
  split at hmem
  · exact hmem
  · cases hmem

/-- What the graph knows of a method is what its last record says. -/
theorem isAbstract_of_mem_latest {r : MethodRecord} (hr : r ∈ latest records) :
    (graphOf records).isAbstract r.signature = r.isAbstract := by
  rw [Bool.eq_iff_iff, isAbstract_graphOf, mem_latest.mp hr]
  constructor
  · rintro ⟨q, hq, habs⟩
    rwa [Option.some_inj.mp hq]
  · intro habs
    exact ⟨r, rfl, habs⟩

/-- A node is marked abstract exactly when its signature is that of an abstract method. -/
theorem isAbstract_eq (ht : t ∈ (a.assemble records).http ++ (a.assemble records).rpc) :
    ∀ n ∈ t.nodes, n.isAbstract = (graphOf records).isAbstract n.signature := by
  obtain ⟨r, hr, rfl⟩ := exists_record_of_mem ht
  apply CallGraph.forall_nodes_grow
    (fun n => n.isAbstract = (graphOf records).isAbstract n.signature)
  · intro trail n c _ hc
    by_cases habs : (graphOf records).isAbstract n.signature = true
    · rw [CallGraph.below_of_isAbstract habs] at hc
      obtain ⟨m, hm, rfl⟩ := CallGraph.mem_implementations hc
      exact (isAbstract_of_mem_latest (mem_resolve_graphOf hm).1).symm
    · rw [CallGraph.below_of_not_isAbstract habs] at hc
      obtain ⟨site, -, -, rfl⟩ := CallGraph.mem_calls hc
      rfl
  · rw [r.signature_rootNode, isAbstract_of_mem_latest hr, MethodRecord.rootNode]
    split <;> rfl

end Assembly

end CallForest
