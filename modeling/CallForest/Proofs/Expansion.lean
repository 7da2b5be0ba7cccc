import CallForest.Assembly

/-!
# Trees expanded along a path

A tree can be grown with one path that is shared by all its nodes. The frame of a node is put at the
end of the path before the nodes below it are expanded, and taken away again afterwards. A node is
not expanded if the path is so long that there would be too many levels.

Growth carries the number of levels that are left and hands a trail down. Both come to the same: the
levels that are left are those that the path does not take up, and after all that is put at its end
and taken away the path is what it was.

## Main definitions

* `CallGraph.belowOn` — the nodes below a node, as the path to it says;
* `CallGraph.Expands` — nodes are expanded one after the other, along a path that changes.

## Main results

* `CallGraph.expands_iff` — expansion gives the trees that grow, and leaves the path as it was;
* `Assembly.expands_iff_tree` — the same for the tree of an entry point, from an empty path.
-/

namespace CallForest

namespace CallGraph

/-- The nodes below a node, where the path leads from the root to the node itself. -/
def belowOn (g : CallGraph) (guard : CycleGuard) (path : List Frame) (n : CallNode) :
    List CallNode :=
  if g.isAbstract n.signature then g.implementations n
  else
    ((CallSite.distinct [] (g.index.callees n.signature)).filter
      fun site => guard.admits path site.signature).map
        fun site => CallNode.ofCallSite site (g.isAbstract site.signature)

/-- Nodes are expanded from the left to the right. Each comes out as a tree, and the path from the
root to their parent as another path. -/
inductive Expands (g : CallGraph) (guard : CycleGuard) (maxDepth : Nat) :
    List Frame → List CallNode → List CallTree → List Frame → Prop
  | done (path : List Frame) : Expands g guard maxDepth path [] [] path
  /-- There is no level left below the node. -/
  | leaf {path path' : List Frame} {n : CallNode} {rest : List CallNode} {trees : List CallTree}
      (full : maxDepth ≤ path.length + 1)
      (others : Expands g guard maxDepth path rest trees path') :
      Expands g guard maxDepth path (n :: rest) (.node n [] :: trees) path'
  /-- The node is on the path while the nodes below it are expanded. -/
  | node {path inner path' : List Frame} {n : CallNode} {rest : List CallNode}
      {children trees : List CallTree} (room : path.length + 1 < maxDepth)
      (below : Expands g guard maxDepth (path ++ [n.frame])
        (g.belowOn guard (path ++ [n.frame]) n) children inner)
      (others : Expands g guard maxDepth inner.dropLast rest trees path') :
      Expands g guard maxDepth path (n :: rest) (.node n children :: trees) path'

variable {g : CallGraph} {guard : CycleGuard} {maxDepth : Nat} {path path' : List Frame}
  {nodes : List CallNode} {trees : List CallTree} {trail : Trail}

/-- Of the trail, one step of growth reads the path alone. -/
theorem below_eq_belowOn (g : CallGraph) (guard : CycleGuard) (trail : Trail) (n : CallNode) :
    g.below guard trail n = g.belowOn guard trail.path n := by
  rw [below, belowOn, calls, CycleGuard.select_eq_filter]

/-- A node with no level left below it. -/
theorem grow_of_full (hfull : maxDepth ≤ path.length + 1) (n : CallNode) :
    g.grow guard (maxDepth - (path.length + 1)) trail n = .node n [] := by
  rw [Nat.sub_eq_zero_of_le hfull, grow]

/-- A node with a level left below it, where the levels are counted by the length of the path. -/
theorem grow_of_room (hroom : path.length + 1 < maxDepth) (hpath : trail.path = path)
    (n : CallNode) : g.grow guard (maxDepth - (path.length + 1)) trail n =
      .node n ((g.belowOn guard (path ++ [n.frame]) n).map
        (g.grow guard (maxDepth - ((path ++ [n.frame]).length + 1)) (trail.push n.frame))) := by
  have hlevels : maxDepth - (path.length + 1) =
      maxDepth - ((path ++ [n.frame]).length + 1) + 1 := by
    rw [List.length_append, List.length_singleton]
    omega
  rw [hlevels, grow, below_eq_belowOn, Trail.path_push, hpath]

/-- What is put on the path is taken away again, and the trees are those that grow. -/
theorem Expands.eq (h : g.Expands guard maxDepth path nodes trees path')
    (hpath : trail.path = path) :
    path' = path ∧ trees = nodes.map (g.grow guard (maxDepth - (path.length + 1)) trail) := by
  induction h generalizing trail with
  | done => exact ⟨rfl, rfl⟩
  | leaf hfull _ ih =>
    obtain ⟨rfl, rfl⟩ := ih hpath
    rw [List.map_cons, grow_of_full hfull]
    exact ⟨rfl, rfl⟩
  | @node path inner path' n rest children trees hroom _ _ ihbelow ihothers =>
    have hpush : (trail.push n.frame).path = path ++ [n.frame] := by
      rw [Trail.path_push, hpath]
    obtain ⟨rfl, rfl⟩ := ihbelow hpush
    rw [List.dropLast_concat] at ihothers
    obtain ⟨rfl, rfl⟩ := ihothers hpath
    rw [List.map_cons, grow_of_room hroom hpath]
    exact ⟨rfl, rfl⟩

/-- Expansion always comes to an end, with the trees that grow. -/
theorem expands_grow (nodes : List CallNode) (hpath : trail.path = path) :
    g.Expands guard maxDepth path nodes
      (nodes.map (g.grow guard (maxDepth - (path.length + 1)) trail)) path := by
  -- Levels are used up from parent to child, and nodes from neighbour to neighbour.
  induction hlevels : maxDepth - (path.length + 1) generalizing path trail nodes with
  | zero =>
    induction nodes with
    | nil => exact .done path
    | cons n rest ihrest => exact .leaf (Nat.le_of_sub_eq_zero hlevels) ihrest
  | succ levels ih =>
    induction nodes with
    | nil => exact .done path
    | cons n rest ihrest =>
      have hpush : (trail.push n.frame).path = path ++ [n.frame] := by
        rw [Trail.path_push, hpath]
      have hless : maxDepth - ((path ++ [n.frame]).length + 1) = levels := by
        rw [List.length_append, List.length_singleton]
        omega
      rw [List.map_cons, grow, below_eq_belowOn, hpush]
      refine .node (by omega) (ih _ hpush hless) ?_
      rwa [List.dropLast_concat]

/-- Nodes can be expanded in one way only: into the trees that grow with the levels that the path
leaves, and so that the path is the same afterwards. -/
theorem expands_iff (hpath : trail.path = path) :
    g.Expands guard maxDepth path nodes trees path' ↔
      path' = path ∧ trees = nodes.map (g.grow guard (maxDepth - (path.length + 1)) trail) := by
  constructor
  · intro h
    exact h.eq hpath
  · rintro ⟨rfl, rfl⟩
    exact expands_grow nodes hpath

end CallGraph

/-- The tree of an entry point is its root expanded along an empty path. -/
theorem Assembly.expands_iff_tree (a : Assembly) (g : CallGraph) (r : MethodRecord) (t : CallTree)
    (path : List Frame) : g.Expands a.guard (max 1 a.maxDepth) [] [r.rootNode] [t] path ↔
      path = [] ∧ t = a.tree g r := by
  have hempty : Trail.empty.path = [] := rfl
  rw [CallGraph.expands_iff hempty, List.map_singleton, List.singleton_inj, tree]
  rfl

end CallForest
