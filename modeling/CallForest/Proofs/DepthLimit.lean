import CallForest.Proofs.Growth

/-!
# The depth limit cuts and does nothing else

A tree that grows under a depth limit is the tree that grows under any higher limit, with the nodes
on the levels from the limit on taken away. What is put under a node depends on the path that leads
to it and not on the levels that are left, so two trees that grow from the same root under different
limits agree as far as the lower limit goes. This holds for either guard and for all records, also
when methods call each other in circles or classes inherit from themselves.

## Main definitions

* `CallTree.cut`, `EntryForest.cut` — what is left without the nodes on the deeper levels.

## Main results

* `CallTree.preorderAll_cutAll` — exactly the nodes on the levels before the limit are left;
* `CallGraph.cut_grow` — a growing tree under a lower limit;
* `CallGraph.depth_grow_le_levels` — its depth;
* `assemble_eq_cut` — the forest as a whole.
-/

namespace CallForest

/-! ### Cutting off levels -/

namespace CallTree

mutual

/-- What is left of a tree whose top stands at `level`, without the nodes on the levels from `limit`
on. -/
def cut (limit level : Nat) : CallTree → Option CallTree
  | .node n children =>
    if level < limit then some (.node n (cutAll limit (level + 1) children)) else none

/-- What is left of several trees whose tops stand at `level`. -/
def cutAll (limit level : Nat) : List CallTree → List CallTree
  | [] => []
  | t :: rest => (cut limit level t).toList ++ cutAll limit level rest

end

variable {limit level : Nat}

theorem cutAll_eq_filterMap (ts : List CallTree) :
    cutAll limit level ts = ts.filterMap (cut limit level) := by
  induction ts with
  | nil => rfl
  | cons t rest ih =>
    rw [cutAll, ih, List.filterMap_cons]
    cases cut limit level t <;> rfl

/-- Nothing is left from the limit on. -/
theorem cutAll_eq_nil (h : limit ≤ level) (ts : List CallTree) : cutAll limit level ts = [] := by
  rw [cutAll_eq_filterMap, List.filterMap_eq_nil_iff]
  intro t _
  obtain ⟨n, children⟩ := t
  rw [cut, if_neg (Nat.not_lt.mpr h)]

mutual

/-- What is cut off is what stands too deep, and the order of the rest is kept. -/
theorem preorder_cut (limit level : Nat) : (t : CallTree) →
    preorderAll level (cut limit level t).toList =
      (t.preorder level).filter fun entry => entry.1 < limit
  | .node n children => by
    have hbelow := preorderAll_cutAll limit (level + 1) children
    rw [cut, preorder, List.filter_cons]
    by_cases hlevel : level < limit
    · simp [hlevel, preorderAll, preorder, hbelow]
    · rw [cutAll_eq_nil (by omega)] at hbelow
      simp [hlevel, preorderAll, ← hbelow]

/-- Exactly the nodes on the levels before the limit are left, in their order. -/
theorem preorderAll_cutAll (limit level : Nat) : (ts : List CallTree) →
    preorderAll level (cutAll limit level ts) =
      (preorderAll level ts).filter fun entry => entry.1 < limit
  | [] => rfl
  | t :: rest => by
    have hfirst := preorder_cut limit level t
    have hrest := preorderAll_cutAll limit level rest
    rw [cutAll, preorderAll, List.filter_append, ← hfirst, ← hrest]
    cases cut limit level t <;> simp [preorderAll]

end

end CallTree

/-- What is left of a forest without the nodes on the levels from `limit` on, where the roots stand
at level zero. -/
def EntryForest.cut (limit : Nat) (f : EntryForest) : EntryForest where
  http := CallTree.cutAll limit 0 f.http
  rpc := CallTree.cutAll limit 0 f.rpc

/-! ### Growing trees -/

namespace CallGraph

variable (g : CallGraph) (guard : CycleGuard)

/-- With fewer levels left, a tree grows as it would with more, and stops earlier. -/
theorem cut_grow {left levels : Nat} (hle : left ≤ levels) (level : Nat) (trail : Trail)
    (n : CallNode) :
    (g.grow guard levels trail n).cut (level + left + 1) level =
      some (g.grow guard left trail n) := by
  -- The trail is the same on both sides at every step, since it records what stands above.
  induction left generalizing levels level trail n with
  | zero =>
    obtain ⟨children, hgrown⟩ : ∃ children, g.grow guard levels trail n = .node n children := by
      cases levels with
      | zero => exact ⟨[], rfl⟩
      | succ levels => exact ⟨_, g.grow_succ guard levels trail n⟩
    rw [hgrown, CallTree.cut, if_pos (by omega), CallTree.cutAll_eq_nil (by omega)]
    rfl
  | succ left ih =>
    obtain ⟨levels, rfl⟩ := Nat.exists_eq_succ_of_ne_zero (by omega : levels ≠ 0)
    rw [grow_succ, grow_succ, CallTree.cut, if_pos (by omega), CallTree.cutAll_eq_filterMap,
      List.filterMap_map]
    congr 2
    rw [← List.filterMap_eq_map]
    apply List.filterMap_congr
    intro c _
    have hbelow := ih (Nat.le_of_succ_le_succ hle) (level + 1) (trail.push n.frame) c
    rwa [show level + 1 + left + 1 = level + (left + 1) + 1 by omega] at hbelow

/-- A tree has the levels below its top that it was given, or fewer. -/
theorem depth_grow_le_levels (levels : Nat) (trail : Trail) (n : CallNode) :
    (g.grow guard levels trail n).depth ≤ levels + 1 := by
  induction levels generalizing trail n with
  | zero =>
    rw [grow, CallTree.depth_node_le]
    simp
  | succ levels ih =>
    rw [grow_succ, CallTree.depth_node_le]
    intro t ht
    obtain ⟨c, -, rfl⟩ := List.mem_map.mp ht
    exact ih (trail.push n.frame) c

end CallGraph

/-! ### Forests -/

namespace Assembly

variable {guard : CycleGuard} {d d' : Nat}

/-- A lower limit cuts the tree of an entry point. -/
theorem cut_tree (hle : max 1 d ≤ max 1 d') (g : CallGraph) (r : MethodRecord) :
    (Assembly.tree ⟨guard, d'⟩ g r).cut (max 1 d) 0 = some (Assembly.tree ⟨guard, d⟩ g r) := by
  have hcut := g.cut_grow guard (Nat.sub_le_sub_right hle 1) 0 .empty r.rootNode
  rwa [show 0 + (max 1 d - 1) + 1 = max 1 d by omega] at hcut

/-- A lower limit cuts all trees of a kind and removes none. -/
theorem cutAll_treesOf (hle : max 1 d ≤ max 1 d') (g : CallGraph) (kind : EntryKind)
    (records : List MethodRecord) :
    CallTree.cutAll (max 1 d) 0 (Assembly.treesOf ⟨guard, d'⟩ g kind records) =
      Assembly.treesOf ⟨guard, d⟩ g kind records := by
  rw [treesOf, treesOf, CallTree.cutAll_eq_filterMap, List.filterMap_map, ← List.filterMap_eq_map]
  apply List.filterMap_congr
  intro r _
  exact cut_tree hle g r

end Assembly

/-- Whatever the guard and the records, the forest under a depth limit is the forest under any
higher limit without the nodes on the levels from the lower limit on, where the roots stand at level
zero and a limit of zero counts as one. So the lower forest lists exactly those nodes of the higher
one that stand on the levels before the limit, in their order, and no tree has more levels than the
limit allows. -/
theorem assemble_eq_cut (guard : CycleGuard) (records : List MethodRecord) (d d' : Nat)
    (hle : max 1 d ≤ max 1 d') :
    let lower := Assembly.assemble ⟨guard, d⟩ records
    let higher := Assembly.assemble ⟨guard, d'⟩ records
    lower = higher.cut (max 1 d) ∧
      CallTree.preorderAll 0 lower.http =
        (CallTree.preorderAll 0 higher.http).filter (fun entry => entry.1 < max 1 d) ∧
      CallTree.preorderAll 0 lower.rpc =
        (CallTree.preorderAll 0 higher.rpc).filter (fun entry => entry.1 < max 1 d) ∧
      ∀ t ∈ lower.http ++ lower.rpc, t.depth ≤ max 1 d := by
  intro lower higher
  have hhttp : CallTree.cutAll (max 1 d) 0 higher.http = lower.http :=
    Assembly.cutAll_treesOf hle (graphOf records) .http (latest records)
  have hrpc : CallTree.cutAll (max 1 d) 0 higher.rpc = lower.rpc :=
    Assembly.cutAll_treesOf hle (graphOf records) .rpc (latest records)
  refine ⟨?_, ?_, ?_, ?_⟩
  · rw [EntryForest.cut, hhttp, hrpc]
  · rw [← hhttp]
    exact CallTree.preorderAll_cutAll ..
  · rw [← hrpc]
    exact CallTree.preorderAll_cutAll ..
  · intro t ht
    obtain ⟨r, -, rfl⟩ := Assembly.exists_record_of_mem ht
    have hdepth := (graphOf records).depth_grow_le_levels guard (max 1 d - 1) .empty r.rootNode
    rwa [Nat.sub_add_cancel (Nat.le_max_left 1 d)] at hdepth

/-- An interface that extends itself, so that its method is put under itself as long as the limit
allows. -/
def circularService : List MethodRecord :=
  [{ signature := "a/Web#go()", name := "go", descriptor := "()V", parameters := [],
     owner := { name := "a/Web" }, entryKind := .http,
     callees := [⟨"a/Loop#run()", "a/Loop", "run", "()V", []⟩,
       ⟨"a/Store#all()", "a/Store", "all", "()V", []⟩] },
   { signature := "a/Loop#run()", name := "run", descriptor := "()V", parameters := [],
     owner := { name := "a/Loop", interfaces := ["a/Loop"] }, isAbstract := true }]

theorem assemble_eq_cut_circularService :
    let lower := Assembly.assemble ⟨.ancestor, 2⟩ circularService
    let higher := Assembly.assemble ⟨.ancestor, 5⟩ circularService
    max 1 2 ≤ max 1 5 ∧ lower.http.map CallTree.size = [3] ∧
      higher.http.map CallTree.size = [6] ∧ lower = higher.cut 2 := by
  refine ⟨by decide, by decide, by decide, ?_⟩
  exact (assemble_eq_cut .ancestor circularService 2 5 (by decide)).1

end CallForest
