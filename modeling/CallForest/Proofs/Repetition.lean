import CallForest.Proofs.Reachability
import CallForest.Proofs.Recursion

/-!
# Methods that stand under themselves

A method should not be its own child. The guard is there to see to it, but there are two ways around
the guard. The implementations of an abstract method are never put to it, and a class that names
itself as its superclass or as one of its interfaces is found among the classes below itself, so an
abstract method of such a class implements itself. And the serialized guard does not find a
signature in the text of the path if its own JSON form hides it.

Nothing else leads to a repetition. Whether a node of a tree stands under itself is decided by the
record of its method, the class that the node names and the path above it.

## Main definitions

* `FoundBelow` — a record is found when the classes below a name are looked up;
* `Recurs` — the method of a node is put under itself;
* `ClassInfo.IsOwnParent` — a class that names itself as its superclass or interface.

## Main results

* `CallGraph.exists_own_implementation_iff`, `CallGraph.exists_own_call_iff` — the two ways to a
  repetition;
* `CallGraph.exists_own_below_iff` — both together, for one step of growth;
* `Assembly.exists_child_iff` — what stands under a node of a tree;
* `own_child_exact` — which nodes stand under themselves, for all trees.
-/

namespace CallForest

/-- The record is found when the classes below a name are looked up: a name that is used as an
interface stands for the classes that list it, any other for the classes that extend it. -/
def FoundBelow (records : List MethodRecord) (name : String) (r : MethodRecord) : Prop :=
  if ∃ q ∈ records, name ∈ q.owner.interfaces then name ∈ r.owner.interfaces
  else Text.isBlankText r.owner.superName = false ∧ r.owner.superName = name

/-- The method of a node is put under itself where the path leads to the node. An abstract method is
if its own record is found below the class that the node names, and any other if it calls itself and
the serialized guard does not find its signature in the text of the path. -/
def Recurs (records : List MethodRecord) (guard : CycleGuard) (path : List Frame) (n : CallNode) :
    Prop :=
  ∃ r, recordOf? records n.signature = some r ∧
    if r.isAbstract then
      r.name = n.methodName ∧ r.parameters = n.parameters ∧
        FoundBelow (latest records) n.className r
    else
      (∃ site ∈ r.callees, site.signature = n.signature) ∧ guard = .serialized ∧
        ¬ n.signature.toList <:+: pathText path

/-- The class names itself as its superclass or as one of its interfaces. -/
def ClassInfo.IsOwnParent (c : ClassInfo) : Prop :=
  c.superName = c.name ∨ c.name ∈ c.interfaces
deriving Decidable

theorem FoundBelow.parent {records : List MethodRecord} {name : String} {r : MethodRecord}
    (h : FoundBelow records name r) : r.owner.superName = name ∨ name ∈ r.owner.interfaces := by
  unfold FoundBelow at h
  split at h
  · exact .inr h
  · exact .inl h.2

theorem DispatchIndex.mem_implementations_iff {records : List MethodRecord} {name : String}
    {r : MethodRecord} :
    r ∈ (build records).implementations name ↔ r ∈ records ∧ FoundBelow records name r := by
  rw [implementations_build, FoundBelow]
  split
  · simp only [List.mem_flatMap, List.mem_replicate]
    constructor
    · rintro ⟨q, hq, hcount, rfl⟩
      exact ⟨hq, List.count_pos_iff.mp (Nat.pos_of_ne_zero hcount)⟩
    · rintro ⟨hr, hname⟩
      exact ⟨r, hr, Nat.ne_of_gt (List.count_pos_iff.mpr hname), rfl⟩
  · simp

/-! ### One step of growth -/

namespace CallGraph

variable {records : List MethodRecord} {guard : CycleGuard} {trail : Trail} {n : CallNode}
  {r : MethodRecord}

/-- An abstract method stands under itself if its own record is found below the class that the node
names. -/
theorem exists_own_implementation_iff (hr : recordOf? records n.signature = some r) :
    (∃ c ∈ (graphOf records).implementations n, c.signature = n.signature) ↔
      r.name = n.methodName ∧ r.parameters = n.parameters ∧
        FoundBelow (latest records) n.className r := by
  have hlatest : r ∈ latest records := by
    rw [mem_latest, (mem_of_recordOf? hr).2]
    exact hr
  constructor
  · rintro ⟨c, hc, hsig⟩
    obtain ⟨m, hm, rfl⟩ := mem_implementations hc
    obtain ⟨hfound, hkey⟩ := List.mem_filter.mp hm
    obtain ⟨hmem, hbelow⟩ := DispatchIndex.mem_implementations_iff.mp hfound
    have hsame : recordOf? records m.signature = some m := mem_latest.mp hmem
    have hsig' : m.signature = n.signature := hsig
    rw [hsig', hr, Option.some_inj] at hsame
    subst hsame
    simp only [decide_eq_true_eq] at hkey
    exact ⟨hkey.1, hkey.2, hbelow⟩
  · rintro ⟨hname, hparameters, hbelow⟩
    refine ⟨.ofRecord r, List.mem_map_of_mem (List.mem_filter.mpr ⟨?_, ?_⟩),
      (mem_of_recordOf? hr).2⟩
    · exact DispatchIndex.mem_implementations_iff.mpr ⟨hlatest, hbelow⟩
    · simp [hname, hparameters]

/-- A method that is not abstract stands under itself if it calls itself and the guard does not find
its signature in the text of the path. The ancestor guard never lets it pass. -/
theorem exists_own_call_iff (hr : recordOf? records n.signature = some r)
    (hlast : n.frame ∈ trail.path) :
    (∃ c ∈ (graphOf records).calls guard trail n, c.signature = n.signature) ↔
      (∃ site ∈ r.callees, site.signature = n.signature) ∧ guard = .serialized ∧
        ¬ n.signature.toList <:+: pathText trail.path := by
  have hadmits : guard.admits trail.path n.signature = true ↔
      guard = .serialized ∧ ¬ n.signature.toList <:+: pathText trail.path := by
    cases guard with
    | serialized => simp [CycleGuard.admits, ← Text.occursIn_iff]
    | ancestor =>
      rw [admits_ancestor]
      constructor
      · intro hpath
        exact absurd rfl (hpath _ hlast)
      · rintro ⟨hguard, -⟩
        cases hguard
  rw [← hadmits]
  constructor
  · rintro ⟨c, hc, hsig⟩
    obtain ⟨site, hsite, hadmitted, rfl⟩ := mem_calls hc
    obtain ⟨q, hq, hmem⟩ := mem_callees_graphOf.mp hsite
    rw [hr, Option.some_inj] at hq
    subst hq
    have hsig' : site.signature = n.signature := hsig
    exact ⟨⟨site, hmem, hsig'⟩, hsig' ▸ hadmitted⟩
  · rintro ⟨⟨site, hsite, hsig⟩, hadmitted⟩
    rw [← hsig] at hadmitted
    obtain ⟨c, hc, hsame⟩ :=
      exists_mem_calls (mem_callees_graphOf.mpr ⟨r, hr, hsite⟩) hadmitted
    exact ⟨c, hc, hsame.trans hsig⟩

/-- One step of growth puts a node under itself exactly when its method recurs. -/
theorem exists_own_below_iff (hlast : n.frame ∈ trail.path) :
    (∃ c ∈ (graphOf records).below guard trail n, c.signature = n.signature) ↔
      Recurs records guard trail.path n := by
  rw [Recurs]
  cases hr : recordOf? records n.signature with
  | none =>
    have habs : ¬ (graphOf records).isAbstract n.signature = true := by
      rw [isAbstract_graphOf, hr]
      rintro ⟨r, hr, -⟩
      cases hr
    rw [below_of_not_isAbstract habs, calls_eq, callees_graphOf, hr]
    simp [CallSite.distinct]
  | some r =>
    have habs : (graphOf records).isAbstract n.signature = true ↔ r.isAbstract = true := by
      rw [isAbstract_graphOf, hr]
      simp
    simp only [Option.some_inj, exists_eq_left']
    split
    · rename_i hrabs
      rw [below_of_isAbstract (habs.mpr hrabs)]
      exact exists_own_implementation_iff hr
    · rename_i hrabs
      rw [below_of_not_isAbstract (mt habs.mp hrabs)]
      exact exists_own_call_iff hr hlast

/-- A method does not recur if its class is not its own parent, should it be abstract, and the
serialized guard finds its signature in its own form. -/
theorem not_recurs (consistent : Consistent records) (hn : n.mention ∈ mentions records)
    (hparent : ∀ r ∈ records, r.isAbstract = true → ¬ r.owner.IsOwnParent)
    (hverbatim : guard = .serialized → ∀ r ∈ records, Json.Verbatim r.signature)
    (hlast : n.frame ∈ trail.path) : ¬ Recurs records guard trail.path n := by
  rintro ⟨r, hr, hcase⟩
  obtain ⟨hmem, hsig⟩ := mem_of_recordOf? hr
  split at hcase
  · rename_i habs
    have hmention := mention_eq_of_recordOf? consistent hn hr
    have howner : n.className = r.owner.name := congrArg Mention.owner hmention
    obtain ⟨-, -, hfound⟩ := hcase
    rw [howner] at hfound
    exact hparent r hmem habs hfound.parent
  · obtain ⟨-, hguard, hhidden⟩ := hcase
    have hown := hverbatim hguard r hmem
    rw [hsig] at hown
    have hform := form_signature_infix_pathText hlast
    exact hhidden (hown.trans hform)

end CallGraph

/-! ### Nodes of assembled trees -/

namespace Assembly

variable {a : Assembly} {records : List MethodRecord} {t sub : CallTree} {above : List CallNode}

/-- A node that the depth limit does not cut off has the children that one step of growth gives it,
at the end of the path that leads to the node; any other has none. -/
theorem exists_child_iff (ht : t ∈ (a.assemble records).http ++ (a.assemble records).rpc)
    (hbranch : t.Branch above sub) :
    ∃ trail : Trail, trail.path = (above ++ [sub.root]).map CallNode.frame ∧
      ∀ s, (∃ child ∈ sub.children, child.root.signature = s) ↔
        above.length + 1 < a.maxDepth ∧
          ∃ c ∈ (graphOf records).below a.guard trail sub.root, c.signature = s := by
  obtain ⟨trail, hpath, hchildren⟩ := exists_children_eq ht hbranch
  refine ⟨trail, hpath, ?_⟩
  intro s
  have hroots : (∃ child ∈ sub.children, child.root.signature = s) ↔
      ∃ c ∈ sub.children.map CallTree.root, c.signature = s := by
    simp
  rw [hroots, hchildren]
  by_cases hdepth : above.length + 1 < a.maxDepth
  · rw [if_pos hdepth, and_iff_right hdepth]
  · simp [hdepth]

/-- Every node of a tree is mentioned in the records. -/
theorem mention_mem_of_mem_nodes (ht : t ∈ (a.assemble records).http ++ (a.assemble records).rpc) :
    ∀ n ∈ t.nodes, n.mention ∈ mentions records := by
  obtain ⟨r, hr, rfl⟩ := exists_record_of_mem ht
  apply CallGraph.forall_nodes_grow (fun n => n.mention ∈ mentions records)
  · intro trail n c _ hc
    exact mention_mem_of_mem_below hc
  · rw [r.mention_rootNode]
    exact mention_mem (latest_subset records hr)

end Assembly

/-- A node stands under itself exactly when the depth limit does not cut it off and its method
recurs. So no node does as long as a signature always names the same method, no class with an
abstract method is its own parent, and the serialized guard, if it is the one that is asked, finds
signatures in their own form. -/
theorem own_child_exact (a : Assembly) (records : List MethodRecord) :
    (∀ t ∈ (a.assemble records).http ++ (a.assemble records).rpc,
      ∀ above sub, t.Branch above sub →
        ((∃ child ∈ sub.children, child.root.signature = sub.root.signature) ↔
          above.length + 1 < a.maxDepth ∧
            Recurs records a.guard ((above ++ [sub.root]).map CallNode.frame) sub.root)) ∧
    (Consistent records → (∀ r ∈ records, r.isAbstract = true → ¬ r.owner.IsOwnParent) →
      (a.guard = .serialized → ∀ r ∈ records, Json.Verbatim r.signature) →
      ∀ t ∈ (a.assemble records).http ++ (a.assemble records).rpc,
        ∀ above sub, t.Branch above sub →
          ∀ child ∈ sub.children, child.root.signature ≠ sub.root.signature) := by
  have hstep {t sub : CallTree} {above : List CallNode}
      (ht : t ∈ (a.assemble records).http ++ (a.assemble records).rpc)
      (hbranch : t.Branch above sub) :
      ∃ trail : Trail, trail.path = (above ++ [sub.root]).map CallNode.frame ∧
        sub.root.frame ∈ trail.path ∧
        ((∃ child ∈ sub.children, child.root.signature = sub.root.signature) ↔
          above.length + 1 < a.maxDepth ∧ Recurs records a.guard trail.path sub.root) := by
    obtain ⟨trail, hpath, hchild⟩ := Assembly.exists_child_iff ht hbranch
    have hlast : sub.root.frame ∈ trail.path := by
      rw [hpath]
      exact List.mem_map_of_mem (List.mem_append_right _ (List.mem_singleton_self _))
    refine ⟨trail, hpath, hlast, ?_⟩
    rw [hchild, CallGraph.exists_own_below_iff hlast]
  refine ⟨?_, ?_⟩
  · intro t ht above sub hbranch
    obtain ⟨trail, hpath, -, hiff⟩ := hstep ht hbranch
    rwa [hpath] at hiff
  · intro consistent hparent hverbatim t ht above sub hbranch child hchild hsame
    obtain ⟨trail, -, hlast, hiff⟩ := hstep ht hbranch
    have hmention := Assembly.mention_mem_of_mem_nodes ht _ hbranch.root_mem_nodes
    exact CallGraph.not_recurs consistent hmention hparent hverbatim hlast
      (hiff.mp ⟨child, hchild, hsame⟩).2

theorem own_child_exact_decoratedService :
    Consistent decoratedService ∧
      (∀ r ∈ decoratedService, r.isAbstract = true → ¬ r.owner.IsOwnParent) ∧
      (∀ r ∈ decoratedService, Json.Verbatim r.signature) ∧
      (Assembly.assemble ⟨.serialized, 8⟩ decoratedService).http.map CallTree.size = [6] ∧
      ∀ t ∈ (Assembly.assemble ⟨.serialized, 8⟩ decoratedService).http,
        ∀ above sub, t.Branch above sub →
          ∀ child ∈ sub.children, child.root.signature ≠ sub.root.signature := by
  have hconsistent : Consistent decoratedService := by decide
  have hparent : ∀ r ∈ decoratedService, r.isAbstract = true → ¬ r.owner.IsOwnParent := by decide
  have hverbatim : ∀ r ∈ decoratedService, Json.Verbatim r.signature := by decide
  refine ⟨hconsistent, hparent, hverbatim, by decide +kernel, ?_⟩
  intro t ht
  exact (own_child_exact ⟨.serialized, 8⟩ decoratedService).2 hconsistent hparent
    (fun _ => hverbatim) t (List.mem_append_left _ ht)

/-- A remote service with an abstract method whose class names itself as its superclass. -/
def ownParent : MethodRecord where
  signature := "shop/Job#run()"
  name := "run"
  descriptor := "()V"
  parameters := []
  owner := { name := "shop/Job", superName := "shop/Job" }
  isAbstract := true
  entryKind := .rpc

/-- An abstract method of a class that is its own parent is put under itself. -/
theorem own_child_of_ownParent :
    ¬ ∀ t ∈ (Assembly.assemble ⟨.ancestor, 3⟩ [ownParent]).rpc,
      ∀ above sub, t.Branch above sub →
        ∀ child ∈ sub.children, child.root.signature ≠ sub.root.signature := by
  intro h
  have hfound : (Assembly.assemble ⟨.ancestor, 3⟩ [ownParent]).rpc.map
      (fun t => (t.root.signature, t.children.map (·.root.signature))) =
        [("shop/Job#run()", ["shop/Job#run()"])] := by
    decide
  obtain ⟨t, ht, hpair⟩ := List.mem_map.mp (hfound ▸ List.mem_singleton_self _)
  obtain ⟨hroot, hchildren⟩ := Prod.mk.inj hpair
  obtain ⟨child, hchild, hsig⟩ := List.mem_map.mp (hchildren ▸ List.mem_singleton_self _)
  exact h t ht [] t (.here t) child hchild (hsig.trans hroot.symm)

end CallForest
