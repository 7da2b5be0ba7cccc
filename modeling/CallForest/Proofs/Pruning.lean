import CallForest.Proofs.Embedding
import CallForest.Proofs.Recursion

/-!
# The serialized guard only prunes

On signatures without quotes, backslashes and control characters the serialized guard refuses
whatever the ancestor guard refuses, and more. So while two trees grow from the same root, one under
each guard, every node of the first has its counterpart in the second at the end of the same path.
The first tree embeds into the second, and what a change impacts under the serialized guard it
impacts under the ancestor guard.

## Main results

* `admits_ancestor_of_admits_serialized` — the ancestor guard admits what the serialized guard does;
* `CallGraph.below_serialized_sublist` — one step of growth;
* `CallGraph.grow_serialized_embeds` — whole trees;
* `serialized_embeds_ancestor` — forests, and what a change impacts in them.
-/

namespace CallForest

/-- A plain signature on the path is seen by both guards. -/
theorem admits_ancestor_of_admits_serialized {path : List Frame} {s : String}
    (hplain : Json.IsPlain s) (h : CycleGuard.admits .serialized path s = true) :
    CycleGuard.admits .ancestor path s = true := by
  rw [admits_ancestor]
  rintro f hf rfl
  rw [not_admits_of_verbatim hf (Json.verbatim_of_isPlain hplain)] at h
  exact Bool.noConfusion h

namespace CallGraph

variable {g : CallGraph}
  (plain : ∀ s, ∀ site ∈ g.index.callees s, Json.IsPlain site.signature)

include plain

/-- Whatever the serialized guard lets stand below a node, the ancestor guard does too, and in the
same order. -/
theorem below_serialized_sublist (trail : Trail) (n : CallNode) :
    (g.below .serialized trail n).Sublist (g.below .ancestor trail n) := by
  by_cases habs : g.isAbstract n.signature = true
  · rw [below_of_isAbstract habs, below_of_isAbstract habs]
  · rw [below_of_not_isAbstract habs, below_of_not_isAbstract habs, calls_eq, calls_eq]
    apply List.Sublist.map
    have hagain : (CallSite.distinct [] (g.index.callees n.signature)).filter
          (fun site => CycleGuard.admits .serialized trail.path site.signature) =
        ((CallSite.distinct [] (g.index.callees n.signature)).filter
          (fun site => CycleGuard.admits .ancestor trail.path site.signature)).filter
            (fun site => CycleGuard.admits .serialized trail.path site.signature) := by
      rw [List.filter_filter]
      apply List.filter_congr
      intro site hsite
      have hsite := plain n.signature site (CallSite.mem_of_mem_distinct hsite)
      by_cases hadmits : CycleGuard.admits .serialized trail.path site.signature = true
      · rw [hadmits, admits_ancestor_of_admits_serialized hsite hadmits]
        rfl
      · rw [Bool.not_eq_true] at hadmits
        rw [hadmits, Bool.false_and]
    rw [hagain]
    exact List.filter_sublist

/-- The guard by text never lets in what the guard against ancestors keeps out. -/
theorem grow_serialized_embeds (levels : Nat) (trail : Trail) (n : CallNode) :
    (g.grow .serialized levels trail n).Embeds Eq (g.grow .ancestor levels trail n) := by
  induction levels generalizing trail n with
  | zero => exact .node rfl .nil
  | succ levels ih =>
    rw [grow_succ, grow_succ]
    have hbelow := below_serialized_sublist plain (trail.push n.frame) n
    refine .node rfl (sublistForall₂_map (R := Eq) hbelow.sublistForall₂ ?_)
    rintro c _ rfl
    exact ih (trail.push n.frame) c

end CallGraph

section Forests

variable {records : List MethodRecord}
  (plain : ∀ r ∈ records, ∀ site ∈ r.callees, Json.IsPlain site.signature)

include plain

theorem isPlain_callees_graphOf (s : String) :
    ∀ site ∈ (graphOf records).index.callees s, Json.IsPlain site.signature := by
  intro site hsite
  obtain ⟨r, hr, hsite⟩ := mem_callees_graphOf.mp hsite
  exact plain r (mem_of_recordOf? hr).1 site hsite

/-- The trees of one kind of entry points. -/
theorem treesOf_serialized_embeds (maxDepth : Nat) (kind : EntryKind) :
    List.Forall₂ (CallTree.Embeds Eq)
      (Assembly.treesOf ⟨.serialized, maxDepth⟩ (graphOf records) kind (latest records))
      (Assembly.treesOf ⟨.ancestor, maxDepth⟩ (graphOf records) kind (latest records)) := by
  rw [Assembly.treesOf, Assembly.treesOf, List.forall₂_map_left_iff, List.forall₂_map_right_iff,
    List.forall₂_same]
  intro r _
  exact CallGraph.grow_serialized_embeds (isPlain_callees_graphOf plain) _ _ _

end Forests

/-- If no call names a signature with a quote, a backslash or a control character, then for every
depth limit the forest under the serialized guard has the same roots as the one under the ancestor
guard, and each of its trees embeds into the tree of the same root: equal nodes stand on the same
levels and in the same order among their siblings. So every entry point that a change impacts under
the serialized guard it impacts under the ancestor guard. -/
theorem serialized_embeds_ancestor (records : List MethodRecord) (maxDepth : Nat)
    (plain : ∀ r ∈ records, ∀ site ∈ r.callees, Json.IsPlain site.signature) :
    let serialized := Assembly.assemble ⟨.serialized, maxDepth⟩ records
    let ancestor := Assembly.assemble ⟨.ancestor, maxDepth⟩ records
    serialized.http.map CallTree.root = ancestor.http.map CallTree.root ∧
      serialized.rpc.map CallTree.root = ancestor.rpc.map CallTree.root ∧
      List.Forall₂ (CallTree.Embeds Eq) serialized.http ancestor.http ∧
      List.Forall₂ (CallTree.Embeds Eq) serialized.rpc ancestor.rpc ∧
      ∀ changes : ChangeSet,
        ((serialized.impacted changes).http.map (·.root.signature) ⊆
          (ancestor.impacted changes).http.map (·.root.signature)) ∧
        ((serialized.impacted changes).rpc.map (·.root.signature) ⊆
          (ancestor.impacted changes).rpc.map (·.root.signature)) := by
  intro serialized ancestor
  have http := treesOf_serialized_embeds plain maxDepth .http
  have rpc := treesOf_serialized_embeds plain maxDepth .rpc
  have same (n n' : CallNode) (h : n = n') : n'.mention = n.mention := by rw [h]
  refine ⟨?_, ?_, http, rpc, fun changes => ⟨?_, ?_⟩⟩
  · simp [serialized, ancestor, Assembly.http_assemble, Function.comp_def]
  · simp [serialized, ancestor, Assembly.rpc_assemble, Function.comp_def]
  · exact kept_subset same (List.sublistForall₂_iff.mpr ⟨_, http, .refl _⟩) changes
  · exact kept_subset same (List.sublistForall₂_iff.mpr ⟨_, rpc, .refl _⟩) changes

/-- A class whose name ends in the name of another one, whose method it calls. The serialized guard
takes this for recursion. -/
def shadedNames : List MethodRecord :=
  [{ signature := "b/a/Web#go()", name := "go", descriptor := "()V", parameters := [],
     owner := { name := "b/a/Web" }, entryKind := .http,
     callees := [⟨"a/Web#go()", "a/Web", "go", "()V", []⟩] }]

theorem serialized_embeds_ancestor_shadedNames :
    (∀ r ∈ shadedNames, ∀ site ∈ r.callees, Json.IsPlain site.signature) ∧
      (Assembly.assemble ⟨.serialized, 8⟩ shadedNames).http.map CallTree.size = [1] ∧
      (Assembly.assemble ⟨.ancestor, 8⟩ shadedNames).http.map CallTree.size = [2] ∧
      List.Forall₂ (CallTree.Embeds Eq) (Assembly.assemble ⟨.serialized, 8⟩ shadedNames).http
        (Assembly.assemble ⟨.ancestor, 8⟩ shadedNames).http := by
  have plain : ∀ r ∈ shadedNames, ∀ site ∈ r.callees, Json.IsPlain site.signature := by decide
  exact ⟨plain, by decide, by decide,
    (serialized_embeds_ancestor shadedNames 8 plain).2.2.1⟩

end CallForest
