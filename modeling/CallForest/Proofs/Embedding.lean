import CallForest.ChangeSet
import CallForest.Proofs.Growth
import Mathlib.Data.List.Flatten
import Mathlib.Data.List.Forall2

/-!
# More records give larger trees

A tree embeds into another when its nodes are found there on the same levels and in the same order
among their siblings. Adding the record of a method that had none adds entry points and lets trees
grow: what was there before is still there. Only the node of the new method itself may turn out to
be abstract, since nothing was known about it.

The one thing that could take away an implementation is a class name that changes its role. A name
that is used as an interface anywhere stands for its implementing classes only, so no name may be
used both as a superclass and as an interface.

## Main definitions

* `CallTree.Embeds` — one tree is found in another, level by level and in sibling order;
* `CallNode.SameBut` — equal nodes, except that those of one signature may differ in being abstract;
* `RolesDistinct` — no class name is used both as a superclass and as an interface.

## Main results

* `latest_eq_filter` — a record with a new signature joins the others;
* `implementations_sublist` — no implementation is lost;
* `below_sameBut`, `grow_embeds` — one step of growth, and whole trees;
* `assemble_append_embeds` — the forest with one more record.
-/

namespace CallForest

/-! ### Embedding -/

/-- The first tree is found in the second: the tops agree, and the children of the first are, in
order, found in some of the children of the second. -/
inductive CallTree.Embeds (agrees : CallNode → CallNode → Prop) : CallTree → CallTree → Prop
  | node {n n' : CallNode} {children children' : List CallTree} (top : agrees n n')
      (below : List.SublistForall₂ (Embeds agrees) children children') :
      Embeds agrees (.node n children) (.node n' children')

theorem exists_mem_of_sublistForall₂ {α β : Type} {R : α → β → Prop} {l : List α} {l' : List β}
    (h : List.SublistForall₂ R l l') {x : α} (hx : x ∈ l) : ∃ y ∈ l', R x y := by
  induction h with
  | nil => cases hx
  | cons hR _ ih =>
    rcases List.mem_cons.mp hx with rfl | hx
    · exact ⟨_, List.mem_cons_self, hR⟩
    · obtain ⟨y, hy, hxy⟩ := ih hx
      exact ⟨y, List.mem_cons_of_mem _ hy, hxy⟩
  | cons_right _ ih =>
    obtain ⟨y, hy, hxy⟩ := ih hx
    exact ⟨y, List.mem_cons_of_mem _ hy, hxy⟩

/-- Functions that keep the relation can be applied on both sides. -/
theorem sublistForall₂_map {α β γ δ : Type} {R : α → β → Prop} {S : γ → δ → Prop} {f : α → γ}
    {f' : β → δ} {l : List α} {l' : List β} (h : List.SublistForall₂ R l l')
    (hstep : ∀ x y, R x y → S (f x) (f' y)) : List.SublistForall₂ S (l.map f) (l'.map f') := by
  induction h with
  | nil => exact .nil
  | cons hR _ ih => exact .cons (hstep _ _ hR) ih
  | cons_right _ ih => exact .cons_right ih

namespace CallTree

variable {agrees : CallNode → CallNode → Prop} {t t' : CallTree}

/-- What holds of a tree whenever it holds of the trees below its top holds of all trees. -/
theorem induct {P : CallTree → Prop}
    (step : ∀ n children, (∀ t ∈ children, P t) → P (.node n children)) (t : CallTree) : P t := by
  cases t with
  | node n children =>
    apply step
    intro t ht
    exact induct step t

theorem Embeds.root_agrees (h : Embeds agrees t t') : agrees t.root t'.root := by
  obtain ⟨top, -⟩ := h
  exact top

/-- Every node of the first tree has its counterpart in the second. -/
theorem Embeds.exists_mem_nodes (h : Embeds agrees t t') {c : CallNode} (hc : c ∈ t.nodes) :
    ∃ c' ∈ t'.nodes, agrees c c' := by
  induction t using induct generalizing t' with
  | step n children ih =>
    obtain ⟨top, below⟩ := h
    rw [nodes_node, List.mem_cons] at hc
    rw [nodes_node]
    rcases hc with rfl | hc
    · exact ⟨_, List.mem_cons_self, top⟩
    · obtain ⟨child, hchild, hc⟩ := List.mem_flatMap.mp hc
      obtain ⟨child', hchild', hembeds⟩ := exists_mem_of_sublistForall₂ below hchild
      obtain ⟨c', hc', hagrees⟩ := ih child hchild hembeds hc
      exact ⟨c', List.mem_cons_of_mem _ (List.mem_flatMap.mpr ⟨child', hchild', hc'⟩), hagrees⟩

end CallTree

/-! ### Nodes that differ in being abstract -/

/-- The nodes are equal, except that they may differ in being abstract if they have the given
signature. -/
def CallNode.SameBut (signature : String) (n n' : CallNode) : Prop :=
  n' = { n with isAbstract := n'.isAbstract } ∧
    (n.signature ≠ signature → n'.isAbstract = n.isAbstract)

namespace CallNode.SameBut

variable {signature : String} {n n' : CallNode}

theorem refl (signature : String) (n : CallNode) : SameBut signature n n :=
  ⟨rfl, fun _ => rfl⟩

instance : Std.Refl (SameBut signature) := ⟨refl signature⟩

theorem mention_eq (h : SameBut signature n n') : n'.mention = n.mention := by
  rw [h.1]
  rfl

theorem frame_eq (h : SameBut signature n n') : n'.frame = n.frame := by
  rw [h.1]
  rfl

end CallNode.SameBut

/-! ### One more record -/

/-- No class name is used both as a superclass and as an interface. A blank superclass is none. -/
def RolesDistinct (records : List MethodRecord) : Prop :=
  ∀ q ∈ records, ∀ q' ∈ records, q.owner.superName ∈ q'.owner.interfaces →
    Text.isBlankText q.owner.superName = true

instance (records : List MethodRecord) : Decidable (RolesDistinct records) :=
  inferInstanceAs (Decidable (∀ q ∈ records, ∀ q' ∈ records,
    q.owner.superName ∈ q'.owner.interfaces → Text.isBlankText q.owner.superName = true))

section OneMore

variable {records : List MethodRecord} {r : MethodRecord}

/-- A record says nothing about the signatures of others. -/
theorem recordOf?_append_of_ne {s : String} (hne : s ≠ r.signature) :
    recordOf? (records ++ [r]) s = recordOf? records s := by
  rw [recordOf?_append_singleton, if_neg hne.symm]

/-- A record with a new signature joins the others and replaces none. -/
theorem latest_eq_filter (fresh : ∀ q ∈ records, q.signature ≠ r.signature) :
    latest records = (latest (records ++ [r])).filter (·.signature ≠ r.signature) := by
  refine eq_of_ascending (pairwise_latest _) ((pairwise_latest _).filter _) fun q => ?_
  rw [List.mem_filter, mem_latest, mem_latest, decide_eq_true_eq]
  constructor
  · intro h
    have hne := fresh q (mem_of_recordOf? h).1
    exact ⟨(recordOf?_append_of_ne hne).trans h, hne⟩
  · rintro ⟨h, hne⟩
    exact (recordOf?_append_of_ne hne).symm.trans h

/-- A record of a new signature takes its place among the others and removes none. -/
theorem latest_sublist (fresh : ∀ q ∈ records, q.signature ≠ r.signature) :
    (latest records).Sublist (latest (records ++ [r])) := by
  rw [latest_eq_filter fresh]
  exact List.filter_sublist

/-- No implementation of a name is lost, and those that were there keep their order. -/
theorem implementations_sublist {known known' : List MethodRecord} (hsub : known.Sublist known')
    (roles : RolesDistinct known') (name : String) :
    ((DispatchIndex.build known).implementations name).Sublist
      ((DispatchIndex.build known').implementations name) := by
  rw [DispatchIndex.implementations_build, DispatchIndex.implementations_build]
  by_cases hold : ∃ q ∈ known, name ∈ q.owner.interfaces
  · have hnew : ∃ q ∈ known', name ∈ q.owner.interfaces := by
      obtain ⟨q, hq, hname⟩ := hold
      exact ⟨q, hsub.subset hq, hname⟩
    rw [if_pos hold, if_pos hnew]
    exact hsub.flatMap _
  · rw [if_neg hold]
    by_cases hnew : ∃ q ∈ known', name ∈ q.owner.interfaces
    · -- The name has become an interface, so no class extends it and nothing is lost.
      obtain ⟨q', hq', hname⟩ := hnew
      have hnone : known.filter (fun q => !Text.isBlankText q.owner.superName &&
          q.owner.superName = name) = [] := by
        rw [List.filter_eq_nil_iff]
        intro q hq hsuper
        simp only [Bool.and_eq_true, Bool.not_eq_true', decide_eq_true_eq] at hsuper
        have hblank := roles q (hsub.subset hq) q' hq' (hsuper.2 ▸ hname)
        rw [hblank] at hsuper
        exact Bool.noConfusion hsuper.1
      rw [hnone]
      exact List.nil_sublist _
    · rw [if_neg hnew]
      exact hsub.filter _

/-- Only the method of the new record can become abstract by it. -/
theorem isAbstract_append_of_ne {s : String} (hne : s ≠ r.signature) :
    (graphOf (records ++ [r])).isAbstract s = (graphOf records).isAbstract s := by
  rw [Bool.eq_iff_iff, isAbstract_graphOf, isAbstract_graphOf, recordOf?_append_of_ne hne]

/-- A method without a record has nothing below it. -/
theorem below_eq_nil {guard : CycleGuard} {trail : Trail} {n : CallNode}
    (hnone : recordOf? records n.signature = none) :
    (graphOf records).below guard trail n = [] := by
  have habs : ¬ (graphOf records).isAbstract n.signature = true := by
    rw [isAbstract_graphOf, hnone]
    rintro ⟨q, hq, -⟩
    cases hq
  rw [CallGraph.below_of_not_isAbstract habs, CallGraph.calls_eq, callees_graphOf, hnone]
  rfl

variable (fresh : ∀ q ∈ records, q.signature ≠ r.signature)
  (roles : RolesDistinct (records ++ [r]))

include fresh roles

/-- Whatever stood below a node still stands below it, in the same order. -/
theorem below_sameBut (guard : CycleGuard) (trail : Trail) {n n' : CallNode}
    (h : n.SameBut r.signature n') :
    List.SublistForall₂ (CallNode.SameBut r.signature) ((graphOf records).below guard trail n)
      ((graphOf (records ++ [r])).below guard trail n') := by
  have hmention := h.mention_eq
  simp only [CallNode.mention, Mention.mk.injEq] at hmention
  obtain ⟨hsig, hclass, hname, hparameters⟩ := hmention
  by_cases hnew : n.signature = r.signature
  · have hnone : recordOf? records n.signature = none := by
      rw [← Option.not_isSome_iff_eq_none, recordOf?_isSome_iff, hnew]
      rintro ⟨q, hq, hqsig⟩
      exact fresh q hq hqsig
    rw [below_eq_nil hnone]
    exact .nil
  · have habs : (graphOf (records ++ [r])).isAbstract n.signature =
        (graphOf records).isAbstract n.signature := isAbstract_append_of_ne hnew
    rw [CallGraph.below, CallGraph.below, hsig, habs]
    split
    · have hroles : RolesDistinct (latest (records ++ [r])) := fun q hq q' hq' =>
        roles q (latest_subset _ hq) q' (latest_subset _ hq')
      rw [CallGraph.implementations, CallGraph.implementations, hclass, hname, hparameters]
      exact (((implementations_sublist (latest_sublist fresh) hroles n.className).filter
        _).map _).sublistForall₂
    · rw [CallGraph.calls_eq, CallGraph.calls_eq, hsig, callees_graphOf, callees_graphOf,
        recordOf?_append_of_ne hnew]
      refine sublistForall₂_map (R := Eq) (List.Sublist.refl _).sublistForall₂ ?_
      rintro site _ rfl
      exact ⟨rfl, fun hne => isAbstract_append_of_ne hne⟩

/-- What is grown without the record is there after it, however deep the growth goes. -/
theorem grow_embeds (guard : CycleGuard) (levels : Nat) (trail : Trail) {n n' : CallNode}
    (h : n.SameBut r.signature n') :
    ((graphOf records).grow guard levels trail n).Embeds (CallNode.SameBut r.signature)
      ((graphOf (records ++ [r])).grow guard levels trail n') := by
  induction levels generalizing trail n n' with
  | zero => exact .node h .nil
  | succ levels ih =>
    rw [CallGraph.grow_succ, CallGraph.grow_succ, h.frame_eq]
    exact .node h (sublistForall₂_map (below_sameBut fresh roles guard _ h) fun _ _ => ih _)

/-- The trees of one kind of entry points. -/
theorem treesOf_embeds (a : Assembly) (kind : EntryKind) :
    List.SublistForall₂ (CallTree.Embeds (CallNode.SameBut r.signature))
      (a.treesOf (graphOf records) kind (latest records))
      (a.treesOf (graphOf (records ++ [r])) kind (latest (records ++ [r]))) := by
  refine sublistForall₂_map (R := Eq) ((latest_sublist fresh).filter _).sublistForall₂ ?_
  rintro q _ rfl
  exact grow_embeds fresh roles _ _ _ (.refl _ _)

end OneMore

/-! ### What a change keeps -/

section Kept

variable {agrees : CallNode → CallNode → Prop}
  (same : ∀ n n', agrees n n' → n'.mention = n.mention)

include same

/-- A change that a tree reaches is reached by each tree that it embeds into. -/
theorem reaches_of_embeds {t t' : CallTree} (h : t.Embeds agrees t') {changes : ChangeSet}
    (hreach : t.reaches changes = true) : t'.reaches changes = true := by
  rw [CallTree.reaches, List.any_eq_true] at hreach ⊢
  obtain ⟨c, hc, htouch⟩ := hreach
  obtain ⟨c', hc', hagrees⟩ := h.exists_mem_nodes hc
  have hclass : c'.className = c.className := congrArg Mention.owner (same c c' hagrees)
  exact ⟨c', hc', hclass ▸ htouch⟩

/-- The roots that a change keeps are kept among larger trees too. -/
theorem kept_subset {trees trees' : List CallTree}
    (h : List.SublistForall₂ (CallTree.Embeds agrees) trees trees') (changes : ChangeSet) :
    ((trees.filter (·.reaches changes)).map (·.root.signature)) ⊆
      ((trees'.filter (·.reaches changes)).map (·.root.signature)) := by
  intro s hs
  obtain ⟨t, ht, rfl⟩ := List.mem_map.mp hs
  obtain ⟨hmem, hreach⟩ := List.mem_filter.mp ht
  obtain ⟨t', hmem', hembeds⟩ := exists_mem_of_sublistForall₂ h hmem
  have hsig : t'.root.signature = t.root.signature :=
    congrArg Mention.signature (same t.root t'.root hembeds.root_agrees)
  exact List.mem_map.mpr
    ⟨t', List.mem_filter.mpr ⟨hmem', reaches_of_embeds same hembeds hreach⟩, hsig⟩

end Kept

/-- Adding the record of a method that had none, where no class name is used both as a superclass
and as an interface, loses nothing, whatever the guard and the depth limit. The trees of each kind
embed, in order, into those of the same kind of the larger forest, and every entry point that a
change impacts it still impacts. -/
theorem assemble_append_embeds (a : Assembly) (records : List MethodRecord) (r : MethodRecord)
    (fresh : ∀ q ∈ records, q.signature ≠ r.signature) (roles : RolesDistinct (records ++ [r])) :
    let before := a.assemble records
    let after := a.assemble (records ++ [r])
    List.SublistForall₂ (CallTree.Embeds (CallNode.SameBut r.signature)) before.http after.http ∧
      List.SublistForall₂ (CallTree.Embeds (CallNode.SameBut r.signature)) before.rpc after.rpc ∧
      ∀ changes : ChangeSet,
        ((before.impacted changes).http.map (·.root.signature) ⊆
          (after.impacted changes).http.map (·.root.signature)) ∧
        ((before.impacted changes).rpc.map (·.root.signature) ⊆
          (after.impacted changes).rpc.map (·.root.signature)) := by
  intro before after
  have http := treesOf_embeds fresh roles a .http
  have rpc := treesOf_embeds fresh roles a .rpc
  have same (n n' : CallNode) (h : n.SameBut r.signature n') : n'.mention = n.mention :=
    h.mention_eq
  exact ⟨http, rpc, fun changes => ⟨kept_subset same http changes, kept_subset same rpc changes⟩⟩

/-- A second implementation of the interface of `decoratedService`. -/
def cachedService : MethodRecord :=
  { signature := "a/Cached#run()", name := "run", descriptor := "()V", parameters := [],
    owner := { name := "a/Cached", superName := "a/Base", interfaces := ["a/Service"] } }

theorem assemble_append_embeds_cachedService :
    (∀ q ∈ decoratedService, q.signature ≠ cachedService.signature) ∧
      RolesDistinct (decoratedService ++ [cachedService]) ∧
      List.SublistForall₂ (CallTree.Embeds (CallNode.SameBut "a/Cached#run()"))
        (Assembly.assemble {} decoratedService).http
        (Assembly.assemble {} (decoratedService ++ [cachedService])).http :=
  ⟨by decide, by decide,
    (assemble_append_embeds {} decoratedService cachedService (by decide) (by decide)).1⟩

end CallForest
