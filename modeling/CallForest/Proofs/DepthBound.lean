import CallForest.Proofs.Growth
import Mathlib.Data.Finset.Card
import Mathlib.Logic.Relation
import Mathlib.Tactic.Ring

/-!
# The ancestor guard bounds the depth of trees

The ancestor guard is asked about calls only. The implementations of an abstract method are put
under it without asking, so a signature may stand on a path twice. Still no path goes on forever
when no class inherits from itself. A call leads to a signature that is new on the path, and from
one call to the next each implementation lies in a class properly below the one before. So the
steps between two calls are at most as many as there are classes, and the calls at most as many as
there are signatures.

## Main definitions

* `Inherits` — a class extends or implements another;
* `InheritanceAcyclic` — no class inherits from itself;
* `owners` — the different classes that have records;
* `heirCount` — the number of classes properly below a class.

## Main results

* `heirCount_lt_of_inherits` — one step down the hierarchy leaves fewer classes below;
* `depth_grow_le` — the depth of a growing tree;
* `CallGraph.grow_eq_of_depth_le` — a tree that is not deeper than its limit is complete;
* `depth_bounded` — the depth of all trees, and a limit that cuts off nothing.
-/

namespace CallForest

open Relation

/-- A class with records extends or implements another. -/
def Inherits (records : List MethodRecord) (sub sup : String) : Prop :=
  ∃ r ∈ records, r.owner.name = sub ∧ (r.owner.superName = sup ∨ sup ∈ r.owner.interfaces)

/-- No class inherits from itself, directly or through others. -/
def InheritanceAcyclic (records : List MethodRecord) : Prop :=
  ∀ name, ¬ TransGen (Inherits records) name name

/-- The different classes that have records. -/
def owners (records : List MethodRecord) : Finset String :=
  (records.map (·.owner.name)).toFinset

open Classical in
/-- The number of classes properly below a class. -/
noncomputable def heirCount (records : List MethodRecord) (name : String) : Nat :=
  ((owners records).filter fun sub => TransGen (Inherits records) sub name).card

variable {records : List MethodRecord}

/-! ### Down the hierarchy -/

/-- A rank that falls from each class to the classes it extends and implements rules out cycles. -/
theorem InheritanceAcyclic.of_rank (rank : String → Nat)
    (h : ∀ r ∈ records, rank r.owner.superName < rank r.owner.name ∧
      ∀ i ∈ r.owner.interfaces, rank i < rank r.owner.name) :
    InheritanceAcyclic records := by
  have hstep {sub sup : String} (hin : Inherits records sub sup) : rank sup < rank sub := by
    obtain ⟨r, hr, rfl, rfl | hi⟩ := hin
    · exact (h r hr).1
    · exact (h r hr).2 _ hi
  have hrun {sub sup : String} (hin : TransGen (Inherits records) sub sup) :
      rank sup < rank sub := by
    induction hin with
    | single hin => exact hstep hin
    | tail _ hin ih => exact (hstep hin).trans ih
  intro name hcycle
  exact Nat.lt_irrefl _ (hrun hcycle)

/-- There are no more heirs than classes. -/
theorem heirCount_le (records : List MethodRecord) (name : String) :
    heirCount records name ≤ (owners records).card := by
  classical
  exact Finset.card_filter_le _ _

/-- One step down the hierarchy leaves fewer classes below. -/
theorem heirCount_lt_of_inherits (acyclic : InheritanceAcyclic records) {sub sup : String}
    (h : Inherits records sub sup) : heirCount records sub < heirCount records sup := by
  classical
  have howner : sub ∈ owners records := by
    obtain ⟨r, hr, rfl, -⟩ := h
    exact List.mem_toFinset.mpr (List.mem_map_of_mem hr)
  apply Finset.card_lt_card
  rw [Finset.ssubset_iff_of_subset]
  · -- The class itself is below its parent but not below itself.
    refine ⟨sub, Finset.mem_filter.mpr ⟨howner, .single h⟩, ?_⟩
    intro hself
    exact acyclic sub (Finset.mem_filter.mp hself).2
  · intro heir hheir
    obtain ⟨hmem, hbelow⟩ := Finset.mem_filter.mp hheir
    exact Finset.mem_filter.mpr ⟨hmem, hbelow.tail h⟩

/-! ### Signatures that are new on the path -/

/-- The signatures that do not stand on the path. -/
def unseen (records : List MethodRecord) (trail : Trail) : Finset String :=
  (signatures records).filter fun s => CycleGuard.admits .ancestor trail.path s = true

/-- A frame on the trail takes its signature from those that are not seen. -/
theorem unseen_push (records : List MethodRecord) (trail : Trail) (f : Frame) :
    unseen records (trail.push f) = (unseen records trail).erase f.signature := by
  ext s
  simp only [unseen, Finset.mem_filter, Finset.mem_erase, CycleGuard.admits, Trail.path_push,
    List.any_append, List.any_cons, List.any_nil, Bool.or_false, Bool.not_or, Bool.and_eq_true,
    Bool.not_eq_true', decide_eq_false_iff_not]
  constructor
  · rintro ⟨hmem, hpath, hne⟩
    exact ⟨Ne.symm hne, hmem, hpath⟩
  · rintro ⟨hne, hmem, hpath⟩
    exact ⟨hmem, hpath, Ne.symm hne⟩

theorem unseen_empty (records : List MethodRecord) :
    unseen records .empty = signatures records := by
  refine Finset.filter_true_of_mem ?_
  intro s _
  rfl

/-- A signature pays for itself and for all steps down the hierarchy. -/
theorem card_erase_mul {S : Finset String} {s : String} (hs : s ∈ S) (h : Nat) :
    1 + h + (S.erase s).card * (h + 1) = S.card * (h + 1) := by
  have hcard := Finset.card_erase_add_one hs
  rw [← hcard]
  ring

/-! ### Depth -/

variable {trail : Trail} {n c : CallNode}

/-- What an abstract method is put over lies one step down the hierarchy. -/
theorem inherits_of_mem_implementations (h : c ∈ (graphOf records).implementations n) :
    Inherits records c.className n.className := by
  obtain ⟨m, hm, rfl⟩ := CallGraph.mem_implementations h
  obtain ⟨hmem, hparent⟩ := mem_resolve_graphOf hm
  exact ⟨m, latest_subset records hmem, rfl, hparent⟩

/-- A call leads to a signature that is new on the path. -/
theorem mem_unseen_of_mem_calls (hmention : c.mention ∈ mentions records)
    (h : c ∈ (graphOf records).calls .ancestor trail n) :
    c.signature ∈ unseen records trail := by
  obtain ⟨site, -, hadmits, rfl⟩ := CallGraph.mem_calls h
  exact Finset.mem_filter.mpr ⟨signature_mem hmention, hadmits⟩

/-- The depth of a tree: the steps down the hierarchy that are left before the next call, and for
each signature that is still new a call with all steps down the hierarchy after it. -/
theorem depth_grow_le (acyclic : InheritanceAcyclic records) (levels : Nat) (trail : Trail)
    (n : CallNode) :
    ((graphOf records).grow .ancestor levels trail n).depth ≤
      heirCount records n.className +
        (unseen records (trail.push n.frame)).card * ((owners records).card + 1) + 1 := by
  induction levels generalizing trail n with
  | zero =>
    rw [CallGraph.grow, CallTree.depth_node_le]
    simp
  | succ levels ih =>
    rw [CallGraph.grow_succ, CallTree.depth_node_le]
    intro t ht
    obtain ⟨c, hc, rfl⟩ := List.mem_map.mp ht
    refine (ih _ c).trans ?_
    rw [unseen_push _ (trail.push n.frame)]
    by_cases habs : (graphOf records).isAbstract n.signature = true
    · -- Dispatch may repeat a signature, but it goes down the hierarchy.
      have hstep : heirCount records c.className < heirCount records n.className := by
        rw [CallGraph.below_of_isAbstract habs] at hc
        exact heirCount_lt_of_inherits acyclic (inherits_of_mem_implementations hc)
      have hmul := Nat.mul_le_mul_right ((owners records).card + 1)
        (Finset.card_erase_le (s := unseen records (trail.push n.frame)) (a := c.signature))
      change heirCount records c.className +
        ((unseen records (trail.push n.frame)).erase c.signature).card * _ + 1 ≤ _
      omega
    · -- A call may go to any class, but it uses up a signature, which pays for all steps down.
      have hmention := mention_mem_of_mem_below hc
      rw [CallGraph.below_of_not_isAbstract habs] at hc
      have hmul := card_erase_mul (mem_unseen_of_mem_calls hmention hc) (owners records).card
      have hrank := heirCount_le records c.className
      change heirCount records c.className +
        ((unseen records (trail.push n.frame)).erase c.signature).card * _ + 1 ≤ _
      omega

/-- A tree that is not deeper than its limit is complete: a higher limit gives the same tree. -/
theorem CallGraph.grow_eq_of_depth_le (g : CallGraph) (guard : CycleGuard) {levels levels' : Nat}
    (trail : Trail) (n : CallNode) (hle : levels ≤ levels')
    (hdepth : (g.grow guard levels' trail n).depth ≤ levels + 1) :
    g.grow guard levels trail n = g.grow guard levels' trail n := by
  induction levels generalizing levels' trail n with
  | zero =>
    cases levels' with
    | zero => rfl
    | succ levels' =>
      rw [grow_succ, CallTree.depth_node_le] at hdepth
      have hnone : (g.below guard (trail.push n.frame) n).map
          (g.grow guard levels' (trail.push n.frame)) = [] := by
        rw [List.eq_nil_iff_forall_not_mem]
        rintro ⟨m, children⟩ hm
        have := hdepth _ hm
        simp [CallTree.depth] at this
      rw [grow_succ, hnone]
      rfl
  | succ levels ih =>
    obtain ⟨levels', rfl⟩ := Nat.exists_eq_succ_of_ne_zero (by omega : levels' ≠ 0)
    rw [grow_succ, CallTree.depth_node_le] at hdepth
    rw [grow_succ, grow_succ]
    congr 1
    refine List.map_congr_left fun c hc => ?_
    exact ih _ c (Nat.le_of_succ_le_succ hle) (hdepth _ (List.mem_map_of_mem hc))

/-! ### Trees of entry points -/

/-- The bound for the tree of an entry point. -/
theorem depth_tree_le (acyclic : InheritanceAcyclic records) {r : MethodRecord}
    (hr : r ∈ latest records) (levels : Nat) :
    ((graphOf records).grow .ancestor levels .empty r.rootNode).depth ≤
      (signatures records).card * ((owners records).card + 1) := by
  have hsig : r.rootNode.frame.signature ∈ signatures records := by
    have hmem := signature_mem (mention_mem (latest_subset records hr))
    rwa [← r.mention_rootNode] at hmem
  refine (depth_grow_le acyclic levels .empty r.rootNode).trans ?_
  have hrank := heirCount_le records r.rootNode.className
  have hmul := card_erase_mul hsig (owners records).card
  rw [unseen_push, unseen_empty]
  omega

/-- If no class inherits from itself, then under the ancestor guard no tree is deeper than the
number of signatures times one more than the number of classes, whatever the depth limit, and all
limits from there on give the same forest. -/
theorem depth_bounded (records : List MethodRecord) (acyclic : InheritanceAcyclic records) :
    let bound := (signatures records).card * ((owners records).card + 1)
    (∀ maxDepth, ∀ t ∈ (Assembly.assemble ⟨.ancestor, maxDepth⟩ records).http ++
        (Assembly.assemble ⟨.ancestor, maxDepth⟩ records).rpc, t.depth ≤ bound) ∧
      ∀ d d', bound ≤ d → bound ≤ d' →
        Assembly.assemble ⟨.ancestor, d⟩ records = Assembly.assemble ⟨.ancestor, d'⟩ records := by
  intro bound
  have hcomplete (d : Nat) (hd : bound ≤ d) (r : MethodRecord) (hr : r ∈ latest records)
      (d' : Nat) (hd' : d ≤ d') :
      Assembly.tree ⟨.ancestor, d⟩ (graphOf records) r =
        Assembly.tree ⟨.ancestor, d'⟩ (graphOf records) r := by
    refine CallGraph.grow_eq_of_depth_le _ _ _ _ ?_ ((depth_tree_le acyclic hr _).trans ?_)
    · simp only
      omega
    · change bound ≤ max 1 d - 1 + 1
      omega
  have hsame (d d' : Nat) (hd : bound ≤ d) (hd' : d ≤ d') :
      Assembly.assemble ⟨.ancestor, d⟩ records = Assembly.assemble ⟨.ancestor, d'⟩ records := by
    rw [Assembly.assemble, Assembly.assemble, EntryForest.mk.injEq]
    exact ⟨List.map_congr_left fun r hr => hcomplete d hd r (List.mem_filter.mp hr).1 d' hd',
      List.map_congr_left fun r hr => hcomplete d hd r (List.mem_filter.mp hr).1 d' hd'⟩
  refine ⟨?_, ?_⟩
  · intro maxDepth t ht
    obtain ⟨r, hr, rfl⟩ := Assembly.exists_record_of_mem ht
    exact depth_tree_le acyclic hr _
  · intro d d' hd hd'
    rcases Nat.le_total d d' with hle | hle
    · exact hsame d d' hd hle
    · exact (hsame d' d hd' hle).symm

theorem depth_bounded_decoratedService :
    InheritanceAcyclic decoratedService ∧ (signatures decoratedService).card = 4 ∧
      (owners decoratedService).card = 3 ∧
      ∀ d, 16 ≤ d → Assembly.assemble ⟨.ancestor, d⟩ decoratedService =
        Assembly.assemble ⟨.ancestor, 16⟩ decoratedService := by
  have acyclic : InheritanceAcyclic decoratedService :=
    .of_rank (fun name => if name = "" then 0 else if name = "a/Service" then 1 else 2) (by decide)
  have hbound : (signatures decoratedService).card * ((owners decoratedService).card + 1) = 16 := by
    decide
  refine ⟨acyclic, by decide, by decide, fun d hd => ?_⟩
  exact (depth_bounded decoratedService acyclic).2 d 16 (hbound.trans_le hd) hbound.le

end CallForest
