import CallForest.ChangeSet
import CallForest.Proofs.Growth
import Mathlib.Data.List.Chain
import Mathlib.Logic.Relation

/-!
# Trees under the ancestor guard show what is reachable

A method leads to the methods it calls, and an abstract method to the methods that implement it.
The tree of an entry point is cut in many places: a call back to a method on the path is refused,
repeated calls are merged, and below the depth limit nothing grows. Under the ancestor guard none
of this loses a method. A method that can be reached at all can be reached without passing a method
twice, such a path is never refused, and it is no longer than there are signatures.

## Main definitions

* `Consistent` — a signature always names the same method;
* `Leads` — a method calls another or, if abstract, is implemented by it.

## Main results

* `leads_of_mem_below`, `exists_mem_below_of_leads` — one step of growth follows `Leads`;
* `exists_simple_chain` — what is reachable is reachable without repetition;
* `nodes_exact` — the trees show exactly the reachable methods, and a change impacts exactly the
  entry points from which a changed class is reachable.
-/

namespace CallForest

open Relation

/-- A signature always names the same method: the same class, name and parameter types. -/
def Consistent (records : List MethodRecord) : Prop :=
  ∀ m ∈ mentions records, ∀ m' ∈ mentions records, m.signature = m'.signature → m = m'

instance (records : List MethodRecord) : Decidable (Consistent records) :=
  inferInstanceAs (Decidable (∀ m ∈ mentions records, ∀ m' ∈ mentions records,
    m.signature = m'.signature → m = m'))

/-- A method calls another or, if it is abstract, is implemented by it. The latest record of the
method decides. -/
def Leads (records : List MethodRecord) (s t : String) : Prop :=
  ∃ r ∈ latest records, r.signature = s ∧
    if r.isAbstract then
      ∃ m ∈ (DispatchIndex.build (latest records)).resolve r.owner.name r.name r.parameters,
        m.signature = t
    else ∃ site ∈ r.callees, site.signature = t

variable {records : List MethodRecord} {trail : Trail} {n c : CallNode}

/-! ### One step -/

/-- Under a consistent naming, a node is looked up as its record would be. -/
theorem mention_eq_of_recordOf? (consistent : Consistent records)
    (hn : n.mention ∈ mentions records) {r : MethodRecord}
    (hr : recordOf? records n.signature = some r) : n.mention = r.mention := by
  obtain ⟨hmem, hsig⟩ := mem_of_recordOf? hr
  exact consistent _ hn _ (mention_mem hmem) hsig.symm

theorem implementations_eq_of_recordOf? (consistent : Consistent records)
    (hn : n.mention ∈ mentions records) {r : MethodRecord}
    (hr : recordOf? records n.signature = some r) :
    (graphOf records).implementations n =
      ((DispatchIndex.build (latest records)).resolve r.owner.name r.name r.parameters).map
        .ofRecord := by
  have hsame := mention_eq_of_recordOf? consistent hn hr
  simp only [CallNode.mention, MethodRecord.mention, Mention.mk.injEq] at hsame
  obtain ⟨-, hclass, hname, hparameters⟩ := hsame
  rw [CallGraph.implementations, hclass, hname, hparameters]
  rfl

/-- What one step of growth puts below a method is what the method leads to. -/
theorem leads_of_mem_below {guard : CycleGuard} (consistent : Consistent records)
    (hn : n.mention ∈ mentions records) (hc : c ∈ (graphOf records).below guard trail n) :
    Leads records n.signature c.signature := by
  by_cases habs : (graphOf records).isAbstract n.signature = true
  · obtain ⟨r, hr, hrabs⟩ := isAbstract_graphOf.mp habs
    rw [CallGraph.below_of_isAbstract habs, implementations_eq_of_recordOf? consistent hn hr] at hc
    obtain ⟨m, hm, rfl⟩ := List.mem_map.mp hc
    obtain ⟨-, hsig⟩ := mem_of_recordOf? hr
    refine ⟨r, mem_latest.mpr (hsig ▸ hr), hsig, ?_⟩
    rw [if_pos hrabs]
    exact ⟨m, hm, rfl⟩
  · rw [CallGraph.below_of_not_isAbstract habs] at hc
    obtain ⟨site, hsite, -, rfl⟩ := CallGraph.mem_calls hc
    obtain ⟨r, hr, hmem⟩ := mem_callees_graphOf.mp hsite
    obtain ⟨-, hsig⟩ := mem_of_recordOf? hr
    refine ⟨r, mem_latest.mpr (hsig ▸ hr), hsig, ?_⟩
    rw [if_neg fun hrabs => habs (isAbstract_graphOf.mpr ⟨r, hr, hrabs⟩)]
    exact ⟨site, hmem, rfl⟩

/-- Whatever a method leads to stands below its node, unless it stands on the path already. -/
theorem exists_mem_below_of_leads (consistent : Consistent records)
    (hn : n.mention ∈ mentions records) {t : String} (hlead : Leads records n.signature t)
    (hfresh : ∀ f ∈ trail.path, f.signature ≠ t) :
    ∃ c ∈ (graphOf records).below .ancestor trail n, c.signature = t := by
  obtain ⟨r, hr, hsig, hlead⟩ := hlead
  have hrec : recordOf? records n.signature = some r := hsig ▸ mem_latest.mp hr
  by_cases hrabs : r.isAbstract = true
  · rw [if_pos hrabs] at hlead
    obtain ⟨m, hm, rfl⟩ := hlead
    have habs := isAbstract_graphOf.mpr ⟨r, hrec, hrabs⟩
    rw [CallGraph.below_of_isAbstract habs, implementations_eq_of_recordOf? consistent hn hrec]
    exact ⟨.ofRecord m, List.mem_map_of_mem hm, rfl⟩
  · rw [if_neg hrabs] at hlead
    obtain ⟨site, hsite, rfl⟩ := hlead
    have habs : ¬ (graphOf records).isAbstract n.signature = true := by
      intro habs
      obtain ⟨q, hq, hqabs⟩ := isAbstract_graphOf.mp habs
      rw [hrec, Option.some_inj] at hq
      exact hrabs (hq ▸ hqabs)
    rw [CallGraph.below_of_not_isAbstract habs]
    exact CallGraph.exists_mem_calls (mem_callees_graphOf.mpr ⟨r, hrec, hsite⟩)
      (admits_ancestor.mpr hfresh)

/-! ### Whole paths -/

/-- What is reachable is reachable by a chain that passes nothing twice. -/
theorem exists_simple_chain {α : Type} {E : α → α → Prop} {s t : α} (h : ReflTransGen E s t) :
    ∃ rest, (s :: rest).IsChain E ∧ (s :: rest).Nodup ∧ (s :: rest).getLast? = some t := by
  induction h using ReflTransGen.head_induction_on with
  | refl => exact ⟨[], .singleton _, List.nodup_singleton _, rfl⟩
  | @head s u hstep _ ih =>
    obtain ⟨rest, hchain, hnodup, hlast⟩ := ih
    by_cases hs : s ∈ u :: rest
    · -- The chain comes back to its start: only the part from there on is kept.
      obtain ⟨front, back, hsplit⟩ := List.append_of_mem hs
      have hsuffix : s :: back <:+ u :: rest := ⟨front, hsplit.symm⟩
      refine ⟨back, hchain.suffix hsuffix, hnodup.sublist hsuffix.sublist, ?_⟩
      rw [hsplit, List.getLast?_append_cons] at hlast
      exact hlast
    · refine ⟨u :: rest, hchain.cons_cons hstep, List.nodup_cons.mpr ⟨hs, hnodup⟩, ?_⟩
      rw [List.getLast?_cons_cons]
      exact hlast

/-- A chain without repetition that keeps clear of the path grows into the tree, if there are
levels enough. -/
theorem exists_mem_nodes_of_chain (consistent : Consistent records) {rest : List String}
    {t : String} {levels : Nat} (hn : n.mention ∈ mentions records)
    (hchain : (n.signature :: rest).IsChain (Leads records))
    (hnodup : (n.signature :: rest).Nodup) (hfresh : ∀ f ∈ trail.path, f.signature ∉ rest)
    (hlast : (n.signature :: rest).getLast? = some t) (hlen : rest.length ≤ levels) :
    ∃ c ∈ ((graphOf records).grow .ancestor levels trail n).nodes, c.signature = t := by
  induction rest generalizing n trail levels with
  | nil =>
    have hroot := CallTree.root_mem_nodes ((graphOf records).grow .ancestor levels trail n)
    rw [CallGraph.root_grow] at hroot
    exact ⟨n, hroot, by simpa using hlast⟩
  | cons u rest ih =>
    obtain ⟨levels, rfl⟩ := Nat.exists_eq_succ_of_ne_zero (by simp at hlen; omega : levels ≠ 0)
    rw [List.isChain_cons_cons] at hchain
    obtain ⟨hn_rest, hnodup_rest⟩ := List.nodup_cons.mp hnodup
    -- The frame of the node itself joins the path; the chain avoids it because it never repeats.
    have hpath : ∀ f ∈ (trail.push n.frame).path, f.signature ∉ u :: rest := by
      intro f hf
      rw [Trail.path_push, List.mem_append, List.mem_singleton] at hf
      rcases hf with hf | rfl
      · exact hfresh f hf
      · exact hn_rest
    obtain ⟨child, hchild, rfl⟩ := exists_mem_below_of_leads consistent hn hchain.1
      fun f hf heq => hpath f hf (heq ▸ List.mem_cons_self)
    obtain ⟨c, hc, hsig⟩ := ih (mention_mem_of_mem_below hchild) hchain.2 hnodup_rest
      (fun f hf hmem => hpath f hf (List.mem_cons_of_mem _ hmem))
      (by rwa [List.getLast?_cons_cons] at hlast) (by simpa using hlen)
    exact ⟨c, CallGraph.mem_nodes_grow_succ hchild hc, hsig⟩

theorem signature_mem_of_leads {s t : String} (h : Leads records s t) :
    t ∈ signatures records := by
  obtain ⟨r, hr, -, h⟩ := h
  split at h
  · obtain ⟨m, hm, rfl⟩ := h
    have hmem : m ∈ latest records :=
      (DispatchIndex.mem_of_mem_implementations (List.mem_filter.mp hm).1).1
    exact signature_mem (mention_mem (latest_subset records hmem))
  · obtain ⟨site, hsite, rfl⟩ := h
    exact signature_mem (mention_callee_mem (latest_subset records hr) hsite)

/-- A chain without repetition is no longer than there are signatures. -/
theorem length_le_of_chain {s : String} {rest : List String} (hs : s ∈ signatures records)
    (hchain : (s :: rest).IsChain (Leads records)) (hnodup : (s :: rest).Nodup) :
    rest.length + 1 ≤ (signatures records).card := by
  have hsub : (s :: rest).toFinset ⊆ signatures records := by
    intro u hu
    rw [List.mem_toFinset] at hu
    exact List.IsChain.induction (· ∈ signatures records) _ hchain
      (fun _ _ h _ => signature_mem_of_leads h) (fun _ => hs) u hu
  have hcard := Finset.card_le_card hsub
  rwa [List.toFinset_card_of_nodup hnodup, List.length_cons] at hcard

/-! ### Trees of entry points -/

variable {maxDepth : Nat} {r : MethodRecord}

/-- Every node of a tree is a method that the records mention and that its root leads to. -/
theorem reachable_of_mem_nodes (consistent : Consistent records) (hr : r ∈ latest records)
    (a : Assembly) :
    ∀ c ∈ (a.tree (graphOf records) r).nodes,
      c.mention ∈ mentions records ∧ ReflTransGen (Leads records) r.signature c.signature := by
  refine CallGraph.forall_nodes_grow _ ?_ _ _ _ ?_
  · rintro trail n c ⟨hn, hreach⟩ hc
    exact ⟨mention_mem_of_mem_below hc, hreach.tail (leads_of_mem_below consistent hn hc)⟩
  · have hmention := r.mention_rootNode
    refine ⟨hmention ▸ mention_mem (latest_subset records hr), ?_⟩
    rw [show r.rootNode.signature = r.signature from congrArg Mention.signature hmention]

/-- With enough depth, every method that can be reached is in the tree. -/
theorem exists_mem_nodes_of_reachable (consistent : Consistent records) (hr : r ∈ latest records)
    (hdepth : (signatures records).card ≤ maxDepth) {t : String}
    (hreach : ReflTransGen (Leads records) r.signature t) :
    ∃ c ∈ (Assembly.tree ⟨.ancestor, maxDepth⟩ (graphOf records) r).nodes, c.signature = t := by
  have hmention := r.mention_rootNode
  have hsig : r.rootNode.signature = r.signature := congrArg Mention.signature hmention
  have hmem : r.mention ∈ mentions records := mention_mem (latest_subset records hr)
  obtain ⟨rest, hchain, hnodup, hlast⟩ := exists_simple_chain hreach
  have hlen := length_le_of_chain (signature_mem hmem) hchain hnodup
  rw [← hsig] at hchain hnodup hlast
  refine exists_mem_nodes_of_chain consistent (hmention ▸ hmem) hchain hnodup ?_ hlast ?_
  · intro f hf
    simp [Trail.path, Trail.empty] at hf
  · simp only
    omega

/-- A tree meets a change exactly when a method of a touched class is reachable from its root. -/
theorem reaches_iff (consistent : Consistent records)
    (deep : (signatures records).card ≤ maxDepth) (hr : r ∈ latest records)
    (changes : ChangeSet) :
    (Assembly.tree ⟨.ancestor, maxDepth⟩ (graphOf records) r).reaches changes = true ↔
      ∃ m ∈ mentions records, changes.touches m.owner = true ∧
        ReflTransGen (Leads records) r.signature m.signature := by
  rw [CallTree.reaches, List.any_eq_true]
  constructor
  · rintro ⟨c, hc, htouch⟩
    obtain ⟨hmention, hreach⟩ := reachable_of_mem_nodes consistent hr _ c hc
    exact ⟨c.mention, hmention, htouch, hreach⟩
  · rintro ⟨m, hm, htouch, hreach⟩
    obtain ⟨c, hc, hsig⟩ := exists_mem_nodes_of_reachable consistent hr deep hreach
    have hsame : c.mention = m :=
      consistent _ (reachable_of_mem_nodes consistent hr _ c hc).1 _ hm hsig
    exact ⟨c, hc, by rw [← hsame] at htouch; exact htouch⟩

open Classical in
/-- Under the ancestor guard, with at least as many levels as there are signatures, every entry
point among the latest records has a tree, and the tree shows exactly the methods that are
reachable from it. A change therefore keeps exactly the entry points, in order and unchanged, from
which a method of a touched class is reachable. -/
theorem nodes_exact (records : List MethodRecord) (maxDepth : Nat) (consistent : Consistent records)
    (deep : (signatures records).card ≤ maxDepth) :
    let forest := Assembly.assemble ⟨.ancestor, maxDepth⟩ records
    forest.http.map CallTree.root =
        ((latest records).filter (·.entryKind = .http)).map MethodRecord.rootNode ∧
      forest.rpc.map CallTree.root =
        ((latest records).filter (·.entryKind = .rpc)).map MethodRecord.rootNode ∧
      (∀ t ∈ forest.http ++ forest.rpc, ∀ s,
        (∃ c ∈ t.nodes, c.signature = s) ↔ ReflTransGen (Leads records) t.root.signature s) ∧
      ∀ changes : ChangeSet, forest.impacted changes =
        forest.filter fun t => ∃ m ∈ mentions records, changes.touches m.owner = true ∧
          ReflTransGen (Leads records) t.root.signature m.signature := by
  intro forest
  have hroot (t : CallTree) (ht : t ∈ forest.http ++ forest.rpc) :
      ∃ r ∈ latest records, t = Assembly.tree ⟨.ancestor, maxDepth⟩ (graphOf records) r ∧
        t.root.signature = r.signature := by
    obtain ⟨r, hr, rfl⟩ := Assembly.exists_record_of_mem ht
    refine ⟨r, hr, rfl, ?_⟩
    rw [Assembly.root_tree]
    exact congrArg Mention.signature r.mention_rootNode
  have hkept (changes : ChangeSet) (t : CallTree) (ht : t ∈ forest.http ++ forest.rpc) :
      t.reaches changes = decide (∃ m ∈ mentions records, changes.touches m.owner = true ∧
        ReflTransGen (Leads records) t.root.signature m.signature) := by
    obtain ⟨r, hr, rfl, hsig⟩ := hroot t ht
    rw [hsig, Bool.eq_iff_iff, decide_eq_true_eq]
    exact reaches_iff consistent deep hr changes
  refine ⟨?_, ?_, ?_, ?_⟩
  · simp [forest, Assembly.http_assemble, Function.comp_def]
  · simp [forest, Assembly.rpc_assemble, Function.comp_def]
  · intro t ht s
    obtain ⟨r, hr, rfl, hsig⟩ := hroot t ht
    rw [hsig]
    constructor
    · rintro ⟨c, hc, rfl⟩
      exact (reachable_of_mem_nodes consistent hr _ c hc).2
    · exact exists_mem_nodes_of_reachable consistent hr deep
  · intro changes
    rw [EntryForest.impacted, EntryForest.filter, EntryForest.filter, EntryForest.mk.injEq]
    exact ⟨List.filter_congr fun t ht => hkept changes t (List.mem_append_left _ ht),
      List.filter_congr fun t ht => hkept changes t (List.mem_append_right _ ht)⟩

theorem nodes_exact_decoratedService :
    Consistent decoratedService ∧ (signatures decoratedService).card ≤ 4 ∧
      let forest := Assembly.assemble ⟨.ancestor, 4⟩ decoratedService
      ∀ t ∈ forest.http ++ forest.rpc, ∀ s,
        (∃ c ∈ t.nodes, c.signature = s) ↔
          ReflTransGen (Leads decoratedService) t.root.signature s :=
  ⟨by decide, by decide, (nodes_exact decoratedService 4 (by decide) (by decide)).2.2.1⟩

end CallForest
