import CallForest.Proofs.Branch

/-!
# The implementations of abstract methods

A class name can play two roles: other classes extend it, or they implement it as an interface. The
index of implementations has one group for a name. If the name is an interface anywhere, the group
holds the methods of the classes that implement it, and the classes that extend it are left out.
Otherwise it holds the methods of the classes that extend it. So nothing is left out as long as the
name plays one of the roles only, and then every class is found as often as it names its parent.

An abstract node looks up the class that it names itself. Its children come in the order of the
records, which is the order of their signatures.

## Main definitions

* `ClassInfo.Extends` — a class names another as its superclass;
* `ClassInfo.links` — how often a class names another as its superclass or as an interface;
* `OneRole` — a name is not used both as a superclass and as an interface.

## Main results

* `DispatchIndex.implementations_eq_extends` — the group of a name, for any records;
* `DispatchIndex.implementations_of_oneRole` — the group of a name that plays one role;
* `Assembly.children_of_isAbstract` — the children of an abstract node;
* `dispatch_complete` — both together, for all forests.
-/

namespace CallForest

/-- The class extends `parent`. A blank superclass is none. -/
def ClassInfo.Extends (c : ClassInfo) (parent : String) : Prop :=
  c.superName = parent ∧ Text.isBlankText parent = false
deriving Decidable

/-- The number of times the class names `parent`, as its superclass and among its interfaces. -/
def ClassInfo.links (c : ClassInfo) (parent : String) : Nat :=
  (if c.Extends parent then 1 else 0) + c.interfaces.count parent

/-- The name is not used both as a superclass and as an interface. -/
def OneRole (records : List MethodRecord) (name : String) : Prop :=
  (∀ r ∈ records, ¬ r.owner.Extends name) ∨ ∀ r ∈ records, name ∉ r.owner.interfaces
deriving Decidable

/-- A class is linked to its superclass and to the interfaces that it lists. -/
theorem ClassInfo.links_pos_iff {c : ClassInfo} {parent : String} :
    0 < c.links parent ↔ c.Extends parent ∨ parent ∈ c.interfaces := by
  rw [links, Nat.add_pos_iff_pos_or_pos, List.count_pos_iff]
  apply or_congr_left
  by_cases h : c.Extends parent <;> simp [h]

/-! ### Groups -/

/-- A member is picked as often as it is repeated, or not at all. -/
theorem filter_flatMap_replicate {α : Type} (p : α → Bool) (times : α → Nat) (l : List α) :
    (l.flatMap fun a => List.replicate (times a) a).filter p =
      (l.filter p).flatMap fun a => List.replicate (times a) a := by
  induction l with
  | nil => rfl
  | cons a l ih =>
    rw [List.flatMap_cons, List.filter_append, ih]
    by_cases ha : p a = true
    · rw [List.filter_replicate_of_pos ha, List.filter_cons_of_pos ha, List.flatMap_cons]
    · rw [List.filter_replicate_of_neg ha, List.filter_cons_of_neg ha, List.nil_append]

namespace DispatchIndex

/-- A name that some class lists is taken for an interface, and any other one for a superclass. -/
theorem implementations_eq_extends (records : List MethodRecord) (parent : String) :
    (build records).implementations parent =
      if ∃ r ∈ records, parent ∈ r.owner.interfaces then
        records.flatMap fun r => List.replicate (r.owner.interfaces.count parent) r
      else records.filter fun r => r.owner.Extends parent := by
  rw [implementations_build]
  congr 1
  apply List.filter_congr
  intro r _
  rw [Bool.eq_iff_iff, Bool.and_eq_true, Bool.not_eq_true', decide_eq_true_eq, decide_eq_true_eq]
  constructor
  · rintro ⟨hblank, rfl⟩
    exact ⟨rfl, hblank⟩
  · rintro ⟨rfl, hblank⟩
    exact ⟨hblank, rfl⟩

/-- In one role, each class stands for a name as often as it names it. -/
theorem implementations_of_oneRole {records : List MethodRecord} {parent : String}
    (h : OneRole records parent) :
    (build records).implementations parent =
      records.flatMap fun r => List.replicate (r.owner.links parent) r := by
  rw [implementations_eq_extends]
  split
  · -- A name that some class lists is extended by none, or it would have two roles.
    rename_i hused
    rcases h with hextends | hinterfaces
    · apply List.flatMap_congr
      intro r hr
      rw [ClassInfo.links, if_neg (hextends r hr), Nat.zero_add]
    · obtain ⟨r, hr, hname⟩ := hused
      exact absurd hname (hinterfaces r hr)
  · rename_i hunused
    rw [← List.filterMap_eq_filter, List.filterMap_eq_flatMap_toList]
    apply List.flatMap_congr
    intro r hr
    have hcount : r.owner.interfaces.count parent = 0 := by
      rw [List.count_eq_zero]
      intro hname
      exact hunused ⟨r, hr, hname⟩
    by_cases hextends : r.owner.Extends parent <;>
      simp [ClassInfo.links, hcount, hextends, Option.guard]

/-- The methods that a call may run, if the name is not an interface here and a superclass there. -/
theorem resolve_of_oneRole {records : List MethodRecord} {parent : String}
    (h : OneRole records parent) (name : String) (parameters : List String) :
    (build records).resolve parent name parameters =
      (records.filter fun r => r.name = name ∧ r.parameters = parameters).flatMap
        fun r => List.replicate (r.owner.links parent) r := by
  rw [resolve, implementations_of_oneRole h, filter_flatMap_replicate]

end DispatchIndex

/-! ### Abstract nodes -/

/-- Records in ascending order stay in ascending order when they are repeated. -/
theorem pairwise_signatures_replicate {known : List MethodRecord}
    (h : known.Pairwise fun r r' => compare r.signature r'.signature = .lt)
    (times : MethodRecord → Nat) :
    ((known.flatMap fun r => List.replicate (times r) (CallNode.ofRecord r)).map
      CallNode.signature).Pairwise fun s s' => (compare s s').isLE = true := by
  rw [List.pairwise_map, List.pairwise_flatMap]
  constructor
  · intro r _
    rw [List.pairwise_replicate]
    exact .inr Std.ReflCmp.isLE_rfl
  · apply h.imp
    intro r r' hlt c hc c' hc'
    rw [List.eq_of_mem_replicate hc, List.eq_of_mem_replicate hc']
    exact Ordering.isLE_of_eq_lt hlt

namespace Assembly

variable {a : Assembly} {records : List MethodRecord} {t sub : CallTree} {above : List CallNode}

/-- The children of an abstract node above the depth limit, if its class plays one role only. -/
theorem children_of_isAbstract (ht : t ∈ (a.assemble records).http ++ (a.assemble records).rpc)
    (hbranch : t.Branch above sub) (habs : sub.root.isAbstract = true)
    (hdepth : above.length + 1 < a.maxDepth) (hrole : OneRole (latest records) sub.root.className) :
    sub.children.map CallTree.root =
      ((latest records).filter fun r =>
        r.name = sub.root.methodName ∧ r.parameters = sub.root.parameters).flatMap
          fun r => List.replicate (r.owner.links sub.root.className) (.ofRecord r) := by
  obtain ⟨trail, -, hchildren⟩ := exists_children_eq ht hbranch
  rw [isAbstract_eq ht _ hbranch.root_mem_nodes] at habs
  rw [hchildren, if_pos hdepth, CallGraph.below_of_isAbstract habs, CallGraph.implementations,
    graphOf, CallGraph.ofRecords, DispatchIndex.resolve_of_oneRole hrole, List.map_flatMap]
  simp only [List.map_replicate]

/-- A record is found among the children exactly if it implements the method of the node. -/
theorem exists_child_iff_implements
    (ht : t ∈ (a.assemble records).http ++ (a.assemble records).rpc)
    (hbranch : t.Branch above sub) (habs : sub.root.isAbstract = true)
    (hdepth : above.length + 1 < a.maxDepth) (hrole : OneRole (latest records) sub.root.className)
    {r : MethodRecord} (hr : recordOf? records r.signature = some r) :
    (∃ child ∈ sub.children, child.root.mention = r.mention) ↔
      r.name = sub.root.methodName ∧ r.parameters = sub.root.parameters ∧
        (r.owner.Extends sub.root.className ∨ sub.root.className ∈ r.owner.interfaces) := by
  have hroots : (∃ child ∈ sub.children, child.root.mention = r.mention) ↔
      ∃ c ∈ sub.children.map CallTree.root, c.mention = r.mention := by
    simp
  rw [hroots, children_of_isAbstract ht hbranch habs hdepth hrole]
  constructor
  · rintro ⟨c, hc, hmention⟩
    obtain ⟨q, hq, hrepeated⟩ := List.mem_flatMap.mp hc
    obtain ⟨hlatest, hkey⟩ := List.mem_filter.mp hq
    obtain ⟨hlinks, rfl⟩ := List.mem_replicate.mp hrepeated
    have hsig : q.signature = r.signature := congrArg Mention.signature hmention
    have hsame := mem_latest.mp hlatest
    rw [hsig, hr, Option.some_inj] at hsame
    subst hsame
    obtain ⟨hname, hparameters⟩ := of_decide_eq_true hkey
    exact ⟨hname, hparameters, ClassInfo.links_pos_iff.mp (Nat.pos_of_ne_zero hlinks)⟩
  · rintro ⟨hname, hparameters, hparent⟩
    refine ⟨.ofRecord r, List.mem_flatMap.mpr ⟨r, ?_, ?_⟩, rfl⟩
    · exact List.mem_filter.mpr ⟨mem_latest.mpr hr, decide_eq_true ⟨hname, hparameters⟩⟩
    · exact List.mem_replicate.mpr ⟨Nat.ne_of_gt (ClassInfo.links_pos_iff.mpr hparent), rfl⟩

end Assembly

/-- For any records and any name, the group of the name is that of its role: the records of the
classes that list it, once for each time, if there are any, and else the records of the classes that
extend it. So an abstract node above the depth limit whose class plays one role only has every last
record that implements its method as a child, in ascending order, once for each time that the class
of the record names the class of the node. -/
theorem dispatch_complete (a : Assembly) (records : List MethodRecord) :
    (∀ parent, (DispatchIndex.build records).implementations parent =
      if ∃ r ∈ records, parent ∈ r.owner.interfaces then
        records.flatMap fun r => List.replicate (r.owner.interfaces.count parent) r
      else records.filter fun r => r.owner.Extends parent) ∧
    ∀ t ∈ (a.assemble records).http ++ (a.assemble records).rpc, ∀ above sub, t.Branch above sub →
      sub.root.isAbstract = true → above.length + 1 < a.maxDepth →
      OneRole (latest records) sub.root.className →
      (∀ r, recordOf? records r.signature = some r →
        ((∃ child ∈ sub.children, child.root.mention = r.mention) ↔
          r.name = sub.root.methodName ∧ r.parameters = sub.root.parameters ∧
            (r.owner.Extends sub.root.className ∨ sub.root.className ∈ r.owner.interfaces))) ∧
      (sub.children.map (·.root.signature)).Pairwise (fun s s' => (compare s s').isLE = true) ∧
      sub.children.map CallTree.root =
        (((latest records).filter fun r =>
          r.name = sub.root.methodName ∧ r.parameters = sub.root.parameters).flatMap
            fun r => List.replicate (r.owner.links sub.root.className) (.ofRecord r)) := by
  refine ⟨DispatchIndex.implementations_eq_extends records, ?_⟩
  intro t ht above sub hbranch habs hdepth hrole
  have hchildren := Assembly.children_of_isAbstract ht hbranch habs hdepth hrole
  refine ⟨?_, ?_, hchildren⟩
  · intro r hr
    exact Assembly.exists_child_iff_implements ht hbranch habs hdepth hrole hr
  · have hascending := pairwise_signatures_replicate
      ((pairwise_latest records).filter fun r =>
        r.name = sub.root.methodName ∧ r.parameters = sub.root.parameters)
      (fun r => r.owner.links sub.root.className)
    rwa [← hchildren, List.map_map] at hascending

/-- An interface with three implementing classes, one of which lists it twice, and a class that
another extends. Only the methods of the right name and parameter types implement its method. -/
def renderedViews : List MethodRecord :=
  [{ signature := "a/Page#show()", name := "show", descriptor := "()V", parameters := [],
     owner := { name := "a/Page" }, entryKind := .http,
     callees := [⟨"a/View#draw(I)", "a/View", "draw", "(I)V", ["I"]⟩] },
   { signature := "a/View#draw(I)", name := "draw", descriptor := "(I)V", parameters := ["I"],
     owner := { name := "a/View" }, isAbstract := true },
   { signature := "a/Text#draw(I)", name := "draw", descriptor := "(I)V", parameters := ["I"],
     owner := { name := "a/Text", superName := "a/Page", interfaces := ["a/View"] } },
   { signature := "a/Text#draw()", name := "draw", descriptor := "()V", parameters := [],
     owner := { name := "a/Text", superName := "a/Page", interfaces := ["a/View"] } },
   { signature := "a/Image#draw(I)", name := "draw", descriptor := "(I)V", parameters := ["I"],
     owner := { name := "a/Image", interfaces := ["a/View", "a/Data", "a/View"] } }]

theorem dispatch_complete_renderedViews :
    ∃ t ∈ (Assembly.assemble ⟨.serialized, 8⟩ renderedViews).http, ∃ sub ∈ t.children,
      t.Branch [t.root] sub ∧ sub.root.isAbstract = true ∧
      OneRole (latest renderedViews) sub.root.className ∧
      sub.children.map (·.root.signature) =
        ["a/Image#draw(I)", "a/Image#draw(I)", "a/Text#draw(I)"] ∧
      (sub.children.map (·.root.signature)).Pairwise
        (fun s s' => (compare s s').isLE = true) := by
  have hfound : (Assembly.assemble ⟨.serialized, 8⟩ renderedViews).http.map
      (fun t => t.children.map fun c =>
        (c.root.className, c.root.isAbstract, c.children.map (·.root.signature))) =
        [[("a/View", true, ["a/Image#draw(I)", "a/Image#draw(I)", "a/Text#draw(I)"])]] := by
    decide
  have hrole : OneRole (latest renderedViews) "a/View" := by decide
  obtain ⟨t, ht, hchildren⟩ := List.mem_map.mp (hfound ▸ List.mem_singleton_self _)
  obtain ⟨sub, hsub, hparts⟩ := List.mem_map.mp (hchildren ▸ List.mem_singleton_self _)
  obtain ⟨hclass, hparts⟩ := Prod.mk.inj hparts
  obtain ⟨habs, hbelow⟩ := Prod.mk.inj hparts
  rw [← hclass] at hrole
  have hbranch : t.Branch [t.root] sub := by
    obtain ⟨n, children⟩ := t
    exact .down hsub (.here sub)
  have hcomplete := (dispatch_complete ⟨.serialized, 8⟩ renderedViews).2 t
    (List.mem_append_left _ ht) _ _ hbranch habs (by simp) hrole
  exact ⟨t, ht, sub, hsub, hbranch, habs, hrole, hbelow, hcomplete.2.1⟩

end CallForest
