import CallForest.Proofs.Branch
import CallForest.Proofs.PathText

/-!
# What the serialized guard does about recursion

The serialized guard looks for the signature of a call in the text of the path. If the signature is
found in its own JSON form, then it is found in the text of every path it stands on, and a call that
would repeat it is refused: recursion of any length is cut at the first repetition. A signature with
a quote, a backslash or a control character in it may not be found in its own form. Then the guard
does not see that the method calls itself, and the call stands under the method again and again down
to the depth limit.

## Main definitions

* `selfCalling` — a method whose only call is to itself.

## Main results

* `Assembly.signature_ne_of_child` — what is found in its own form is never repeated;
* `exists_repeated_child` — a method that calls itself is repeated if it is not found;
* `serialized_cuts_recursion` — both together, for all trees.
-/

namespace CallForest

/-- A signature that is found in its own form is refused on every path it stands on. -/
theorem not_admits_of_verbatim {path : List Frame} {f : Frame} (hf : f ∈ path)
    (hverbatim : Json.Verbatim f.signature) :
    CycleGuard.admits .serialized path f.signature = false := by
  have hfound : f.signature.toList <:+: pathText path :=
    List.IsInfix.trans hverbatim (form_signature_infix_pathText hf)
  rw [CycleGuard.admits, Text.occursIn_iff.mpr hfound, Bool.not_true]

/-- Under a node that is not abstract nothing repeats the node or a node above it, as long as
signatures are found in their own form. -/
theorem Assembly.signature_ne_of_child {maxDepth : Nat} {records : List MethodRecord}
    {t sub child : CallTree} {above : List CallNode}
    (ht : t ∈ (assemble ⟨.serialized, maxDepth⟩ records).http ++
      (assemble ⟨.serialized, maxDepth⟩ records).rpc)
    (hbranch : t.Branch above sub) (hconcrete : sub.root.isAbstract = false)
    (hchild : child ∈ sub.children) (hverbatim : Json.Verbatim child.root.signature) :
    ∀ n ∈ above ++ [sub.root], n.signature ≠ child.root.signature := by
  intro n hn hsame
  obtain ⟨trail, hpath, hbelow⟩ := child_mem_below ht hbranch hchild
  have habs : ¬ (graphOf records).isAbstract sub.root.signature = true := by
    rw [← isAbstract_eq ht _ hbranch.root_mem_nodes, hconcrete]
    exact Bool.false_ne_true
  rw [CallGraph.below_of_not_isAbstract habs] at hbelow
  obtain ⟨site, -, hadmits, hroot⟩ := CallGraph.mem_calls hbelow
  have hsite : child.root.signature = site.signature := congrArg CallNode.signature hroot
  have hframe : n.frame ∈ trail.path := by
    rw [hpath]
    exact List.mem_map_of_mem hn
  have hsig : n.frame.signature = site.signature := hsame.trans hsite
  have hrefused := not_admits_of_verbatim hframe (hsig ▸ hsite ▸ hverbatim)
  rw [hsig, hadmits] at hrefused
  exact Bool.noConfusion hrefused

/-! ### Methods that call themselves -/

/-- A method of a remote service whose only call is to itself. -/
def selfCalling (owner name descriptor : String) (parameters : List String) : MethodRecord where
  signature := methodSignature owner name descriptor
  name := name
  descriptor := descriptor
  parameters := parameters
  owner := { name := owner }
  entryKind := .rpc
  callees := [⟨methodSignature owner name descriptor, owner, name, descriptor, parameters⟩]

section SelfCalling

variable {owner name descriptor : String} {parameters : List String} {maxDepth : Nat}

/-- A hash mark stands between the class and the method. -/
theorem hash_mem_methodSignature : '#' ∈ (methodSignature owner name descriptor).toList := by
  simp [methodSignature]

/-- A signature that is not found in its own form is admitted under itself, if there are no further
hash marks. -/
theorem admits_of_not_verbatim {f : Frame} (hmapping : f.mappingPath = none)
    (hsignature : '#' ∈ f.signature.toList) (hclass : '#' ∉ f.className.toList)
    (hmethod : '#' ∉ f.methodName.toList) (hparameters : ∀ p ∈ f.parameters, '#' ∉ p.toList)
    (hverbatim : ¬ Json.Verbatim f.signature) :
    CycleGuard.admits .serialized [f] f.signature = true := by
  obtain ⟨before, after, htext, hbefore, hafter⟩ := exists_pathText_singleton f hmapping
  rw [CycleGuard.admits, Bool.not_eq_true', ← Bool.not_eq_true, Text.occursIn_iff, htext]
  intro hfound
  apply hverbatim
  refine Json.keeps_hash.infix_of_infix_around hsignature hbefore ?_ hfound
  intro hin
  rcases hafter hin with hin | hin | ⟨p, hp, hin⟩
  · exact hclass hin
  · exact hmethod hin
  · exact hparameters p hp hin

/-- The guard lets a method that calls itself stand under itself if its signature is not found in
its own form. -/
theorem exists_repeated_child (howner : '#' ∉ owner.toList) (hname : '#' ∉ name.toList)
    (hparameters : ∀ p ∈ parameters, '#' ∉ p.toList) (hdepth : 2 ≤ maxDepth)
    (hverbatim : ¬ Json.Verbatim (methodSignature owner name descriptor)) :
    ∃ t ∈ (Assembly.assemble ⟨.serialized, maxDepth⟩
        [selfCalling owner name descriptor parameters]).rpc,
      t.root.isAbstract = false ∧
        ∃ child ∈ t.children, child.root.signature = t.root.signature := by
  let r := selfCalling owner name descriptor parameters
  let here := Trail.empty.push r.rootNode.frame
  have hrecord : recordOf? [r] r.signature = some r := by simp [recordOf?]
  have hlatest : r ∈ latest [r] := mem_latest.mpr hrecord
  have habs : ¬ (graphOf [r]).isAbstract r.rootNode.signature = true := by
    rw [r.signature_rootNode, Assembly.isAbstract_of_mem_latest hlatest]
    exact Bool.false_ne_true
  have hadmits : CycleGuard.admits .serialized here.path r.signature = true := by
    rw [Trail.path_push]
    exact admits_of_not_verbatim rfl hash_mem_methodSignature howner hname hparameters hverbatim
  have hcalled : ∃ c ∈ (graphOf [r]).calls .serialized here r.rootNode,
      c.signature = r.signature := by
    have hcallees := mem_callees_graphOf.mpr ⟨r, hrecord, List.mem_singleton_self _⟩
    rw [← r.signature_rootNode] at hcallees
    exact CallGraph.exists_mem_calls hcallees hadmits
  obtain ⟨c, hc, hsig⟩ := hcalled
  rw [← CallGraph.below_of_not_isAbstract habs] at hc
  obtain ⟨levels, hlevels⟩ : ∃ levels, max 1 maxDepth - 1 = levels + 1 :=
    ⟨maxDepth - 2, by omega⟩
  obtain ⟨child, hchild, rfl⟩ := CallGraph.exists_child_of_mem_below hc
  refine ⟨Assembly.tree ⟨.serialized, maxDepth⟩ (graphOf [r]) r, ?_, ?_, child, ?_, ?_⟩
  · rw [Assembly.rpc_assemble]
    exact List.mem_map_of_mem (List.mem_filter.mpr ⟨hlatest, rfl⟩)
  · rw [Assembly.root_tree]
    rfl
  · rw [Assembly.tree, hlevels]
    exact hchild
  · rw [Assembly.root_tree, r.signature_rootNode, hsig]

/-- A method that calls itself stands under itself exactly when its signature is not found in its
own form. -/
theorem repeated_child_iff (howner : '#' ∉ owner.toList) (hname : '#' ∉ name.toList)
    (hparameters : ∀ p ∈ parameters, '#' ∉ p.toList) (hdepth : 2 ≤ maxDepth) :
    (∃ t ∈ (Assembly.assemble ⟨.serialized, maxDepth⟩
        [selfCalling owner name descriptor parameters]).rpc,
      t.root.isAbstract = false ∧
        ∃ child ∈ t.children, child.root.signature = t.root.signature) ↔
    ¬ Json.Verbatim (methodSignature owner name descriptor) := by
  constructor
  · rintro ⟨t, ht, hconcrete, child, hchild, hsame⟩ hverbatim
    have hmem := List.mem_append_right
      (Assembly.assemble ⟨.serialized, maxDepth⟩
        [selfCalling owner name descriptor parameters]).http ht
    have hroot : t.root.signature = methodSignature owner name descriptor := by
      obtain ⟨r, hr, rfl⟩ := Assembly.exists_record_of_mem hmem
      obtain rfl := List.mem_singleton.mp (latest_subset _ hr)
      rw [Assembly.root_tree, MethodRecord.signature_rootNode]
      rfl
    rw [← hroot, ← hsame] at hverbatim
    exact Assembly.signature_ne_of_child hmem (.here t) hconcrete hchild hverbatim t.root
      (List.mem_singleton_self _) hsame.symm
  · exact exists_repeated_child howner hname hparameters hdepth

end SelfCalling

/-- With the serialized guard and any depth limit, no child of a node that is not abstract has the
signature of the node or of a node above it, if that signature is found in its own JSON form. All
signatures without quotes, backslashes and control characters are. The condition is exact: a method
that calls itself stands under itself just when its signature is not found in its own form. -/
theorem serialized_cuts_recursion (maxDepth : Nat) :
    (∀ records : List MethodRecord,
      ∀ t ∈ (Assembly.assemble ⟨.serialized, maxDepth⟩ records).http ++
        (Assembly.assemble ⟨.serialized, maxDepth⟩ records).rpc,
      ∀ above sub child, t.Branch above sub → child ∈ sub.children →
        sub.root.isAbstract = false → Json.Verbatim child.root.signature →
        ∀ n ∈ above ++ [sub.root], n.signature ≠ child.root.signature) ∧
      (∀ signature, Json.IsPlain signature → Json.Verbatim signature) ∧
      ∀ owner name descriptor parameters, '#' ∉ owner.toList → '#' ∉ name.toList →
        (∀ p ∈ parameters, '#' ∉ p.toList) → 2 ≤ maxDepth →
        ((∃ t ∈ (Assembly.assemble ⟨.serialized, maxDepth⟩
            [selfCalling owner name descriptor parameters]).rpc,
          t.root.isAbstract = false ∧
            ∃ child ∈ t.children, child.root.signature = t.root.signature) ↔
        ¬ Json.Verbatim (methodSignature owner name descriptor)) := by
  refine ⟨?_, ?_, ?_⟩
  · intro records t ht above sub child hbranch hchild hconcrete hverbatim
    exact Assembly.signature_ne_of_child ht hbranch hconcrete hchild hverbatim
  · intro signature hplain
    exact Json.verbatim_of_isPlain hplain
  · intro owner name descriptor parameters howner hname hparameters hdepth
    exact repeated_child_iff howner hname hparameters hdepth

/-- Two methods that call each other. -/
def mutualCalls : List MethodRecord :=
  [{ signature := "a/Even#test()", name := "test", descriptor := "()V", parameters := [],
     owner := { name := "a/Even" }, entryKind := .http,
     callees := [⟨"a/Odd#test()", "a/Odd", "test", "()V", []⟩] },
   { signature := "a/Odd#test()", name := "test", descriptor := "()V", parameters := [],
     owner := { name := "a/Odd" },
     callees := [⟨"a/Even#test()", "a/Even", "test", "()V", []⟩] }]

theorem serialized_cuts_recursion_mutualCalls :
    (Assembly.assemble ⟨.serialized, 8⟩ mutualCalls).http.map CallTree.size = [2] ∧
      Json.Verbatim "a/Even#test()" ∧
      ∀ t ∈ (Assembly.assemble ⟨.serialized, 8⟩ mutualCalls).http, ∀ above sub child,
        t.Branch above sub → child ∈ sub.children → sub.root.isAbstract = false →
        child.root.signature = "a/Even#test()" →
        ∀ n ∈ above ++ [sub.root], n.signature ≠ "a/Even#test()" := by
  have hverbatim : Json.Verbatim "a/Even#test()" := by decide
  refine ⟨by decide, hverbatim, ?_⟩
  intro t ht above sub child hbranch hchild hconcrete hsig
  rw [← hsig] at hverbatim ⊢
  exact (serialized_cuts_recursion 8).1 mutualCalls t (List.mem_append_left _ ht) above sub child
    hbranch hchild hconcrete hverbatim

/-- A method with a quote in its name that calls itself is put under itself. -/
theorem serialized_misses_quoted_name :
    ¬ ∀ t ∈ (Assembly.assemble ⟨.serialized, 3⟩
        [selfCalling "shop/Orders" "retry \"now\"" "()V" []]).rpc,
      ∀ above sub child, t.Branch above sub → child ∈ sub.children →
        sub.root.isAbstract = false →
        ∀ n ∈ above ++ [sub.root], n.signature ≠ child.root.signature := by
  intro h
  have hverbatim : ¬ Json.Verbatim (methodSignature "shop/Orders" "retry \"now\"" "()V") := by
    decide
  have hparameters : ∀ p ∈ ([] : List String), '#' ∉ p.toList := by simp
  have hdepth : 2 ≤ 3 := by decide
  obtain ⟨t, ht, hconcrete, child, hchild, hsame⟩ :=
    exists_repeated_child (by decide) (by decide) hparameters hdepth hverbatim
  exact h t ht [] t child (.here t) hchild hconcrete t.root (List.mem_singleton_self _) hsame.symm

end CallForest
