import CallForest.Assembly
import Mathlib.Data.List.Induction
import Mathlib.Data.List.Perm.Basic
import Mathlib.Data.List.Sort

/-!
# What the indices hold

The indices over a list of records are maps that are filled one record at a time. Here each of them
is read off the list itself: a signature leads to its last record, and a class name leads to the
records of the classes that implement it, or else of those that extend it.

## Main definitions

* `recordOf?` — the last record of a signature;
* `graphOf` — the graph in which the trees of a list of records grow.

## Main results

* `mem_latest`, `pairwise_latest`, `recordOf?_latest` — keeping the latest records keeps the last
  record of each signature, in ascending order;
* `callees_graphOf`, `isAbstract_graphOf` — calls and abstract methods by their last record;
* `DispatchIndex.implementations_build` — the implementations of a name.
-/

namespace CallForest

/-- The last record of a signature. -/
def recordOf? (records : List MethodRecord) (signature : String) : Option MethodRecord :=
  records.reverse.find? (·.signature = signature)

section RecordOf

variable {records : List MethodRecord} {r : MethodRecord} {s : String}

@[simp]
theorem recordOf?_nil : recordOf? [] s = none := rfl

/-- The last record of a signature is the one that counts. -/
@[simp]
theorem recordOf?_append_singleton :
    recordOf? (records ++ [r]) s = if r.signature = s then some r else recordOf? records s := by
  by_cases h : r.signature = s <;> simp [recordOf?, h]

theorem mem_of_recordOf? (h : recordOf? records s = some r) : r ∈ records ∧ r.signature = s := by
  have hmem := List.mem_of_find?_eq_some h
  have hsig := List.find?_some h
  exact ⟨by simpa using hmem, by simpa using hsig⟩

theorem recordOf?_isSome_iff :
    (recordOf? records s).isSome ↔ ∃ r ∈ records, r.signature = s := by
  simp [recordOf?, List.find?_isSome]

end RecordOf

/-! ### The latest records -/

/-- Filling a map with a value for each record leaves the value of the last record. -/
theorem getElem?_foldl_insert {β : Type} (value : MethodRecord → β) (records : List MethodRecord)
    (s : String) :
    (records.foldl (fun kept r => kept.insert r.signature (value r))
      (∅ : Std.TreeMap String β))[s]? = (recordOf? records s).map value := by
  -- The last record decides, so the induction takes records off the end.
  induction records using List.reverseRecOn with
  | nil => simp
  | append_singleton records r ih =>
    rw [List.foldl_append, List.foldl_cons, List.foldl_nil, Std.TreeMap.getElem?_insert, ih,
      recordOf?_append_singleton]
    by_cases h : r.signature = s <;> simp [h, Std.LawfulEqCmp.compare_eq_iff_eq]

theorem values_eq_map_toList {β : Type} (map : Std.TreeMap String β) :
    map.values = map.toList.map (·.2) := by
  -- The two are related only through the representation of the map.
  change map.inner.inner.values =
    (Std.DTreeMap.Internal.Impl.Const.toList map.inner.inner).map (·.2)
  rw [Std.DTreeMap.Internal.Impl.values_eq_map_snd,
    Std.DTreeMap.Internal.Impl.Const.toList_eq_toListModel_map]
  simp

/-- The latest records are those that their own signatures find. -/
theorem mem_latest {records : List MethodRecord} {r : MethodRecord} :
    r ∈ latest records ↔ recordOf? records r.signature = some r := by
  have key (s : String) := getElem?_foldl_insert id records s
  simp only [id_eq, Option.map_id] at key
  simp only [latest, values_eq_map_toList, List.mem_map, Prod.exists,
    Std.TreeMap.mem_toList_iff_getElem?_eq_some, key]
  constructor
  · rintro ⟨s, q, hq, rfl⟩
    rwa [(mem_of_recordOf? hq).2]
  · intro h
    exact ⟨r.signature, r, h, rfl⟩

/-- The latest records stand in strictly ascending order of their signatures. -/
theorem pairwise_latest (records : List MethodRecord) :
    (latest records).Pairwise fun a b => compare a.signature b.signature = .lt := by
  have key (s : String) := getElem?_foldl_insert id records s
  simp only [id_eq, Option.map_id] at key
  rw [latest, values_eq_map_toList, List.pairwise_map]
  refine List.Pairwise.imp_of_mem ?_ Std.TreeMap.ordered_keys_toList
  rintro ⟨s, a⟩ ⟨t, b⟩ ha hb hlt
  rw [Std.TreeMap.mem_toList_iff_getElem?_eq_some, key] at ha hb
  rw [(mem_of_recordOf? ha).2, (mem_of_recordOf? hb).2]
  exact hlt

theorem latest_subset (records : List MethodRecord) : latest records ⊆ records :=
  fun _ hr => (mem_of_recordOf? (mem_latest.mp hr)).1

/-- Two ascending lists of records with the same members are equal. -/
theorem eq_of_ascending {l₁ l₂ : List MethodRecord}
    (h₁ : l₁.Pairwise fun a b => compare a.signature b.signature = .lt)
    (h₂ : l₂.Pairwise fun a b => compare a.signature b.signature = .lt)
    (hmem : ∀ r, r ∈ l₁ ↔ r ∈ l₂) : l₁ = l₂ := by
  have hne {l : List MethodRecord}
      (h : l.Pairwise fun a b => compare a.signature b.signature = .lt) : l.Nodup := by
    refine h.imp ?_
    rintro a b hlt rfl
    simp at hlt
  have hperm : l₁.Perm l₂ := (List.perm_ext_iff_of_nodup (hne h₁) (hne h₂)).mpr hmem
  refine hperm.eq_of_pairwise ?_ h₁ h₂
  intro a b _ _ hab hba
  have hgt := Std.OrientedCmp.gt_of_lt hab
  rw [hba] at hgt
  cases hgt

/-- Among the latest records a signature has one record, which is its last. -/
theorem recordOf?_latest (records : List MethodRecord) (s : String) :
    recordOf? (latest records) s = recordOf? records s := by
  cases h : recordOf? records s with
  | some r =>
    obtain ⟨-, rfl⟩ := mem_of_recordOf? h
    have hsome : (recordOf? (latest records) r.signature).isSome :=
      recordOf?_isSome_iff.mpr ⟨r, mem_latest.mpr h, rfl⟩
    obtain ⟨q, hq⟩ := Option.isSome_iff_exists.mp hsome
    have hlast := mem_latest.mp (mem_of_recordOf? hq).1
    rw [(mem_of_recordOf? hq).2, h] at hlast
    rw [hq, ← hlast]
  | none =>
    rw [← Option.not_isSome_iff_eq_none, recordOf?_isSome_iff]
    rintro ⟨r, hr, rfl⟩
    rw [mem_latest.mp hr] at h
    cases h

/-! ### Calls and abstract methods -/

/-- The graph in which the trees of a list of records grow. -/
def graphOf (records : List MethodRecord) : CallGraph :=
  .ofRecords (latest records)

theorem CallIndex.callees_build (records : List MethodRecord) (s : String) :
    (CallIndex.build records).callees s = ((recordOf? records s).map (·.callees)).getD [] := by
  rw [CallIndex.callees, CallIndex.build, Std.TreeMap.getD_eq_getD_getElem?,
    getElem?_foldl_insert]

/-- A method calls what its last record says, and nothing if it has none. -/
theorem callees_graphOf (records : List MethodRecord) (s : String) :
    (graphOf records).index.callees s = ((recordOf? records s).map (·.callees)).getD [] := by
  rw [graphOf, CallGraph.ofRecords, CallIndex.callees_build, recordOf?_latest]

theorem CallGraph.isAbstract_ofRecords (records : List MethodRecord) (s : String) :
    (CallGraph.ofRecords records).isAbstract s = true ↔
      ∃ r ∈ records, r.isAbstract = true ∧ r.signature = s := by
  simp only [isAbstract, ofRecords]
  induction records using List.reverseRecOn with
  | nil => simp
  | append_singleton records r ih =>
    rw [List.foldl_append, List.foldl_cons, List.foldl_nil]
    by_cases h : r.isAbstract = true
    · simp only [h, if_true, Std.TreeSet.contains_insert, Bool.or_eq_true, ih, beq_iff_eq,
        Std.LawfulEqCmp.compare_eq_iff_eq, List.mem_append, List.mem_singleton]
      grind
    · simp only [h, Bool.false_eq_true, if_false, ih, List.mem_append, List.mem_singleton]
      grind

/-- A method is abstract if its last record says so. -/
theorem isAbstract_graphOf {records : List MethodRecord} {s : String} :
    (graphOf records).isAbstract s = true ↔
      ∃ r, recordOf? records s = some r ∧ r.isAbstract = true := by
  rw [graphOf, CallGraph.isAbstract_ofRecords]
  constructor
  · rintro ⟨r, hr, habs, rfl⟩
    exact ⟨r, mem_latest.mp hr, habs⟩
  · rintro ⟨r, hr, habs⟩
    obtain ⟨-, rfl⟩ := mem_of_recordOf? hr
    exact ⟨r, mem_latest.mpr hr, habs, rfl⟩

/-! ### Implementations -/

namespace DispatchIndex

/-- Putting entries into groups one by one collects, under each name, its entries in order. -/
theorem getElem?_foldl_put (entries : List (String × MethodRecord)) (name : String) :
    (entries.foldl (fun groups e => put groups e.1 e.2) ∅)[name]? =
      if name ∈ entries.map (·.1) then some ((entries.filter (·.1 = name)).map (·.2))
      else none := by
  induction entries using List.reverseRecOn with
  | nil => simp
  | append_singleton entries e ih =>
    rw [List.foldl_append, List.foldl_cons, List.foldl_nil, put, Std.TreeMap.getElem?_insert,
      Std.TreeMap.getD_eq_getD_getElem?]
    by_cases h : e.1 = name
    · subst h
      rw [ih]
      by_cases hmem : e.1 ∈ entries.map (·.1)
      · simp [hmem]
      · have hnone : entries.filter (·.1 = e.1) = [] := by
          rw [List.filter_eq_nil_iff]
          intro q hq heq
          exact hmem (List.mem_map.mpr ⟨q, hq, by simpa using heq⟩)
        simp [hmem, hnone]
    · have hsame : name ∈ (entries ++ [e]).map (·.1) ↔ name ∈ entries.map (·.1) := by
        simp [Ne.symm h]
      simp only [hsame, ih, List.filter_append]
      simp [h, Std.LawfulEqCmp.compare_eq_iff_eq]

theorem bySuper_eq (records : List MethodRecord) :
    bySuper records =
      ((records.filter fun r => !Text.isBlankText r.owner.superName).map
        fun r => (r.owner.superName, r)).foldl (fun groups e => put groups e.1 e.2) ∅ := by
  rw [List.foldl_map, List.foldl_filter, bySuper]
  congr 1
  funext groups r
  cases Text.isBlankText r.owner.superName <;> simp

theorem byInterface_eq (records : List MethodRecord) :
    byInterface records =
      (records.flatMap fun r => r.owner.interfaces.map fun name => (name, r)).foldl
        (fun groups e => put groups e.1 e.2) ∅ := by
  rw [List.foldl_flatMap, byInterface]
  congr 1
  funext groups r
  rw [List.foldl_map]

/-- Inserting all entries of one map into another lets the first decide where it has an entry. -/
theorem getElem?_foldl_insert_all (front back : Std.TreeMap String (List MethodRecord))
    (name : String) :
    (front.foldl (fun all name group => all.insert name group) back)[name]? =
      front[name]?.or back[name]? := by
  have run (entries : List (String × List MethodRecord)) :
      (entries.foldl (fun all e => all.insert e.1 e.2) back)[name]? =
        ((entries.reverse.find? (·.1 = name)).map (·.2)).or back[name]? := by
    induction entries using List.reverseRecOn with
    | nil => simp
    | append_singleton entries e ih =>
      rw [List.foldl_append, List.foldl_cons, List.foldl_nil, Std.TreeMap.getElem?_insert, ih]
      by_cases h : e.1 = name <;> simp [h, Std.LawfulEqCmp.compare_eq_iff_eq]
  rw [Std.TreeMap.foldl_eq_foldl_toList, run]
  congr 1
  cases hfind : front.toList.reverse.find? (·.1 = name) with
  | some e =>
    have hmem : e ∈ front.toList := by simpa using List.mem_of_find?_eq_some hfind
    have hname : e.1 = name := by simpa using List.find?_some hfind
    subst hname
    exact (Std.TreeMap.mem_toList_iff_getElem?_eq_some.mp hmem).symm
  | none =>
    cases hget : front[name]? with
    | none => rfl
    | some group =>
      have hmem := Std.TreeMap.mem_toList_iff_getElem?_eq_some.mpr hget
      have := List.find?_eq_none.mp hfind (name, group) (by simpa using hmem)
      simp at this

/-- A name that some class lists as an interface stands for the records of the classes that list
it, once for each time; any other name stands for the records of the classes that extend it. -/
theorem implementations_build (records : List MethodRecord) (name : String) :
    (build records).implementations name =
      if ∃ r ∈ records, name ∈ r.owner.interfaces then
        records.flatMap fun r => List.replicate (r.owner.interfaces.count name) r
      else
        records.filter fun r =>
          !Text.isBlankText r.owner.superName && r.owner.superName = name := by
  -- A class that lists the name several times is entered as many times.
  have hinner (r : MethodRecord) :
      ((r.owner.interfaces.map fun i => (i, r)).filter (·.1 = name)).map (·.2) =
        List.replicate (r.owner.interfaces.count name) r := by
    rw [List.filter_map, List.map_map, List.count_eq_length_filter]
    simp [Function.comp_def, List.map_const', beq_eq_decide]
  have hused :
      (name ∈ (records.flatMap fun r => r.owner.interfaces.map fun i => (i, r)).map (·.1)) ↔
      ∃ r ∈ records, name ∈ r.owner.interfaces := by
    simp
  rw [implementations, build, Std.TreeMap.getD_eq_getD_getElem?, getElem?_foldl_insert_all,
    byInterface_eq, bySuper_eq, getElem?_foldl_put, getElem?_foldl_put]
  by_cases h : ∃ r ∈ records, name ∈ r.owner.interfaces
  · rw [if_pos (hused.mpr h), if_pos h]
    simp only [Option.some_or, Option.getD_some, List.filter_flatMap, List.map_flatMap, hinner]
  · rw [if_neg (mt hused.mp h), if_neg h]
    simp only [Option.none_or, List.filter_map, List.map_map, List.filter_filter]
    split
    · simp [Function.comp_def, Bool.and_comm]
    · rename_i hsuper
      symm
      rw [Option.getD_none, List.filter_eq_nil_iff]
      intro r hr hboth
      simp only [Bool.and_eq_true, decide_eq_true_eq] at hboth
      exact hsuper (List.mem_map.mpr ⟨r, List.mem_filter.mpr ⟨hr, hboth.1⟩, hboth.2⟩)

/-- What stands for a name are records of classes directly below it. -/
theorem mem_of_mem_implementations {records : List MethodRecord} {name : String} {m : MethodRecord}
    (h : m ∈ (build records).implementations name) :
    m ∈ records ∧ (m.owner.superName = name ∨ name ∈ m.owner.interfaces) := by
  rw [implementations_build] at h
  split at h
  · obtain ⟨r, hr, hrep⟩ := List.mem_flatMap.mp h
    obtain ⟨hcount, rfl⟩ := List.mem_replicate.mp hrep
    exact ⟨hr, .inr (List.count_pos_iff.mp (Nat.pos_of_ne_zero hcount))⟩
  · obtain ⟨hm, hboth⟩ := List.mem_filter.mp h
    simp only [Bool.and_eq_true, decide_eq_true_eq] at hboth
    exact ⟨hm, .inl hboth.2⟩

end DispatchIndex

end CallForest
