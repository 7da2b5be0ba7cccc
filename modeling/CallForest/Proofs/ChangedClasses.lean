import CallForest.ChangeSet
import Mathlib.Data.Fintype.EquivFin
import Mathlib.Data.List.TakeWhile
import Mathlib.Data.Set.Finite.Basic

/-!
# The classes of a change

A change set holds classes, and it touches a class if it holds that class or the outermost class
around it. The classes in between do not count: names nest to any depth, but only what stands before
the first `$` is looked up. So a change to a class touches everything nested in it as long as each
class of the set comes with its outermost class, and in no other case, since there is always room
for one more class inside a nested one.

## Main definitions

* `ChangeSet.Encloses` — a class is nested in another one, at any depth.

## Main results

* `ChangeSet.mem_classes_ofPaths` — the classes of files;
* `ChangeSet.outermost_of_encloses` — what is nested in a class has its outermost class;
* `ChangeSet.touches_exact` — which classes are touched, and when this is everything nested in a
  class of the set.
-/

namespace CallForest.ChangeSet

variable {s : ChangeSet} {name outer path : String}

/-! ### Members -/

theorem mem_classes : name ∈ s.classes ↔ s.names.contains name = true :=
  Std.TreeSet.mem_toList.trans Std.TreeSet.contains_iff_mem.symm

/-- A path adds the class that it stands for, and takes none away. -/
theorem mem_classes_addPath :
    name ∈ (s.addPath path).classes ↔ name ∈ s.classes ∨ classOfPath? path = some name := by
  unfold addPath
  cases hclass : classOfPath? path with
  | none => simp
  | some found =>
    simp only [mem_classes, Std.TreeSet.contains_insert, Bool.or_eq_true, beq_iff_eq,
      Std.LawfulEqCmp.compare_eq_iff_eq, Option.some.injEq]
    exact or_comm

/-- The classes of files are those that the files belong to. -/
theorem mem_classes_ofPaths {paths : List String} :
    name ∈ (ofPaths paths).classes ↔ ∃ path ∈ paths, classOfPath? path = some name := by
  -- The set grows from path to path, so the induction is for any set to begin with.
  have run (s : ChangeSet) : name ∈ (paths.foldl addPath s).classes ↔
      name ∈ s.classes ∨ ∃ path ∈ paths, classOfPath? path = some name := by
    induction paths generalizing s with
    | nil => simp
    | cons path rest ih => simp [ih, mem_classes_addPath, or_assoc]
  rw [ofPaths, run]
  exact or_iff_right List.not_mem_nil

/-- A class is touched by its own change, or by one of the class in which all of it is written. -/
theorem touches_iff :
    s.touches name = true ↔ name ∈ s.classes ∨ outermost name ∈ s.classes := by
  rw [touches, Bool.or_eq_true, mem_classes, mem_classes]

/-! ### Nested classes -/

/-- The first class is the second one without one of its `$` and what follows it, so the second one
is nested in it. -/
def Encloses (outer name : String) : Prop :=
  ∃ rest, name = outer ++ "$" ++ rest

theorem takeWhile_append_dollar (front rest : List Char) :
    (front ++ '$' :: rest).takeWhile (· ≠ '$') = front.takeWhile (· ≠ '$') := by
  induction front with
  | nil => rfl
  | cons c front ih => rw [List.cons_append, List.takeWhile_cons, List.takeWhile_cons, ih]

/-- What is nested in a class has the same outermost class. -/
theorem outermost_of_encloses (h : Encloses outer name) : outermost name = outermost outer := by
  obtain ⟨rest, rfl⟩ := h
  have hsplit : (outer ++ "$" ++ rest).toList = outer.toList ++ '$' :: rest.toList := by simp
  rw [outermost, outermost, hsplit, takeWhile_append_dollar]

theorem dollar_not_mem_outermost : '$' ∉ (outermost name).toList := by
  intro hmem
  rw [outermost, String.toList_ofList] at hmem
  simpa using List.mem_takeWhile_imp hmem

/-- A class that is not nested is its own outermost class. -/
theorem outermost_eq_self (h : '$' ∉ name.toList) : outermost name = name := by
  have hall : name.toList.takeWhile (· ≠ '$') = name.toList := by
    rw [List.takeWhile_eq_self_iff]
    intro c hc
    simpa using ne_of_mem_of_not_mem hc h
  rw [outermost, hall, String.ofList_toList]

/-- A class is its own outermost class, or else nested in it. -/
theorem outermost_eq_or_encloses (name : String) :
    outermost name = name ∨ Encloses (outermost name) name := by
  by_cases h : '$' ∈ name.toList
  · obtain ⟨front, rest, hsplit, hfront⟩ := List.eq_append_cons_of_mem h
    have hname : name = String.ofList front ++ "$" ++ String.ofList rest := by
      simp [← String.toList_inj, hsplit]
    have hfirst : outermost name = String.ofList front := by
      rw [outermost_of_encloses ⟨_, hname⟩, outermost_eq_self (by simpa using hfront)]
    exact .inr ⟨String.ofList rest, hfirst ▸ hname⟩
  · exact .inl (outermost_eq_self h)

/-- A class is touched if it is in the set or nested in a class of the set that is not nested
itself. -/
theorem touches_iff_encloses : s.touches name = true ↔
    name ∈ s.classes ∨ ∃ outer ∈ s.classes, Encloses outer name ∧ '$' ∉ outer.toList := by
  rw [touches_iff]
  constructor
  · rintro (hmem | hmem)
    · exact .inl hmem
    · rcases outermost_eq_or_encloses name with heq | hencloses
      · exact .inl (heq ▸ hmem)
      · exact .inr ⟨_, hmem, hencloses, dollar_not_mem_outermost⟩
  · rintro (hmem | ⟨outer, hmem, hencloses, hdollar⟩)
    · exact .inl hmem
    · rw [outermost_of_encloses hencloses, outermost_eq_self hdollar]
      exact .inr hmem

/-- There is room in a class for one more that is not in the set. -/
theorem exists_encloses_not_mem (s : ChangeSet) (outer : String) :
    ∃ name, Encloses outer name ∧ name ∉ s.classes := by
  have hinjective : Function.Injective fun rest => outer ++ "$" ++ rest := by
    intro rest rest' heq
    simpa [← String.toList_inj] using heq
  obtain ⟨name, ⟨rest, rfl⟩, hfresh⟩ :=
    (Set.infinite_range_of_injective hinjective).exists_notMem_finset s.classes.toFinset
  exact ⟨_, ⟨rest, rfl⟩, mt List.mem_toFinset.mpr hfresh⟩

/-- Everything that is nested in a class of the set is touched, and nothing else besides the
classes of the set, if and only if the outermost class of each class of the set is in it. -/
theorem touches_nested_iff :
    (∀ name, s.touches name = true ↔
      name ∈ s.classes ∨ ∃ outer ∈ s.classes, Encloses outer name) ↔
    ∀ name ∈ s.classes, outermost name ∈ s.classes := by
  constructor
  · intro hnested outer hmem
    -- A new class inside is touched, so the outermost class around both must be in the set.
    obtain ⟨name, hencloses, hfresh⟩ := exists_encloses_not_mem s outer
    have htouched : s.touches name = true := (hnested name).mpr (.inr ⟨outer, hmem, hencloses⟩)
    rw [← outermost_of_encloses hencloses]
    exact (touches_iff.mp htouched).resolve_left hfresh
  · intro hclosed name
    rw [touches_iff_encloses]
    constructor
    · rintro (hmem | ⟨outer, hmem, hencloses, -⟩)
      · exact .inl hmem
      · exact .inr ⟨outer, hmem, hencloses⟩
    · rintro (hmem | ⟨outer, hmem, hencloses⟩)
      · exact .inl hmem
      · rw [← touches_iff_encloses, touches_iff, outermost_of_encloses hencloses]
        exact .inr (hclosed outer hmem)

/-- For every change set, the classes that are touched are those of the set and those that are
nested in a class of the set which is not nested itself. These are all classes that are nested in a
class of the set, at any depth, if and only if the set has the outermost class of each of its
classes. -/
theorem touches_exact (s : ChangeSet) :
    (∀ name, s.touches name = true ↔
      name ∈ s.classes ∨ ∃ outer ∈ s.classes, Encloses outer name ∧ '$' ∉ outer.toList) ∧
    ((∀ name, s.touches name = true ↔
      name ∈ s.classes ∨ ∃ outer ∈ s.classes, Encloses outer name) ↔
    ∀ name ∈ s.classes, outermost name ∈ s.classes) :=
  ⟨fun _ => touches_iff_encloses, touches_nested_iff⟩

/-- A change to a nested class does not touch the class that is nested in it. -/
theorem not_touches_of_innerClass :
    (addClass {} "a.Outer$Inner").classes = ["a/Outer$Inner"] ∧
      Encloses "a/Outer$Inner" "a/Outer$Inner$Deep" ∧
      (addClass {} "a.Outer$Inner").touches "a/Outer$Inner$Deep" = false := by
  refine ⟨?_, ⟨"Deep", rfl⟩, ?_⟩ <;> decide

end CallForest.ChangeSet
