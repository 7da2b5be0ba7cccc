import CallForest.Method.Record
import Mathlib.Data.List.Induction
import Mathlib.Data.List.Nodup

/-!
# The first call of each signature

A method may call another in several places, and of all calls with one signature the first is kept.
Which calls are kept is decided while they are gone through, by the signatures seen so far. Here the
same calls are told by their places: a call is kept if no call before it has its signature.

## Main definitions

* `firstOfEach` — the members of a list before which no member has the same key.

## Main results

* `mem_firstOfEach` — a member is kept if it is the first that is found under its key;
* `nodup_map_firstOfEach` — no key is kept twice;
* `CallSite.distinct_eq_firstOfEach` — the calls that are kept are the first of their signatures;
* `CallSite.mem_distinct_iff`, `CallSite.exists_mem_distinct` — which calls are kept.
-/

namespace CallForest

/-! ### Members by their places -/

section FirstOfEach

variable {α β κ : Type} [DecidableEq κ] {key : α → κ} {l : List α} {a : α}

/-- The members of a list before which no member has the same key, in their order. -/
def firstOfEach (key : α → κ) (l : List α) : List α :=
  (l.zipIdx.filter fun place => key place.1 ∉ (l.take place.2).map key).map (·.1)

@[simp]
theorem firstOfEach_nil (key : α → κ) : firstOfEach key [] = [] := rfl

/-- One more member at the end is kept if its key is new, and it changes nothing for the others. -/
theorem firstOfEach_append_singleton (key : α → κ) (l : List α) (a : α) :
    firstOfEach key (l ++ [a]) =
      firstOfEach key l ++ if key a ∈ l.map key then [] else [a] := by
  have hfront : l.zipIdx.filter
      (fun place => key place.1 ∉ ((l ++ [a]).take place.2).map key) =
      l.zipIdx.filter fun place => key place.1 ∉ (l.take place.2).map key := by
    apply List.filter_congr
    intro place hplace
    have hlt : place.2 < l.length := by simpa using (List.mem_zipIdx hplace).2.1
    rw [List.take_append_of_le_length (Nat.le_of_lt hlt)]
  rw [firstOfEach, List.zipIdx_append, List.filter_append, List.map_append, hfront,
    List.zipIdx_singleton, Nat.zero_add, List.filter_singleton, List.take_left]
  by_cases hold : key a ∈ l.map key <;> simp only [hold, firstOfEach] <;> rfl

/-- A member is kept if it is the first that is found under its key. -/
theorem mem_firstOfEach : a ∈ firstOfEach key l ↔ l.find? (key · = key a) = some a := by
  induction l using List.reverseRecOn with
  | nil => simp
  | append_singleton l b ih =>
    rw [firstOfEach_append_singleton, List.mem_append, ih, List.find?_append, Option.or_eq_some_iff]
    apply or_congr_right
    have hnone : l.find? (key · = key a) = none ↔ key a ∉ l.map key := by
      simp [List.find?_eq_none]
    rw [hnone]
    by_cases hsame : b = a
    · subst hsame
      simp
    · have hlast : [b].find? (key · = key a) ≠ some a := by
        intro hfound
        exact hsame (List.mem_singleton.mp (List.mem_of_find?_eq_some hfound)).symm
      simp only [hlast, and_false, iff_false]
      split
      · exact List.not_mem_nil
      · exact fun hmem => hsame (List.mem_singleton.mp hmem).symm

theorem firstOfEach_subset (key : α → κ) (l : List α) : firstOfEach key l ⊆ l :=
  fun _ ha => List.mem_of_find?_eq_some (mem_firstOfEach.mp ha)

/-- No key is kept twice. -/
theorem nodup_map_firstOfEach (key : α → κ) (l : List α) :
    ((firstOfEach key l).map key).Nodup := by
  induction l using List.reverseRecOn with
  | nil => exact List.nodup_nil
  | append_singleton l a ih =>
    rw [firstOfEach_append_singleton, List.map_append]
    split
    · rwa [List.map_nil, List.append_nil]
    · rename_i hnew
      refine ih.append (List.nodup_singleton _) ?_
      intro k hk hlast
      obtain rfl := List.mem_singleton.mp hlast
      exact hnew (List.map_subset key (firstOfEach_subset key l) hk)

/-- Members can be changed before or after, if their keys stay the same. -/
theorem map_firstOfEach {f : α → β} {key' : β → κ} (hkey : ∀ a ∈ l, key' (f a) = key a) :
    (firstOfEach key l).map f = firstOfEach key' (l.map f) := by
  induction l using List.reverseRecOn with
  | nil => rfl
  | append_singleton l a ih =>
    have hfront : ∀ b ∈ l, key' (f b) = key b := fun b hb => hkey b (List.mem_append_left _ hb)
    have hkeys : (l.map f).map key' = l.map key := by
      rw [List.map_map]
      exact List.map_congr_left hfront
    rw [firstOfEach_append_singleton, List.map_append, ih hfront, List.map_append,
      List.map_singleton, firstOfEach_append_singleton, hkeys,
      hkey a (List.mem_append_right _ (List.mem_singleton_self a))]
    split <;> rfl

end FirstOfEach

/-! ### Calls -/

namespace CallSite

variable {sites : List CallSite} {site : CallSite}

/-- A further call site is kept if its signature is new. -/
theorem distinct_append_singleton (seen : List String) (sites : List CallSite) (site : CallSite) :
    distinct seen (sites ++ [site]) =
      distinct seen sites ++
        if site.signature ∈ seen ++ sites.map signature then [] else [site] := by
  -- The signatures seen grow along the way, so the statement is about any of them.
  induction sites generalizing seen with
  | nil => simp [distinct]
  | cons first rest ih =>
    rw [List.cons_append, distinct, distinct]
    by_cases hold : first.signature ∈ seen
    · rw [if_pos hold, if_pos hold, ih]
      congr 2
      grind
    · rw [if_neg hold, if_neg hold, ih, List.cons_append]
      congr 3
      grind

/-- The calls that are kept are the first of their signatures. -/
theorem distinct_eq_firstOfEach (sites : List CallSite) :
    distinct [] sites = firstOfEach signature sites := by
  induction sites using List.reverseRecOn with
  | nil => rfl
  | append_singleton sites site ih =>
    rw [distinct_append_singleton, firstOfEach_append_singleton, ih, List.nil_append]

/-- A call is kept if it is the first that is found under its signature. -/
theorem mem_distinct_iff :
    site ∈ distinct [] sites ↔ sites.find? (·.signature = site.signature) = some site := by
  rw [distinct_eq_firstOfEach, mem_firstOfEach]

theorem mem_of_mem_distinct (h : site ∈ distinct [] sites) : site ∈ sites :=
  List.mem_of_find?_eq_some (mem_distinct_iff.mp h)

/-- Every call is kept under its signature. -/
theorem exists_mem_distinct (hsite : site ∈ sites) :
    ∃ kept ∈ distinct [] sites, kept.signature = site.signature := by
  have hfound : (sites.find? (·.signature = site.signature)).isSome := by
    rw [List.find?_isSome]
    exact ⟨site, hsite, decide_eq_true rfl⟩
  obtain ⟨kept, hkept⟩ := Option.isSome_iff_exists.mp hfound
  have hsig : kept.signature = site.signature := by simpa using List.find?_some hkept
  exact ⟨kept, mem_distinct_iff.mpr (hsig ▸ hkept), hsig⟩

/-- No two of the call sites that are kept have the same signature. -/
theorem nodup_map_distinct (sites : List CallSite) :
    ((distinct [] sites).map signature).Nodup := by
  rw [distinct_eq_firstOfEach]
  exact nodup_map_firstOfEach signature sites

end CallSite

end CallForest
