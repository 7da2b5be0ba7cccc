import CallForest.Scan
import Mathlib.Data.List.Induction
import Mathlib.Data.List.Lex
import Mathlib.Data.Prod.Lex
import Mathlib.Data.String.Basic

/-!
# The artifacts that could not be read

A scan notes the artifacts that could not be read in the order of their paths. The order of paths is
linear: of two paths one comes first, unless both have the same parts. So notes about different
paths can be made in any order, and what is noted about a path in the end is the reason that came
last, under the text that came first.

## Main definitions

* `Path.rank` — the place of a path in the order;
* `Failures.noteOf?` — what is noted about a path.

## Main results

* `Path.precedes_iff`, `Path.same_iff` — the order of paths is that of their ranks;
* `Failures.insert_comm`, `Failures.foldl_note_note` — notes about different paths can change
  places;
* `Failures.Sorted.foldl_note` — the notes stay in order;
* `Failures.mem_foldl_note` — what is noted in the end.
-/

namespace CallForest

/-! ### The order of paths -/

namespace Path

theorem Part.key_injective : Function.Injective Part.key := by
  intro a b h
  cases a <;> cases b <;> simp_all [Part.key]

/-- The place of a path in the order, part by part. -/
def rank (path : String) : List (ℕ ×ₗ String) :=
  (parts path).map fun part => toLex part.key

/-- The order of paths is the lexicographic one of their parts. -/
theorem partsPrecede_iff (as bs : List Part) : partsPrecede as bs = true ↔
    as.map (fun part => toLex part.key) < bs.map fun part => toLex part.key := by
  induction as generalizing bs with
  | nil => cases bs <;> simp [partsPrecede]
  | cons a as ih =>
    cases bs with
    | nil => simp [partsPrecede]
    | cons b bs =>
      simp [partsPrecede, Part.precedes, ih, List.cons_lt_cons_iff, Prod.Lex.toLex_lt_toLex,
        Part.key_injective.eq_iff]

theorem precedes_iff {a b : String} : precedes a b = true ↔ rank a < rank b :=
  partsPrecede_iff _ _

theorem same_iff {a b : String} : same a b = true ↔ rank a = rank b := by
  have hinjective : Function.Injective fun part : Part => toLex part.key :=
    toLex.injective.comp Part.key_injective
  rw [same, decide_eq_true_iff, rank, rank, (List.map_injective_iff.mpr hinjective).eq_iff]

end Path

/-! ### Making a note -/

namespace Failures

open CallForest.Path

variable {p m q n x k path : String} {failures rest : Failures}

theorem insert_cons_of_eq (h : rank p = rank x) :
    Failures.insert p m ((x, k) :: rest) = (x, m) :: rest :=
  if_pos (same_iff.mpr h)

theorem insert_cons_of_lt (h : rank p < rank x) :
    Failures.insert p m ((x, k) :: rest) = (p, m) :: (x, k) :: rest := by
  rw [Failures.insert, if_neg (mt same_iff.mp h.ne), if_pos (precedes_iff.mpr h)]

theorem insert_cons_of_gt (h : rank x < rank p) :
    Failures.insert p m ((x, k) :: rest) = (x, k) :: rest.insert p m := by
  rw [Failures.insert, if_neg (mt same_iff.mp h.ne'), if_neg (mt precedes_iff.mp h.not_gt)]

/-- Notes about different paths can be made in any order. -/
theorem insert_comm (hne : rank p ≠ rank q) (failures : Failures) :
    (failures.insert p m).insert q n = (failures.insert q n).insert p m := by
  wlog hlt : rank p < rank q generalizing p m q n
  · exact (this hne.symm (lt_of_le_of_ne (le_of_not_gt hlt) hne.symm)).symm
  induction failures with
  | nil => exact (insert_cons_of_gt hlt).trans (insert_cons_of_lt hlt).symm
  | cons entry rest ih =>
    obtain ⟨x, k⟩ := entry
    rcases lt_trichotomy (rank p) (rank x) with hp | hp | hp
    · rw [insert_cons_of_lt hp, insert_cons_of_gt hlt]
      rcases lt_trichotomy (rank q) (rank x) with hq | hq | hq
      · rw [insert_cons_of_lt hq, insert_cons_of_lt hlt]
      · rw [insert_cons_of_eq hq, insert_cons_of_lt hp]
      · rw [insert_cons_of_gt hq, insert_cons_of_lt hp]
    · have hq : rank x < rank q := hp ▸ hlt
      rw [insert_cons_of_eq hp, insert_cons_of_gt hq, insert_cons_of_gt hq, insert_cons_of_eq hp]
    · have hq : rank x < rank q := hp.trans hlt
      rw [insert_cons_of_gt hp, insert_cons_of_gt hq, insert_cons_of_gt hq, insert_cons_of_gt hp,
        ih]

/-! ### The order of the notes -/

/-- The notes are in the order of their paths, and there is one for each path. -/
def Sorted (failures : Failures) : Prop :=
  failures.Pairwise fun a b => precedes a.1 b.1 = true

/-- A sorted list has its least path first. -/
theorem sorted_cons : Sorted ((x, k) :: rest) ↔ (∀ e ∈ rest, rank x < rank e.1) ∧ rest.Sorted := by
  simp only [Sorted, List.pairwise_cons, precedes_iff]

/-- No text is noted but the new one and those that were noted before. -/
theorem fst_of_mem_insert {e : String × String} (he : e ∈ failures.insert p m) :
    e.1 = p ∨ e.1 ∈ failures.map Prod.fst := by
  induction failures with
  | nil =>
    rw [List.mem_singleton.mp he]
    exact .inl rfl
  | cons entry rest ih =>
    rw [List.map_cons, List.mem_cons]
    unfold Failures.insert at he
    split at he
    · rcases List.mem_cons.mp he with rfl | hrest
      · exact .inr (.inl rfl)
      · exact .inr (.inr (List.mem_map_of_mem hrest))
    · split at he
      · rcases List.mem_cons.mp he with rfl | hold
        · exact .inl rfl
        · exact .inr (List.mem_cons.mp (List.mem_map_of_mem hold))
      · rcases List.mem_cons.mp he with rfl | hrest
        · exact .inr (.inl rfl)
        · exact (ih hrest).imp_right .inr

/-- Notes stay sorted by path. -/
theorem Sorted.insert (h : failures.Sorted) : (failures.insert p m).Sorted := by
  induction failures with
  | nil => exact List.pairwise_singleton _ _
  | cons entry rest ih =>
    obtain ⟨x, k⟩ := entry
    obtain ⟨hfirst, hrest⟩ := sorted_cons.mp h
    rcases lt_trichotomy (rank p) (rank x) with hp | hp | hp
    · rw [insert_cons_of_lt hp, sorted_cons]
      refine ⟨?_, h⟩
      intro e he
      rcases List.mem_cons.mp he with rfl | he
      · exact hp
      · exact hp.trans (hfirst e he)
    · rw [insert_cons_of_eq hp, sorted_cons]
      exact ⟨hfirst, hrest⟩
    · rw [insert_cons_of_gt hp, sorted_cons]
      refine ⟨?_, ih hrest⟩
      intro e he
      rcases fst_of_mem_insert he with hnew | hold
      · rwa [hnew]
      · obtain ⟨e', he', hsame⟩ := List.mem_map.mp hold
        rw [← hsame]
        exact hfirst e' he'

/-! ### What is noted about a path -/

/-- What is noted about a path: the text under which it is noted, and the reason. -/
def noteOf? (failures : Failures) (path : String) : Option (String × String) :=
  failures.find? fun e => same path e.1

theorem noteOf?_cons : noteOf? ((x, k) :: rest) path =
    if rank path = rank x then some (x, k) else rest.noteOf? path := by
  by_cases h : rank path = rank x
  · rw [if_pos h]
    exact List.find?_cons_of_pos (same_iff.mpr h)
  · rw [if_neg h]
    exact List.find?_cons_of_neg (mt same_iff.mp h)

/-- A path that no note has finds none. -/
theorem noteOf?_eq_none (h : ∀ e ∈ failures, rank path ≠ rank e.1) :
    failures.noteOf? path = none := by
  rw [noteOf?, List.find?_eq_none]
  intro e he
  rw [same_iff]
  exact h e he

/-- A note about another path changes nothing. -/
theorem noteOf?_insert_of_ne (hne : rank path ≠ rank p) :
    (failures.insert p m).noteOf? path = failures.noteOf? path := by
  induction failures with
  | nil => simp [Failures.insert, noteOf?_cons, hne]
  | cons entry rest ih =>
    obtain ⟨x, k⟩ := entry
    rcases lt_trichotomy (rank p) (rank x) with hp | hp | hp
    · rw [insert_cons_of_lt hp, noteOf?_cons, if_neg hne]
    · rw [insert_cons_of_eq hp, noteOf?_cons, noteOf?_cons, if_neg (hp ▸ hne), if_neg (hp ▸ hne)]
    · rw [insert_cons_of_gt hp, noteOf?_cons, noteOf?_cons, ih]

/-- A note about a path replaces the reason and keeps the text. -/
theorem noteOf?_insert_of_eq (h : failures.Sorted) (heq : rank path = rank p) :
    (failures.insert p m).noteOf? path =
      some (((failures.noteOf? path).map Prod.fst).getD p, m) := by
  induction failures with
  | nil => exact noteOf?_cons.trans (if_pos heq)
  | cons entry rest ih =>
    obtain ⟨x, k⟩ := entry
    obtain ⟨hfirst, hrest⟩ := sorted_cons.mp h
    rcases lt_trichotomy (rank p) (rank x) with hp | hp | hp
    · have hnone : noteOf? ((x, k) :: rest) path = none := by
        apply noteOf?_eq_none
        intro e he
        rcases List.mem_cons.mp he with rfl | he
        · exact heq ▸ hp.ne
        · exact heq ▸ (hp.trans (hfirst e he)).ne
      rw [insert_cons_of_lt hp, noteOf?_cons, if_pos heq, hnone]
      rfl
    · rw [insert_cons_of_eq hp, noteOf?_cons, noteOf?_cons, if_pos (heq.trans hp),
        if_pos (heq.trans hp)]
      rfl
    · rw [insert_cons_of_gt hp, noteOf?_cons, noteOf?_cons, if_neg (heq ▸ hp.ne'),
        if_neg (heq ▸ hp.ne'), ih hrest]

/-- In sorted notes, a note is there exactly if its path finds it. -/
theorem mem_iff_noteOf? (h : failures.Sorted) :
    (path, m) ∈ failures ↔ failures.noteOf? path = some (path, m) := by
  refine ⟨?_, List.mem_of_find?_eq_some⟩
  intro hmem
  induction failures with
  | nil => cases hmem
  | cons entry rest ih =>
    obtain ⟨x, k⟩ := entry
    obtain ⟨hfirst, hrest⟩ := sorted_cons.mp h
    rw [noteOf?_cons]
    rcases List.mem_cons.mp hmem with heq | hmem
    · cases heq
      rw [if_pos rfl]
    · rw [if_neg (hfirst _ hmem).ne', ih hrest hmem]

end Failures

/-! ### The notes of a scan -/

/-- The reason why a visit failed. -/
def Visit.failure? : Visit → Option String
  | .failed message => some message
  | _ => none

/-- The visits that failed, with their reasons. -/
def failing (visits : List (String × Visit)) : List (String × String) :=
  visits.filterMap fun v => v.2.failure?.map fun message => (v.1, message)

namespace Failures

open CallForest.Path

theorem note_eq (failures : Failures) (v : String × Visit) :
    failures.note v = match v.2.failure? with
      | some message => failures.insert v.1 message
      | none => failures := by
  obtain ⟨path, visit⟩ := v
  cases visit <;> rfl

/-- Notes about two paths can change places. -/
theorem note_comm {v w : String × Visit} (hne : rank v.1 ≠ rank w.1) (failures : Failures) :
    (failures.note v).note w = (failures.note w).note v := by
  simp only [note_eq]
  cases v.2.failure? <;> cases w.2.failure? <;> try rfl
  exact insert_comm hne failures

/-- A note can wait until after notes about other paths. -/
theorem foldl_note_note {v : String × Visit} {visits : List (String × Visit)}
    (hne : ∀ w ∈ visits, rank v.1 ≠ rank w.1) (failures : Failures) :
    visits.foldl note (failures.note v) = (visits.foldl note failures).note v := by
  induction visits generalizing failures with
  | nil => rfl
  | cons w rest ih =>
    rw [List.forall_mem_cons] at hne
    rw [List.foldl_cons, List.foldl_cons, note_comm hne.1, ih hne.2]

/-- Whatever the visits are, the notes stay sorted. -/
theorem Sorted.foldl_note {failures : Failures} (h : failures.Sorted)
    (visits : List (String × Visit)) : (visits.foldl note failures).Sorted := by
  induction visits generalizing failures with
  | nil => exact h
  | cons v rest ih =>
    apply ih
    rw [note_eq]
    cases v.2.failure? with
    | none => exact h
    | some message => exact h.insert

/-- What is noted about a path has the text of its first failing visit and the reason of its
last. -/
theorem noteOf?_foldl_note (visits : List (String × Visit)) (path : String) :
    noteOf? (visits.foldl note []) path =
      ((failing visits).find? fun e => same path e.1).map fun first =>
        (first.1,
          (((failing visits).reverse.find? fun e => same path e.1).map Prod.snd).getD "") := by
  induction visits using List.reverseRecOn with
  | nil => rfl
  | append_singleton visits v ih =>
    have hsorted : (visits.foldl note []).Sorted := Sorted.foldl_note List.Pairwise.nil visits
    rw [List.foldl_append, List.foldl_cons, List.foldl_nil, note_eq, failing,
      List.filterMap_append, ← failing, List.filterMap_cons]
    cases v.2.failure? with
    | none => simp [ih]
    | some message =>
      by_cases hsame : same path v.1 = true
      · rw [noteOf?_insert_of_eq hsorted (same_iff.mp hsame), ih]
        cases hfirst : (failing visits).find? fun e => same path e.1 <;>
          simp [List.find?_append, hsame, hfirst]
      · rw [noteOf?_insert_of_ne (mt same_iff.mpr hsame), ih]
        simp [List.find?_append, hsame]

/-- The notes of a scan: each path that failed, under the text of its first failing visit and with
the reason of its last. -/
theorem mem_foldl_note {visits : List (String × Visit)} {path message : String} :
    (path, message) ∈ visits.foldl note [] ↔
      ((failing visits).find? fun e => same path e.1).map Prod.fst = some path ∧
      ((failing visits).reverse.find? fun e => same path e.1).map Prod.snd = some message := by
  rw [mem_iff_noteOf? (Sorted.foldl_note List.Pairwise.nil visits), noteOf?_foldl_note]
  cases hfirst : (failing visits).find? fun e => same path e.1 with
  | none => simp
  | some first =>
    -- If there is a first failing visit of the path, there is a last one.
    have hlast : ((failing visits).reverse.find? fun e => same path e.1).isSome := by
      have hsame : same path first.1 = true := by simpa using List.find?_some hfirst
      rw [List.find?_isSome]
      exact ⟨first, List.mem_reverse.mpr (List.mem_of_find?_eq_some hfirst), hsame⟩
    obtain ⟨last, hlast⟩ := Option.isSome_iff_exists.mp hlast
    simp [hlast]

end Failures

end CallForest
