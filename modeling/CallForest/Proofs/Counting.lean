import CallForest.Proofs.Scheduling
import Mathlib.Data.Finset.Card

/-!
# What a scan counts

A scan counts the artifacts that it visits, those that it leaves out and those that it cannot read.
The first two numbers are about visits. The third one is the number of notes, and there is one note
for each path. So what was left out, what failed and what was extracted add up to all artifacts as
long as no path fails in two visits. Where roots overlap, an artifact that cannot be read is visited
twice and noted once, and the numbers fall short by that visit.

The workers have no part in it. Whatever they do, the counter and the notes are what visits one
after the other leave, made in some order, and the order shows in none of the numbers. This needs no
condition on the paths, unlike the reasons that are noted.

## Main definitions

* `Visit.isExtracted` — whether a visit brings records;
* `Board.noted` — the visits that the counter and the notes show;
* `Board.Ordered` — a board is what visits in a certain order leave;
* `ScanStats.Balances` — how the counters of a scan add up.

## Main results

* `length_visits` — every visit is of one of three kinds;
* `Failures.length_foldl_note` — there is one note for each path that failed;
* `Board.Ordered.step`, `Board.exists_order` — boards always come from some order;
* `ScanRun.exists_order` — and so do the counters of whole scans;
* `scan_balances` — how the counters add up.
-/

namespace CallForest

open Relation

/-! ### Kinds of visits -/

/-- Whether records were extracted. -/
def Visit.isExtracted : Visit → Bool
  | .extracted _ => true
  | .excluded | .failed _ => false

/-- Every visit leaves its artifact out, fails or brings records. -/
theorem length_visits (visits : List (String × Visit)) :
    visits.length = (visits.filter fun v => v.2.isExcluded).length + (failing visits).length +
      visits.countP fun v => v.2.isExtracted := by
  induction visits with
  | nil => rfl
  | cons v rest ih =>
    obtain ⟨path, visit⟩ := v
    cases visit <;>
      simp [failing, Visit.isExcluded, Visit.failure?, Visit.isExtracted] at ih ⊢ <;> omega

/-- A visit counts if it fails. -/
theorem failing_cons (v : String × Visit) (rest : List (String × Visit)) :
    failing (v :: rest) =
      (v.2.failure?.map fun message => (v.1, message)).toList ++ failing rest := by
  obtain ⟨path, visit⟩ := v
  cases visit <;> rfl

/-! ### The number of notes -/

namespace Failures

open CallForest.Path

variable {failures : Failures} {visits : List (String × Visit)}

/-- A note about a path is the only one about it, whether it is new or replaces another one. -/
theorem rank_mem_insert {p m : String} {r : List (ℕ ×ₗ String)} :
    r ∈ (failures.insert p m).map (fun e => rank e.1) ↔
      r = rank p ∨ r ∈ failures.map fun e => rank e.1 := by
  induction failures with
  | nil => simp [Failures.insert]
  | cons entry rest ih =>
    obtain ⟨x, k⟩ := entry
    rcases lt_trichotomy (rank p) (rank x) with hp | hp | hp
    · simp [insert_cons_of_lt hp]
    · -- The path is noted already, maybe in another spelling, and its note is replaced.
      simp [insert_cons_of_eq hp, hp]
    · rw [insert_cons_of_gt hp, List.map_cons, List.mem_cons, ih, List.map_cons, List.mem_cons,
        or_left_comm]

/-- A path is noted if it was noted before or if a visit to it failed. -/
theorem rank_mem_foldl_note {r : List (ℕ ×ₗ String)} :
    r ∈ (visits.foldl note failures).map (fun e => rank e.1) ↔
      r ∈ failures.map (fun e => rank e.1) ∨ r ∈ (failing visits).map fun e => rank e.1 := by
  induction visits generalizing failures with
  | nil => simp [failing]
  | cons v rest ih =>
    rw [List.foldl_cons, ih, note_eq, failing_cons]
    cases v.2.failure? with
    | none => simp
    | some message => simp [rank_mem_insert, or_left_comm, or_assoc]

/-- Notes in order are about different paths. -/
theorem Sorted.nodup_rank (h : failures.Sorted) : (failures.map fun e => rank e.1).Nodup := by
  rw [List.Nodup, List.pairwise_map]
  exact h.imp fun hprecedes => (precedes_iff.mp hprecedes).ne

/-- There is one note for each path that failed. -/
theorem length_foldl_note (visits : List (String × Visit)) :
    (visits.foldl note []).length = ((failing visits).map fun e => rank e.1).toFinset.card := by
  have hsorted : (visits.foldl note []).Sorted := Sorted.foldl_note List.Pairwise.nil visits
  calc (visits.foldl note []).length
      = ((visits.foldl note []).map fun e => rank e.1).length := (List.length_map _).symm
    _ = ((visits.foldl note []).map fun e => rank e.1).toFinset.card :=
        (List.toFinset_card_of_nodup hsorted.nodup_rank).symm
    _ = ((failing visits).map fun e => rank e.1).toFinset.card := by
        congr 1
        ext r
        rw [List.mem_toFinset, List.mem_toFinset, rank_mem_foldl_note]
        simp

end Failures

/-! ### Some order of the visits -/

namespace Board

variable {pool : WorkerPool} {failures : Failures} {b b' : Board}
  {order : List (String × Visit)}

/-- The visits that the counter and the notes show, in the order of the walk. -/
def noted (b : Board) : List (String × Visit) :=
  (b.jobs.filter fun j => j.phase.isNoted).map Job.toVisit

/-- The counter and the notes are what visits one after the other leave, if the visits that they
show are made in the given order. -/
structure Ordered (failures : Failures) (b : Board) (order : List (String × Visit)) : Prop where
  perm : order.Perm b.noted
  excluded : b.excluded = (order.filter fun v => v.2.isExcluded).length
  failures : b.failures = order.foldl Failures.note failures

/-- At the start nothing is noted, and the order is empty. -/
theorem ordered_start (visits : List (String × Visit)) (failures : Failures) :
    (start visits failures).Ordered failures [] where
  perm := by simp [start, noted, List.filter_map, Function.comp_def, Phase.isNoted]
  excluded := rfl
  failures := rfl

/-- A step keeps the visits, and what it counts or notes comes last in the order. -/
theorem Ordered.step (h : b.Ordered failures order) (hstep : Step pool b b') :
    b'.jobs.map Job.toVisit = b.jobs.map Job.toVisit ∧ ∃ order', b'.Ordered failures order' := by
  cases hstep with
  | take hphase hfree =>
    refine ⟨by simp [Job.toVisit], order, ?_, h.excluded, h.failures⟩
    simpa [noted, List.filter_cons, hphase, Phase.isNoted] using h.perm
  | @note front back j excluded notes hphase =>
    refine ⟨by simp [Job.toVisit], order ++ [j.toVisit], ?_, ?_, ?_⟩
    · have hperm := h.perm
      simp only [noted, List.filter_append, List.filter_cons, hphase, Phase.isNoted,
        Bool.false_eq_true, if_false, if_true, List.map_append, List.map_cons] at hperm ⊢
      exact ((List.perm_append_singleton _ _).trans (hperm.cons _)).trans List.perm_middle.symm
    · rw [List.filter_append, List.length_append, ← h.excluded]
      cases hvisit : j.visit.isExcluded <;> simp [Job.toVisit, hvisit]
    · rw [List.foldl_append, ← h.failures]
      rfl
  | handIn hphase =>
    refine ⟨by simp [Job.toVisit], order, ?_, h.excluded, h.failures⟩
    simpa [noted, List.filter_cons, hphase, Phase.isNoted, Job.toVisit] using h.perm

/-- Whatever the workers do, the visits noted so far have an order that explains the board. -/
theorem Ordered.run (h : b.Ordered failures order) (hrun : ReflTransGen (Step pool) b b') :
    b'.jobs.map Job.toVisit = b.jobs.map Job.toVisit ∧ ∃ order', b'.Ordered failures order' := by
  induction hrun with
  | refl => exact ⟨rfl, order, h⟩
  | tail _ hstep ih =>
    obtain ⟨hjobs, order', hordered⟩ := ih
    obtain ⟨hjobs', hordered'⟩ := hordered.step hstep
    exact ⟨hjobs'.trans hjobs, hordered'⟩

/-- When a root is finished, the board is what its visits leave, made in some order. -/
theorem exists_order {visits : List (String × Visit)}
    (hrun : ReflTransGen (Step pool) (start visits failures) b) (hfinished : b.Finished) :
    ∃ order, order.Perm visits ∧ b.jobs.length = order.length ∧ b.Ordered failures order := by
  obtain ⟨hjobs, order, hordered⟩ := (ordered_start visits failures).run hrun
  have hnoted : b.noted = visits := by
    rw [noted, List.filter_eq_self.mpr fun j hj => hfinished.isNoted hj, hjobs]
    simp [start, Function.comp_def, Job.toVisit]
  have hperm : order.Perm visits := hnoted ▸ hordered.perm
  have hlength : b.jobs.length = order.length := by
    have := congrArg List.length hjobs
    simpa [start, hperm.length_eq] using this
  exact ⟨order, hperm, hlength, hordered⟩

end Board

/-! ### The counters of a scan -/

section Scans

variable {pool : WorkerPool} {reader : ArtifactReader} {roots : List RootListing}
  {o o' : ScanOutcome}

/-- All artifacts are counted, whatever becomes of them. -/
theorem artifacts_visitAll (o : ScanOutcome) : (visitAll reader o roots).stats.artifacts =
    o.stats.artifacts + (roots.flatMap reader.visits).length := by
  induction roots generalizing o with
  | nil => rfl
  | cons listing rest ih =>
    refine (ih _).trans ?_
    simp [ScanOutcome.addRoot, Nat.add_assoc]

/-- The counters of a scan by several workers are those of visits to all artifacts one after the
other, made in some order. -/
theorem ScanRun.exists_order (h : ScanRun pool reader roots o o') :
    ∃ order : List (String × Visit), order.Perm (roots.flatMap reader.visits) ∧
      o'.stats.artifacts = o.stats.artifacts + order.length ∧
      o'.stats.excluded =
        o.stats.excluded + (order.filter fun v => v.2.isExcluded).length ∧
      o'.stats.failures = order.foldl Failures.note o.stats.failures := by
  induction h with
  | done o => exact ⟨[], .refl _, rfl, rfl, rfl⟩
  | @root listing rest o o' b _ hrun hfinished _ ih =>
    obtain ⟨first, hfirst, hlength, hordered⟩ := Board.exists_order hrun hfinished
    obtain ⟨later, hlater, hartifacts, hexcluded, hfailures⟩ := ih
    refine ⟨first ++ later, hfirst.append hlater, ?_, ?_, ?_⟩
    · rw [hartifacts, ScanOutcome.merge, hlength, List.length_append, Nat.add_assoc]
    · rw [hexcluded, ScanOutcome.merge, hordered.excluded, List.filter_append, List.length_append,
        Nat.add_assoc]
    · rw [hfailures, ScanOutcome.merge, hordered.failures, List.foldl_append]

/-- If all roots can be listed, the workers can finish the scan. -/
theorem exists_scanRun (pool : WorkerPool) (reader : ArtifactReader) (hlisted : AllListed roots)
    (o : ScanOutcome) : ∃ o', ScanRun pool reader roots o o' := by
  induction roots generalizing o with
  | nil => exact ⟨o, .done o⟩
  | cons listing rest ih =>
    rw [AllListed, List.forall_mem_cons] at hlisted
    obtain ⟨b, hrun, hfinished⟩ :=
      Board.exists_finished pool (Board.start (reader.visits listing) o.stats.failures)
    obtain ⟨o', hrest⟩ := ih hlisted.2 (o.merge b)
    exact ⟨o', .root hlisted.1 hrun hfinished hrest⟩

end Scans

/-- How the counters of a scan add up. Of all visits, some leave the artifact out, some fail and
some bring records. The failed artifacts are counted by path, so the counters fall short by the
visits to a path that fails in another visit too. -/
structure ScanStats.Balances (visits : List (String × Visit)) (s : ScanStats) : Prop where
  artifacts : s.artifacts = s.excluded + (failing visits).length +
    visits.countP fun v => v.2.isExtracted
  failed : s.failed = ((failing visits).map fun e => Path.rank e.1).toFinset.card
  adds_up : (s.artifacts = s.excluded + s.failed + visits.countP fun v => v.2.isExtracted) ↔
    (failing visits).Pairwise fun e e' => ¬ Path.same e.1 e'.1

/-- There is a note for each failing artifact exactly if no two of them have the same path. -/
theorem length_eq_card_iff (visits : List (String × Visit)) :
    (failing visits).length = ((failing visits).map fun e => Path.rank e.1).toFinset.card ↔
      (failing visits).Pairwise fun e e' => ¬ Path.same e.1 e'.1 := by
  have hnodup := Multiset.toFinset_card_eq_card_iff_nodup
    (m := .ofList ((failing visits).map fun e => Path.rank e.1))
  rw [Multiset.coe_card, Multiset.coe_nodup, List.length_map, List.Nodup,
    List.pairwise_map] at hnodup
  simp only [Path.same_iff]
  exact eq_comm.trans hnodup

/-- Counters that come from visits in some order balance. -/
theorem ScanStats.balances_of_order {visits order : List (String × Visit)} {s : ScanStats}
    (hperm : order.Perm visits) (hartifacts : s.artifacts = order.length)
    (hexcluded : s.excluded = (order.filter fun v => v.2.isExcluded).length)
    (hfailures : s.failures = order.foldl Failures.note []) : s.Balances visits := by
  have hfailing : (failing order).Perm (failing visits) := hperm.filterMap _
  have htotal : s.artifacts = s.excluded + (failing visits).length +
      visits.countP fun v => v.2.isExtracted := by
    rw [hartifacts, hexcluded, ← hfailing.length_eq, ← hperm.countP_eq]
    exact length_visits order
  have hfailed : s.failed = ((failing visits).map fun e => Path.rank e.1).toFinset.card := by
    rw [ScanStats.failed, hfailures, Failures.length_foldl_note,
      List.toFinset_eq_of_perm _ _ (hfailing.map _)]
  refine ⟨htotal, hfailed, ?_⟩
  rw [← length_eq_card_iff, htotal, hfailed]
  omega

/-- The counters of every scan balance, in whatever order its workers get on: the artifacts are
those that were left out, the failing visits and those that were extracted, and the failed ones are
the different paths of the failing visits. So the counters add up if and only if no path fails in
two visits. -/
theorem scan_balances (pool : WorkerPool) (reader : ArtifactReader) (roots : List RootListing)
    (hlisted : AllListed roots) :
    (∃ outcome, scan (fun package a => .ok (reader.visit package a)) roots = .ok outcome ∧
      outcome.stats.Balances (roots.flatMap reader.visits)) ∧
    (∃ outcome, ScanRun pool reader roots {} outcome) ∧
    ∀ outcome, ScanRun pool reader roots {} outcome →
      outcome.stats.Balances (roots.flatMap reader.visits) := by
  refine ⟨⟨_, scan_eq_visitAll hlisted fun _ _ _ _ => rfl, ?_⟩,
    exists_scanRun pool reader hlisted {}, ?_⟩
  · apply ScanStats.balances_of_order (.refl _)
    · rw [artifacts_visitAll]
      exact Nat.zero_add _
    · rw [excluded_visitAll]
      exact Nat.zero_add _
    · exact failures_visitAll {}
  · intro outcome hrun
    obtain ⟨order, hperm, hartifacts, hexcluded, hfailures⟩ := hrun.exists_order
    exact ScanStats.balances_of_order hperm (hartifacts.trans (Nat.zero_add _))
      (hexcluded.trans (Nat.zero_add _)) hfailures

theorem scan_balances_nestedRoots :
    AllListed nestedRoots ∧
      ∃ outcome, ScanRun ⟨4, by decide⟩ (.ofClassFiles goneExcluded) nestedRoots {} outcome ∧
        outcome.stats.artifacts = outcome.stats.excluded + 2 + 1 ∧ outcome.stats.failed = 1 ∧
        outcome.stats.artifacts ≠ outcome.stats.excluded + outcome.stats.failed + 1 := by
  have hlisted : AllListed nestedRoots := by decide
  obtain ⟨-, ⟨outcome, hrun⟩, hbalances⟩ :=
    scan_balances ⟨4, by decide⟩ (.ofClassFiles goneExcluded) nestedRoots hlisted
  obtain ⟨hartifacts, hfailed, hadds⟩ := hbalances outcome hrun
  have hextracted : (nestedRoots.flatMap (ArtifactReader.ofClassFiles goneExcluded).visits).countP
      (fun v => v.2.isExtracted) = 1 := by decide +kernel
  have hfailing : (failing (nestedRoots.flatMap
      (ArtifactReader.ofClassFiles goneExcluded).visits)).length = 2 := by decide +kernel
  rw [hextracted] at hartifacts hadds
  rw [hfailing] at hartifacts
  refine ⟨hlisted, outcome, hrun, hartifacts, hfailed.trans ?_, mt hadds.mp ?_⟩
  all_goals decide +kernel

/-- A root with a class file that is cut short. -/
def cutRoot : RootListing where
  root := "m"
  package := none
  artifacts := some [{ path := "m/Cut.class", content := .ok [0xca, 0xfe] }]

/-- If that root is given twice, two artifacts are counted and one of them has failed, although
none is left out and none is extracted. -/
theorem counters_short_of_cutRoot_twice :
    ∃ outcome, scan (Artifact.visit {}) [cutRoot, cutRoot] = .ok outcome ∧
      outcome.stats.artifacts = 2 ∧ outcome.stats.excluded = 0 ∧ outcome.stats.failed = 1 ∧
      outcome.stats.artifacts ≠ outcome.stats.excluded + outcome.stats.failed +
        ([cutRoot, cutRoot].flatMap (ArtifactReader.ofClassFiles {}).visits).countP fun v =>
          v.2.isExtracted := by
  refine ⟨visitAll (.ofClassFiles {}) {} [cutRoot, cutRoot], ?_, ?_⟩
  · have hfine : ∀ listing ∈ [cutRoot, cutRoot], ∀ a ∈ listing.artifacts.getD [],
        ∀ bytes ∈ a.content.toOption,
          ClassFile.NotFatal (ClassFile.parseClass bytes listing.package) := by decide +kernel
    apply scan_eq_visitAll (by decide)
    intro listing hlisting a ha
    exact Artifact.visit_eq {} (hfine listing hlisting a ha)
  · decide +kernel

end CallForest
