import CallForest.Assembly
import CallForest.ClassFile.Emission
import CallForest.Proofs.ClassFile.Faults
import CallForest.Proofs.FailureMap
import CallForest.Proofs.Sequence
import CallForest.WorkerPool
import Mathlib.Algebra.Ring.Nat
import Mathlib.Logic.Relation

/-!
# Scans by several workers

The artifacts of a root are worked on by several workers at once. A worker takes an artifact up,
finds out what becomes of it, counts it if it is left out or notes the reason if it cannot be read,
and hands in its records. The counter and the notes are shared, and the workers come to them in any
order. The records that are handed in keep the place of their artifact, and the next root is begun
when all artifacts of the root before it are done.

The order in which the workers get on does not show. An artifact counts only once, and a walk comes
to each path only once, so the notes that are made at the same time are about different paths. So
every scan comes to the same end as one that visits the artifacts one after the other.

## Main definitions

* `ArtifactReader` — what finds out what becomes of an artifact;
* `Job`, `Board` — the artifacts of a root with how far the work on them is, and what the workers
  share;
* `Board.Step` — a worker gets on with an artifact;
* `ScanRun` — a scan by several workers, root by root;
* `Board.Faithful` — the board shows what has been done and nothing else.

## Main results

* `Board.Faithful.step`, `Board.Faithful.run` — boards stay faithful;
* `Board.exists_finished` — the work can always be finished;
* `ScanOutcome.merge_eq_addRoot` — a finished root;
* `scanRun_iff` — the only outcome of a scan by several workers;
* `scan_eq_visitAll`, `Artifact.visit_eq` — the same outcome by visits one after the other, also of
  class files;
* `scan_outcome_unique` — what that outcome is.
-/

namespace CallForest

open Relation

/-! ### Readers -/

/-- What reads artifacts: which paths are left out, and the records of an artifact in the package of
its root, or else the reason why it cannot be read. -/
structure ArtifactReader where
  excludes : String → Bool
  extract : Option String → Artifact → Except String (List MethodRecord)

namespace ArtifactReader

variable (reader : ArtifactReader)

/-- What becomes of an artifact. -/
def visit (package : Option String) (a : Artifact) : Visit :=
  if reader.excludes a.path then .excluded
  else
    match reader.extract package a with
    | .ok records => .extracted records
    | .error message => .failed message

/-- The visits to the artifacts of a root, in the order of the walk. -/
def visits (listing : RootListing) : List (String × Visit) :=
  (listing.artifacts.getD []).map fun a => (a.path, reader.visit listing.package a)

end ArtifactReader

/-! ### Workers -/

/-- How far the work on an artifact is. -/
inductive Phase where
  | waiting
  /-- A worker has taken the artifact up. -/
  | taken
  /-- The artifact is counted or noted if need be. -/
  | noted
  | done (batch : List MethodRecord)

namespace Phase

/-- Whether a worker is at the artifact. -/
def isHeld : Phase → Bool
  | .taken | .noted => true
  | .waiting | .done _ => false

/-- Whether the counter and the notes show the artifact. -/
def isNoted : Phase → Bool
  | .noted | .done _ => true
  | .waiting | .taken => false

/-- The records that were handed in. -/
def batch : Phase → List MethodRecord
  | .done batch => batch
  | .waiting | .taken | .noted => []

/-- The number of steps that are left. -/
def stepsLeft : Phase → Nat
  | .waiting => 3
  | .taken => 2
  | .noted => 1
  | .done _ => 0

end Phase

/-- An artifact to be worked on, what becomes of it, and how far the work is. -/
structure Job where
  path : String
  visit : Visit
  phase : Phase

/-- The visit that a job makes. -/
def Job.toVisit (j : Job) : String × Visit :=
  (j.path, j.visit)

/-- What the workers share while they are at a root: the jobs in the order of the walk, the counter
of the artifacts that are left out, and the notes about those that could not be read. -/
structure Board where
  jobs : List Job
  excluded : Nat
  failures : Failures

namespace Board

/-- The board when nothing has been done, with the notes of earlier roots. -/
def start (visits : List (String × Visit)) (failures : Failures) : Board where
  jobs := visits.map fun v => { path := v.1, visit := v.2, phase := .waiting }
  excluded := 0
  failures := failures

/-- Whether all jobs are done. -/
def Finished (b : Board) : Prop :=
  ∀ j ∈ b.jobs, ∃ batch, j.phase = .done batch

/-- A worker gets on with a job. It takes up a job only if it is at no other one. -/
inductive Step (pool : WorkerPool) : Board → Board → Prop
  | take {front back : List Job} {j : Job} {excluded : Nat} {failures : Failures}
      (hphase : j.phase = .waiting)
      (hfree : (front ++ j :: back).countP (fun j => j.phase.isHeld) < pool.workers) :
      Step pool ⟨front ++ j :: back, excluded, failures⟩
        ⟨front ++ { j with phase := .taken } :: back, excluded, failures⟩
  | note {front back : List Job} {j : Job} {excluded : Nat} {failures : Failures}
      (hphase : j.phase = .taken) :
      Step pool ⟨front ++ j :: back, excluded, failures⟩
        ⟨front ++ { j with phase := .noted } :: back,
          if j.visit.isExcluded then excluded + 1 else excluded, failures.note j.toVisit⟩
  | handIn {front back : List Job} {j : Job} {excluded : Nat} {failures : Failures}
      (hphase : j.phase = .noted) :
      Step pool ⟨front ++ j :: back, excluded, failures⟩
        ⟨front ++ { j with phase := .done j.visit.records } :: back, excluded, failures⟩

end Board

/-- The outcome after one more root, from what the workers have left on the board. -/
def ScanOutcome.merge (o : ScanOutcome) (b : Board) : ScanOutcome :=
  let found := b.jobs.flatMap fun j => j.phase.batch
  { records := o.records ++ found
    stats := {
      roots := o.stats.roots + 1
      artifacts := o.stats.artifacts + b.jobs.length
      excluded := o.stats.excluded + b.excluded
      records := o.stats.records + found.length
      failures := b.failures } }

/-- A scan of roots by the workers of a pool that begins with one outcome and ends with another. -/
inductive ScanRun (pool : WorkerPool) (reader : ArtifactReader) :
    List RootListing → ScanOutcome → ScanOutcome → Prop
  | done (o : ScanOutcome) : ScanRun pool reader [] o o
  | root {listing : RootListing} {rest : List RootListing} {o o' : ScanOutcome} {b : Board}
      (hlisted : listing.artifacts.isSome)
      (hrun : ReflTransGen (Board.Step pool)
        (Board.start (reader.visits listing) o.stats.failures) b)
      (hfinished : b.Finished) (hrest : ScanRun pool reader rest (o.merge b) o') :
      ScanRun pool reader (listing :: rest) o o'

/-! ### Faithful boards -/

namespace Board

open CallForest.Path

/-- The board shows what has been done and nothing else: what was counted and noted are the jobs
that are noted, as if in the order of the walk, and what was handed in are their records. -/
structure Faithful (visits : List (String × Visit)) (failures : Failures) (b : Board) : Prop where
  jobs : b.jobs.map Job.toVisit = visits
  excluded : b.excluded = b.jobs.countP fun j => j.phase.isNoted && j.visit.isExcluded
  failures : b.failures =
    ((b.jobs.filter fun j => j.phase.isNoted).map Job.toVisit).foldl Failures.note failures
  batches : ∀ j ∈ b.jobs, ∀ batch, j.phase = .done batch → batch = j.visit.records

variable {pool : WorkerPool} {visits : List (String × Visit)} {failures : Failures} {b b' : Board}

/-- A board on which nothing has been done is faithful. -/
theorem faithful_start (visits : List (String × Visit)) (failures : Failures) :
    (start visits failures).Faithful visits failures where
  jobs := by simp [start, Function.comp_def, Job.toVisit]
  excluded := by simp [start, Function.comp_def, Phase.isNoted]
  failures := by simp [start, List.filter_map, Function.comp_def, Phase.isNoted]
  batches := by
    intro j hj batch hphase
    obtain ⟨v, -, rfl⟩ := List.mem_map.mp hj
    cases hphase

section Frame

variable {front back : List Job} {j : Job} {excluded : Nat} {noted : Failures} {phase : Phase}

theorem batches_set
    (h : ∀ i ∈ front ++ j :: back, ∀ batch, i.phase = .done batch → batch = i.visit.records)
    (hbatch : ∀ batch, phase = .done batch → batch = j.visit.records) :
    ∀ i ∈ front ++ { j with phase } :: back, ∀ batch, i.phase = .done batch →
      batch = i.visit.records := by
  intro i hi batch hphase
  rcases List.mem_append.mp hi with hi | hi
  · exact h i (List.mem_append_left _ hi) batch hphase
  · rcases List.mem_cons.mp hi with rfl | hi
    · exact hbatch batch hphase
    · exact h i (List.mem_append_right _ (List.mem_cons_of_mem _ hi)) batch hphase

/-- A step that is neither counted nor noted keeps the board faithful. -/
theorem Faithful.set_phase (h : Faithful visits failures ⟨front ++ j :: back, excluded, noted⟩)
    (hnoted : phase.isNoted = j.phase.isNoted)
    (hbatch : ∀ batch, phase = .done batch → batch = j.visit.records) :
    Faithful visits failures ⟨front ++ { j with phase } :: back, excluded, noted⟩ where
  jobs := by simpa [Job.toVisit] using h.jobs
  excluded := by simpa [List.countP_cons, hnoted] using h.excluded
  failures := by
    have hfailures := h.failures
    simp only [List.filter_append, List.filter_cons, hnoted] at hfailures ⊢
    rw [hfailures]
    split <;> simp [Job.toVisit]
  batches := batches_set h.batches hbatch

/-- Counting and noting a visit keeps the board faithful, as notes about different paths can change
places. -/
theorem Faithful.note (h : Faithful visits failures ⟨front ++ j :: back, excluded, noted⟩)
    (hpaths : visits.Pairwise fun v w => rank v.1 ≠ rank w.1) (hphase : j.phase = .taken) :
    Faithful visits failures ⟨front ++ { j with phase := .noted } :: back,
      if j.visit.isExcluded then excluded + 1 else excluded, noted.note j.toVisit⟩ where
  jobs := by simpa [Job.toVisit] using h.jobs
  excluded := by
    have hexcluded := h.excluded
    simp only [List.countP_append, List.countP_cons, hphase, Phase.isNoted] at hexcluded ⊢
    cases hvisit : j.visit.isExcluded
    · simpa [hvisit] using hexcluded
    · simp [hvisit, hexcluded, Nat.add_assoc]
  failures := by
    have hfailures := h.failures
    simp only [List.filter_append, List.filter_cons, hphase, Phase.isNoted, Bool.false_eq_true,
      if_false, if_true, List.map_append, List.map_cons, List.foldl_append,
      List.foldl_cons] at hfailures ⊢
    rw [hfailures]
    -- What is noted later in the walk is about other paths, so it may have been noted before.
    refine (Failures.foldl_note_note ?_ _).symm
    intro w hw
    obtain ⟨i, hi, rfl⟩ := List.mem_map.mp hw
    rw [← h.jobs, List.pairwise_map] at hpaths
    have hlater := (List.pairwise_cons.mp (List.pairwise_append.mp hpaths).2.1).1
    exact hlater i (List.mem_of_mem_filter hi)
  batches := batches_set h.batches nofun

end Frame

/-- A step keeps the board faithful if there is one visit to each path. -/
theorem Faithful.step (h : b.Faithful visits failures) (hstep : Step pool b b')
    (hpaths : visits.Pairwise fun v w => rank v.1 ≠ rank w.1) :
    b'.Faithful visits failures := by
  cases hstep with
  | take hphase hfree => exact h.set_phase (by rw [hphase]; rfl) nofun
  | note hphase => exact h.note hpaths hphase
  | handIn hphase =>
    apply h.set_phase (by rw [hphase]; rfl)
    intro batch hdone
    cases hdone
    rfl

/-- So does a whole run. -/
theorem Faithful.run (h : b.Faithful visits failures) (hrun : ReflTransGen (Step pool) b b')
    (hpaths : visits.Pairwise fun v w => rank v.1 ≠ rank w.1) :
    b'.Faithful visits failures := by
  induction hrun with
  | refl => exact h
  | tail _ hstep ih => exact ih.step hstep hpaths

/-! ### Finishing the work -/

/-- The number of steps that are left. -/
def stepsLeft (b : Board) : Nat :=
  (b.jobs.map fun j => j.phase.stepsLeft).sum

/-- Every step of a worker brings the end closer. -/
theorem Step.stepsLeft_lt (h : Step pool b b') : b'.stepsLeft < b.stepsLeft := by
  cases h with
  | take hphase | note hphase | handIn hphase =>
    simp [stepsLeft, hphase, Phase.stepsLeft]

/-- As long as a job is not done, a worker can get on. -/
theorem exists_step (pool : WorkerPool) (b : Board) (h : ¬ b.Finished) :
    ∃ b', Step pool b b' := by
  obtain ⟨jobs, excluded, failures⟩ := b
  by_cases hheld : ∃ j ∈ jobs, j.phase.isHeld = true
  · obtain ⟨j, hj, hheld⟩ := hheld
    obtain ⟨front, back, rfl⟩ := List.append_of_mem hj
    cases hphase : j.phase with
    | waiting | done => simp [hphase, Phase.isHeld] at hheld
    | taken => exact ⟨_, .note hphase⟩
    | noted => exact ⟨_, .handIn hphase⟩
  · push Not at hheld
    obtain ⟨j, hj, hopen⟩ : ∃ j ∈ jobs, ∀ batch, j.phase ≠ .done batch := by
      simpa [Finished] using h
    obtain ⟨front, back, rfl⟩ := List.append_of_mem hj
    have hfree : (front ++ j :: back).countP (fun j => j.phase.isHeld) = 0 := by
      rw [List.countP_eq_zero]
      exact hheld
    cases hphase : j.phase with
    | waiting => exact ⟨_, .take hphase (hfree ▸ pool.workers_pos)⟩
    | taken | noted => exact absurd (by rw [hphase]; rfl) (hheld j hj)
    | done batch => exact absurd hphase (hopen batch)

/-- The work can be finished, however far it is. -/
theorem exists_finished (pool : WorkerPool) (b : Board) :
    ∃ b', ReflTransGen (Step pool) b b' ∧ b'.Finished := by
  induction hleft : b.stepsLeft using Nat.strong_induction_on generalizing b with
  | h n ih =>
    by_cases hfinished : b.Finished
    · exact ⟨b, .refl, hfinished⟩
    · obtain ⟨b₁, hstep⟩ := exists_step pool b hfinished
      obtain ⟨b', hrun, hdone⟩ := ih _ (hleft ▸ hstep.stepsLeft_lt) b₁ rfl
      exact ⟨b', .head hstep hrun, hdone⟩

/-! ### Finished roots -/

theorem Finished.isNoted (h : b.Finished) {j : Job} (hj : j ∈ b.jobs) :
    j.phase.isNoted = true := by
  obtain ⟨batch, hphase⟩ := h j hj
  rw [hphase]
  rfl

/-- On a finished board, every job has handed in the records of its visit. -/
theorem Faithful.batch_eq (h : b.Faithful visits failures) (hfinished : b.Finished) {j : Job}
    (hj : j ∈ b.jobs) : j.phase.batch = j.visit.records := by
  obtain ⟨batch, hphase⟩ := hfinished j hj
  rw [hphase, ← h.batches j hj batch hphase]
  rfl

end Board

/-- What the workers have left on the board when a root is finished is what visits to its artifacts
one after the other would have left. -/
theorem ScanOutcome.merge_eq_addRoot {o : ScanOutcome} {visits : List (String × Visit)} {b : Board}
    (h : b.Faithful visits o.stats.failures) (hfinished : b.Finished) :
    o.merge b = o.addRoot visits := by
  have hfound : (b.jobs.flatMap fun j => j.phase.batch) = visits.flatMap fun v => v.2.records := by
    rw [← h.jobs, List.flatMap_map]
    exact List.flatMap_congr fun j hj => h.batch_eq hfinished hj
  have hlength : b.jobs.length = visits.length := by
    rw [← h.jobs, List.length_map]
  -- All jobs are noted when they are done, so the counter and the notes leave out none.
  have hexcluded : b.excluded = (visits.filter fun v => v.2.isExcluded).length := by
    rw [h.excluded, ← h.jobs, ← List.countP_eq_length_filter, List.countP_map]
    apply List.countP_congr
    intro j hj
    simp [hfinished.isNoted hj, Job.toVisit]
  have hfailures : b.failures = visits.foldl Failures.note o.stats.failures := by
    rw [h.failures, List.filter_eq_self.mpr fun j hj => hfinished.isNoted hj, h.jobs]
  rw [merge, addRoot, hfound, hlength, hexcluded, hfailures]

/-! ### Scans -/

section Scans

variable {pool : WorkerPool} {reader : ArtifactReader} {roots : List RootListing}

/-- All roots can be listed. -/
def AllListed (roots : List RootListing) : Prop :=
  ∀ listing ∈ roots, listing.artifacts.isSome = true
deriving Decidable

/-- A walk comes to each path below a root only once. -/
def WalkedOnce (roots : List RootListing) : Prop :=
  ∀ listing ∈ roots, (listing.artifacts.getD []).Pairwise fun a b => ¬ Path.same a.path b.path
deriving Decidable

/-- The outcome of visits to all artifacts one after the other. -/
def visitAll (reader : ArtifactReader) (o : ScanOutcome) (roots : List RootListing) : ScanOutcome :=
  roots.foldl (fun o listing => o.addRoot (reader.visits listing)) o

/-- A scan that visits the artifacts as the reader says. -/
theorem scan_eq_visitAll {visit : Option String → Artifact → Except ClassFile.Fault Visit}
    (hlisted : AllListed roots)
    (hvisit : ∀ listing ∈ roots, ∀ a ∈ listing.artifacts.getD [],
      visit listing.package a = .ok (reader.visit listing.package a)) :
    scan visit roots = .ok (visitAll reader {} roots) := by
  unfold scan
  -- The outcome grows from root to root, so the induction is on the roots for any outcome so far.
  generalize ({} : ScanOutcome) = o
  induction roots generalizing o with
  | nil => rfl
  | cons listing rest ih =>
    rw [AllListed, List.forall_mem_cons] at hlisted
    rw [List.forall_mem_cons] at hvisit
    obtain ⟨artifacts, hartifacts⟩ := Option.isSome_iff_exists.mp hlisted.1
    have hvisits : (artifacts.mapM fun a => (visit listing.package a).map fun v => (a.path, v)) =
        .ok (reader.visits listing) := by
      rw [ArtifactReader.visits]
      rw [hartifacts] at hvisit ⊢
      apply mapM_eq_ok_map
      intro a ha
      rw [hvisit.1 a ha]
      rfl
    rw [List.foldlM_cons]
    simp only [hartifacts, hvisits]
    exact ih hlisted.2 hvisit.2 _

/-- A scan by several workers can come to an end in one way only, and it does come to an end. -/
theorem scanRun_iff (hlisted : AllListed roots) (hwalk : WalkedOnce roots) {o o' : ScanOutcome} :
    ScanRun pool reader roots o o' ↔ o' = visitAll reader o roots := by
  induction roots generalizing o with
  | nil =>
    constructor
    · intro hscan
      cases hscan
      rfl
    · intro heq
      rw [heq]
      exact .done o
  | cons listing rest ih =>
    rw [AllListed, List.forall_mem_cons] at hlisted
    rw [WalkedOnce, List.forall_mem_cons] at hwalk
    have hpaths : (reader.visits listing).Pairwise fun v w => Path.rank v.1 ≠ Path.rank w.1 := by
      rw [ArtifactReader.visits, List.pairwise_map]
      refine hwalk.1.imp ?_
      intro a b hdiffer hrank
      exact hdiffer (Path.same_iff.mpr hrank)
    have hmerge {b : Board} (hrun : ReflTransGen (Board.Step pool)
        (Board.start (reader.visits listing) o.stats.failures) b) (hfinished : b.Finished) :
        o.merge b = o.addRoot (reader.visits listing) :=
      ScanOutcome.merge_eq_addRoot ((Board.faithful_start _ _).run hrun hpaths) hfinished
    constructor
    · intro hscan
      cases hscan with
      | root _ hrun hfinished hrest =>
        rw [hmerge hrun hfinished] at hrest
        exact (ih hlisted.2 hwalk.2).mp hrest
    · intro heq
      obtain ⟨b, hrun, hfinished⟩ :=
        Board.exists_finished pool (Board.start (reader.visits listing) o.stats.failures)
      refine .root hlisted.1 hrun hfinished ?_
      rw [hmerge hrun hfinished]
      exact (ih hlisted.2 hwalk.2).mpr heq

theorem records_visitAll (o : ScanOutcome) : (visitAll reader o roots).records =
    o.records ++ (roots.flatMap reader.visits).flatMap fun v => v.2.records := by
  induction roots generalizing o with
  | nil => simp [visitAll]
  | cons listing rest ih =>
    refine (ih _).trans ?_
    simp [ScanOutcome.addRoot]

theorem excluded_visitAll (o : ScanOutcome) : (visitAll reader o roots).stats.excluded =
    o.stats.excluded + ((roots.flatMap reader.visits).filter fun v => v.2.isExcluded).length := by
  induction roots generalizing o with
  | nil => simp [visitAll]
  | cons listing rest ih =>
    refine (ih _).trans ?_
    simp [ScanOutcome.addRoot, Nat.add_assoc]

theorem failures_visitAll (o : ScanOutcome) : (visitAll reader o roots).stats.failures =
    (roots.flatMap reader.visits).foldl Failures.note o.stats.failures := by
  induction roots generalizing o with
  | nil => rfl
  | cons listing rest ih =>
    refine (ih _).trans ?_
    rw [List.flatMap_cons, List.foldl_append]
    rfl

/-- An artifact that is left out or cannot be read brings no records. -/
theorem ArtifactReader.records_visit {package : Option String} {a : Artifact}
    (h : reader.excludes a.path = true ∨ ∃ message, reader.extract package a = .error message) :
    (reader.visit package a).records = [] := by
  unfold visit
  split
  · rfl
  · obtain hexcluded | ⟨message, hfailed⟩ := h
    · contradiction
    · rw [hfailed]
      rfl

end Scans

/-- The reader of class files. -/
def ArtifactReader.ofClassFiles (exclusions : ExclusionSet) : ArtifactReader where
  excludes := exclusions.excludes
  extract package a :=
    match a.content with
    | .error problem => .error problem.message
    | .ok bytes =>
      match ClassFile.parseClass bytes package with
      | .ok parsed => .ok parsed.methods
      | .error fault => .error fault.message

/-- Class files are visited as their reader says, unless one of them ends the scan. -/
theorem Artifact.visit_eq (exclusions : ExclusionSet) {package : Option String} {a : Artifact}
    (hfine : ∀ bytes ∈ a.content.toOption,
      ClassFile.NotFatal (ClassFile.parseClass bytes package)) :
    a.visit exclusions package =
      .ok ((ArtifactReader.ofClassFiles exclusions).visit package a) := by
  simp only [Artifact.visit, ArtifactReader.visit, ArtifactReader.ofClassFiles]
  by_cases hexcluded : exclusions.excludes a.path = true
  · simp [hexcluded]
  · cases hcontent : a.content with
    | error problem => simp [hexcluded]
    | ok bytes =>
      cases hparsed : ClassFile.parseClass bytes package with
      | ok parsed => simp [hexcluded, hparsed]
      | error fault =>
        have hlocal := hfine bytes (by rw [hcontent]; rfl) fault hparsed
        simp [hexcluded, hparsed, hlocal]

/-- What a scan has to give: the records of all artifacts, root by root and artifact by artifact,
the number of artifacts that were left out, and the paths that could not be read in their order,
each under the text of its first failing visit and with the reason of its last. -/
structure ScanOutcome.Reports (reader : ArtifactReader) (roots : List RootListing)
    (o : ScanOutcome) : Prop where
  records : o.records = roots.flatMap fun listing =>
    (reader.visits listing).flatMap fun v => v.2.records
  excluded : o.stats.excluded =
    ((roots.flatMap reader.visits).filter fun v => v.2.isExcluded).length
  sorted : o.stats.failures.Sorted
  failures : ∀ path message, (path, message) ∈ o.stats.failures ↔
    ((failing (roots.flatMap reader.visits)).find? fun e => Path.same path e.1).map Prod.fst =
      some path ∧
    ((failing (roots.flatMap reader.visits)).reverse.find? fun e => Path.same path e.1).map
      Prod.snd = some message

/-- Visits one after the other report what they found. -/
theorem reports_visitAll (reader : ArtifactReader) (roots : List RootListing) :
    (visitAll reader {} roots).Reports reader roots where
  records := by
    rw [records_visitAll, List.flatMap_assoc]
    rfl
  excluded := by
    rw [excluded_visitAll]
    exact Nat.zero_add _
  sorted := by
    rw [failures_visitAll]
    exact Failures.Sorted.foldl_note List.Pairwise.nil _
  failures := by
    intro path message
    rw [failures_visitAll]
    exact Failures.mem_foldl_note

/-- If all roots can be listed and a walk comes to each path only once, a scan gives the same
outcome in whatever order its workers get on, and it always comes to that end: the outcome of visits
to all artifacts one after the other. An artifact that is left out or cannot be read can be added or
taken away anywhere without a change to the records or to the forest that is assembled from
them. -/
theorem scan_outcome_unique (pool : WorkerPool) (reader : ArtifactReader)
    (roots : List RootListing) (hlisted : AllListed roots) (hwalk : WalkedOnce roots) :
    ∃ outcome, scan (fun package a => .ok (reader.visit package a)) roots = .ok outcome ∧
      (∀ outcome', ScanRun pool reader roots {} outcome' ↔ outcome' = outcome) ∧
      outcome.Reports reader roots ∧
      ∀ before listing after front a back, roots = before ++ listing :: after →
        listing.artifacts = some (front ++ back) →
        (reader.excludes a.path = true ∨
          ∃ message, reader.extract listing.package a = .error message) →
        ∃ outcome', scan (fun package a => .ok (reader.visit package a))
            (before ++ { listing with artifacts := some (front ++ a :: back) } :: after) =
              .ok outcome' ∧
          outcome'.records = outcome.records ∧
          ∀ assembly : Assembly,
            assembly.assemble outcome'.records = assembly.assemble outcome.records := by
  refine ⟨visitAll reader {} roots, scan_eq_visitAll hlisted fun _ _ _ _ => rfl,
    fun _ => scanRun_iff hlisted hwalk, reports_visitAll reader roots, ?_⟩
  intro before listing after front a back hroots hartifacts hnone
  have hlisted' :
      AllListed (before ++ { listing with artifacts := some (front ++ a :: back) } :: after) := by
    simp only [AllListed, hroots, List.forall_mem_append, List.forall_mem_cons] at hlisted ⊢
    exact ⟨hlisted.1, rfl, hlisted.2.2⟩
  have hrecords : (visitAll reader {}
      (before ++ { listing with artifacts := some (front ++ a :: back) } :: after)).records =
      (visitAll reader {} roots).records := by
    rw [records_visitAll, records_visitAll, hroots]
    simp [ArtifactReader.visits, hartifacts, reader.records_visit hnone]
  refine ⟨_, scan_eq_visitAll hlisted' fun _ _ _ _ => rfl, hrecords, ?_⟩
  intro assembly
  rw [hrecords]

/-- A root with a class, a file that is cut short and one that cannot be read, and a second root
below the first. -/
def nestedRoots : List RootListing :=
  let store : ClassFile.ClassSpec := { name := "a/Store", methods := [.abstract "find" "()V"] }
  let cut : Artifact := { path := "lib/Cut.class", content := .ok [0xca, 0xfe] }
  let gone : Artifact := { path := "lib/Gone.class", content := .error .missing }
  [{ root := ".", package := some "a",
     artifacts := some [{ path := "Store.class", content := .ok store.toBytes }, cut, gone] },
   { root := "lib", package := none, artifacts := some [cut, gone] }]

/-- The pattern for files whose names begin with a certain letter. -/
def goneExcluded : ExclusionSet where
  patterns := [{ text := "**/G*", pieces := [.leading, .literal 'G', .star] }]

theorem scan_outcome_unique_nestedRoots :
    AllListed nestedRoots ∧ WalkedOnce nestedRoots ∧
      ∃ outcome, scan (Artifact.visit goneExcluded) nestedRoots = .ok outcome ∧
        (∀ outcome', ScanRun ⟨4, by decide⟩ (.ofClassFiles goneExcluded) nestedRoots {} outcome' ↔
          outcome' = outcome) ∧
        outcome.records.map (·.signature) = ["a/Store#find()"] ∧ outcome.stats.excluded = 2 ∧
        outcome.stats.failures.map Prod.fst = ["lib/Cut.class"] := by
  have hlisted : AllListed nestedRoots := by decide
  have hwalk : WalkedOnce nestedRoots := by decide +kernel
  have hfine : ∀ listing ∈ nestedRoots, ∀ a ∈ listing.artifacts.getD [],
      ∀ bytes ∈ a.content.toOption,
        ClassFile.NotFatal (ClassFile.parseClass bytes listing.package) := by decide +kernel
  obtain ⟨outcome, hscan, hruns, -⟩ :=
    scan_outcome_unique ⟨4, by decide⟩ (.ofClassFiles goneExcluded) nestedRoots hlisted hwalk
  have houtcome : outcome = visitAll (.ofClassFiles goneExcluded) {} nestedRoots :=
    Except.ok.inj (hscan.symm.trans (scan_eq_visitAll hlisted fun _ _ _ _ => rfl))
  subst houtcome
  refine ⟨hlisted, hwalk, _, ?_, hruns, ?_, ?_, ?_⟩
  · apply scan_eq_visitAll hlisted
    intro listing hlisting a ha
    exact Artifact.visit_eq goneExcluded (hfine listing hlisting a ha)
  all_goals decide +kernel

end CallForest
