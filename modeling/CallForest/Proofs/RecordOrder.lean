import CallForest.Proofs.Growth
import Mathlib.Data.List.Nodup

/-!
# The last record of a signature decides

A scan may come across a method several times, and it comes across methods in the order of files.
Neither shows in the forest. Of the records of one signature only the last counts, and wherever the
survivors stood in the list, they are put into the order of their signatures before anything else
is derived from them.

## Main definitions

* `RootsAre` — the trees of the entry points of one kind.

## Main results

* `recordOf?_congr_of_perm` — records of different methods may change places;
* `recordOf?_of_overridden` — a record may be left out if a later one has its signature;
* `latest_congr` — the survivors are a matter of the last record of each signature;
* `Assembly.rootsAre_treesOf` — the roots of one kind are the survivors of that kind;
* `assemble_eq_of_last_records` — the forest as a whole.
-/

namespace CallForest

variable {records others front back : List MethodRecord} {r : MethodRecord} {s : String}

/-! ### Lists with the same last records -/

theorem recordOf?_append :
    recordOf? (front ++ back) s = (recordOf? back s).or (recordOf? front s) := by
  rw [recordOf?, recordOf?, recordOf?, List.reverse_append, List.find?_append]

/-- If no two records have the same signature, each record is the last of its own. -/
theorem recordOf?_eq_some_iff (hnodup : (records.map (·.signature)).Nodup) :
    recordOf? records s = some r ↔ r ∈ records ∧ r.signature = s := by
  constructor
  · exact mem_of_recordOf?
  · rintro ⟨hr, rfl⟩
    have hsome : (recordOf? records r.signature).isSome := recordOf?_isSome_iff.mpr ⟨r, hr, rfl⟩
    obtain ⟨q, hq⟩ := Option.isSome_iff_exists.mp hsome
    obtain ⟨hmem, hsig⟩ := mem_of_recordOf? hq
    have hsame : q = r := List.inj_on_of_nodup_map hnodup hmem hr hsig
    rw [hq, hsame]

/-- The order of records does not matter if no two have the same signature. -/
theorem recordOf?_congr_of_perm (hperm : records.Perm others)
    (hnodup : (records.map (·.signature)).Nodup) (s : String) :
    recordOf? records s = recordOf? others s := by
  have hnodup' : (others.map (·.signature)).Nodup := (hperm.map _).nodup_iff.mp hnodup
  apply Option.ext
  intro r
  rw [recordOf?_eq_some_iff hnodup, recordOf?_eq_some_iff hnodup', hperm.mem_iff]

/-- A record does not count if its signature comes up again later. -/
theorem recordOf?_of_overridden (hlater : r.signature ∈ back.map (·.signature)) (s : String) :
    recordOf? (front ++ r :: back) s = recordOf? (front ++ back) s := by
  rw [recordOf?_append, recordOf?_append, ← List.singleton_append, recordOf?_append,
    ← List.nil_append [r], recordOf?_append_singleton, recordOf?_nil]
  by_cases hs : r.signature = s
  · obtain ⟨q, hq, hsig⟩ := List.mem_map.mp hlater
    have hsome : (recordOf? back s).isSome :=
      recordOf?_isSome_iff.mpr ⟨q, hq, hsig.trans hs⟩
    obtain ⟨p, hp⟩ := Option.isSome_iff_exists.mp hsome
    rw [hp]
    rfl
  · rw [if_neg hs, Option.or_none]

/-- The latest records depend on the last record of each signature alone. -/
theorem latest_congr (h : ∀ s, recordOf? records s = recordOf? others s) :
    latest records = latest others := by
  apply eq_of_ascending (pairwise_latest records) (pairwise_latest others)
  intro r
  rw [mem_latest, mem_latest, h]

/-! ### Forests -/

/-- The trees are those of the entry points of one kind: their roots stand in strictly ascending
order of signatures, and they are the last records of that kind. -/
def RootsAre (records : List MethodRecord) (kind : EntryKind) (trees : List CallTree) : Prop :=
  (trees.map CallTree.root).Pairwise (fun n n' => compare n.signature n'.signature = .lt) ∧
    ∀ n, n ∈ trees.map CallTree.root ↔
      ∃ r, recordOf? records r.signature = some r ∧ r.entryKind = kind ∧ r.rootNode = n

namespace Assembly

/-- So does the forest. -/
theorem assemble_congr (a : Assembly) (h : ∀ s, recordOf? records s = recordOf? others s) :
    a.assemble records = a.assemble others := by
  rw [assemble, assemble, latest_congr h]

theorem rootsAre_treesOf (a : Assembly) (g : CallGraph) (kind : EntryKind)
    (records : List MethodRecord) : RootsAre records kind (a.treesOf g kind (latest records)) := by
  have hroots : (a.treesOf g kind (latest records)).map CallTree.root =
      ((latest records).filter (·.entryKind = kind)).map MethodRecord.rootNode := by
    simp [treesOf, Function.comp_def]
  rw [RootsAre, hroots]
  constructor
  · rw [List.pairwise_map]
    refine ((pairwise_latest records).filter _).imp ?_
    intro r q hlt
    rwa [r.signature_rootNode, q.signature_rootNode]
  · intro n
    simp only [List.mem_map, List.mem_filter, mem_latest, decide_eq_true_eq, and_assoc]

/-- A method whose last record is not an entry point has no tree. -/
theorem signature_ne_of_closed {a : Assembly} (hr : recordOf? records r.signature = some r)
    (hclosed : r.entryKind = .closed) {t : CallTree}
    (ht : t ∈ (a.assemble records).http ++ (a.assemble records).rpc) :
    t.root.signature ≠ r.signature := by
  have hrecord {kind : EntryKind} {trees : List CallTree} (hroots : RootsAre records kind trees)
      (ht : t ∈ trees) (hsig : t.root.signature = r.signature) : kind = .closed := by
    obtain ⟨q, hq, hkind, hroot⟩ := (hroots.2 t.root).mp (List.mem_map_of_mem ht)
    rw [← hroot, q.signature_rootNode] at hsig
    rw [hsig, hr, Option.some_inj] at hq
    rw [← hkind, ← hq, hclosed]
  intro hsig
  rcases List.mem_append.mp ht with ht | ht
  · exact EntryKind.noConfusion (hrecord (a.rootsAre_treesOf _ .http records) ht hsig)
  · exact EntryKind.noConfusion (hrecord (a.rootsAre_treesOf _ .rpc records) ht hsig)

end Assembly

/-- Whatever the guard and the depth limit, the forest depends on the last record of each signature
and on nothing else. So it stays the same when records of different methods change places, and when
a record is left out that a later one overrides. Its roots of either kind are exactly the last
records of that kind, in strictly ascending order of their signatures, and no other method has a
tree. -/
theorem assemble_eq_of_last_records (a : Assembly) (records : List MethodRecord) :
    (∀ others, (∀ s, recordOf? records s = recordOf? others s) →
        a.assemble records = a.assemble others) ∧
      (∀ others, records.Perm others → (records.map (·.signature)).Nodup →
        a.assemble records = a.assemble others) ∧
      (∀ front r back, records = front ++ r :: back → r.signature ∈ back.map (·.signature) →
        a.assemble records = a.assemble (front ++ back)) ∧
      RootsAre records .http (a.assemble records).http ∧
      RootsAre records .rpc (a.assemble records).rpc ∧
      ∀ r, recordOf? records r.signature = some r → r.entryKind = .closed →
        ∀ t ∈ (a.assemble records).http ++ (a.assemble records).rpc,
          t.root.signature ≠ r.signature := by
  refine ⟨?_, ?_, ?_, a.rootsAre_treesOf _ .http records, a.rootsAre_treesOf _ .rpc records, ?_⟩
  · intro others h
    exact a.assemble_congr h
  · intro others hperm hnodup
    exact a.assemble_congr (recordOf?_congr_of_perm hperm hnodup)
  · rintro front r back rfl hlater
    exact a.assemble_congr (recordOf?_of_overridden hlater)
  · intro r hr hclosed t ht
    exact Assembly.signature_ne_of_closed hr hclosed ht

/-- What an earlier version of the decorating class of `decoratedService` looked like. -/
def staleDecorator : MethodRecord :=
  { signature := "a/Logged#run()", name := "run", descriptor := "()V", parameters := [],
    owner := { name := "a/Logged" }, isAbstract := true, entryKind := .rpc }

theorem assemble_eq_of_last_records_decoratedService :
    let a : Assembly := {}
    (decoratedService.map (·.signature)).Nodup ∧
      a.assemble decoratedService = a.assemble decoratedService.reverse ∧
      staleDecorator.signature ∈ decoratedService.map (·.signature) ∧
      a.assemble (staleDecorator :: decoratedService) = a.assemble decoratedService ∧
      RootsAre decoratedService .http (a.assemble decoratedService).http := by
  intro a
  have hnodup : (decoratedService.map (·.signature)).Nodup := by decide
  have hlater : staleDecorator.signature ∈ decoratedService.map (·.signature) := by decide
  have hservice := assemble_eq_of_last_records a decoratedService
  have hstale := assemble_eq_of_last_records a (staleDecorator :: decoratedService)
  exact ⟨hnodup, hservice.2.1 _ (List.reverse_perm _).symm hnodup, hlater,
    hstale.2.2.1 [] staleDecorator decoratedService rfl hlater, hservice.2.2.2.1⟩

end CallForest
