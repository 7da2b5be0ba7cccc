/-!
# Worker pools

The workers that share the artifacts of a root between them. Whichever worker takes an item, the
results come in the order of the items.

## Main definitions

* `WorkerPool` — a number of workers, at least one;
* `WorkerPool.ofRequest` — the pool for a wanted number of workers;
* `WorkerPool.runAll` — the results of a task on all items.
-/

namespace CallForest

/-- A number of workers. -/
structure WorkerPool where
  workers : Nat
  workers_pos : 0 < workers

namespace WorkerPool

/-- Half as many workers as there are cores, but at least one. -/
def defaultWorkers (cores : Nat) : Nat :=
  max 1 (cores / 2)

theorem defaultWorkers_pos (cores : Nat) : 0 < defaultWorkers cores :=
  Nat.le_max_left 1 (cores / 2)

/-- The pool for a wanted number of workers. If none is wanted, the machine decides. -/
def ofRequest (wanted : Option Nat) (cores : Nat) : WorkerPool :=
  match wanted with
  | some (n + 1) => ⟨n + 1, n.succ_pos⟩
  | some 0 | none => ⟨defaultWorkers cores, defaultWorkers_pos cores⟩

/-- The results of a task on all items, in the order of the items. -/
def runAll {α β : Type} (_pool : WorkerPool) (items : List α) (task : α → β) : List β :=
  items.map task

/-- How a pool is shown. -/
def describe (pool : WorkerPool) : String :=
  "WorkerPool \x7b workers: " ++ toString pool.workers ++ " \x7d"

end WorkerPool

end CallForest
