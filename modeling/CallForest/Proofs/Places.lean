import CallForest.CallTree

/-!
# Places in a forest

A place says where a node stands: the number of its tree, and then, level by level, the number of
the subtree to go down into. In the lexicographic order of places a node comes before everything
below it, and everything below a node comes before the next node beside it. So the places of a
forest in their order are a depth-first visit of its nodes, and a depth-first visit is known as soon
as it is known to be increasing and to leave out no place.

## Main definitions

* `CallTree.at?` — the subtree at the end of a path;
* `CallTree.atIn?` — the subtree at a place of several trees;
* `CallTree.placesFrom` — the places of several trees in the order of a depth-first visit.

## Main results

* `CallTree.mem_placesFrom` — a visit comes to every place and to nothing else;
* `CallTree.pairwise_placesFrom` — in the lexicographic order;
* `CallTree.length_placesFrom` — there are as many places as nodes;
* `CallTree.countP_placesFrom` — and as many places of one number as trees.
-/

namespace CallForest.CallTree

/-- The subtree at the end of a path that goes down into the subtrees with the given numbers. -/
def at? : CallTree → List Nat → Option CallTree
  | t, [] => some t
  | t, i :: path => t.children[i]?.bind fun child => at? child path

/-- The subtree at a place of several trees. -/
def atIn? (ts : List CallTree) : List Nat → Option CallTree
  | [] => none
  | i :: path => ts[i]?.bind fun t => t.at? path

mutual

/-- The paths to all subtrees, in the order of a depth-first visit. -/
def paths : CallTree → List (List Nat)
  | .node _ children => [] :: placesFrom 0 children

/-- The places of several trees of which the first has the number `i`, in the order of a depth-first
visit. -/
def placesFrom (i : Nat) : List CallTree → List (List Nat)
  | [] => []
  | t :: rest => (paths t).map (i :: ·) ++ placesFrom (i + 1) rest

end

variable {t : CallTree} {ts : List CallTree} {i : Nat} {place : List Nat}

/-- Places can be followed in two parts. -/
theorem at?_append (t : CallTree) (front back : List Nat) :
    t.at? (front ++ back) = (t.at? front).bind fun sub => sub.at? back := by
  induction front generalizing t with
  | nil => rfl
  | cons i front ih =>
    rw [List.cons_append, at?, at?, Option.bind_assoc]
    exact congrArg _ (funext ih)

/-- Further numbers lead on from the subtree at a place. -/
theorem atIn?_append (hat : atIn? ts place = some t) (path : List Nat) :
    atIn? ts (place ++ path) = t.at? path := by
  cases place with
  | nil => cases hat
  | cons i place =>
    rw [atIn?, Option.bind_eq_some_iff] at hat
    obtain ⟨top, htop, hat⟩ := hat
    rw [List.cons_append, atIn?, htop, Option.bind_some, at?_append, hat, Option.bind_some]

theorem at?_singleton (t : CallTree) (i : Nat) : t.at? [i] = t.children[i]? := by
  rw [at?]
  cases t.children[i]? <;> rfl

/-! ### All places and nothing else -/

mutual

/-- The places of a tree are those at which it has a subtree. -/
theorem mem_paths (path : List Nat) : (t : CallTree) → (path ∈ t.paths ↔ (t.at? path).isSome)
  | .node root children => by
    rw [paths, List.mem_cons, mem_placesFrom 0 path children]
    cases path with
    | nil => simp [at?]
    | cons i path =>
      constructor
      · rintro (hnil | ⟨k, path, heq, hsome⟩)
        · cases hnil
        · cases heq
          rwa [Nat.zero_add]
      · exact fun hsome => .inr ⟨i, path, by rw [Nat.zero_add], hsome⟩

theorem mem_placesFrom (i : Nat) (place : List Nat) : (ts : List CallTree) →
    (place ∈ placesFrom i ts ↔ ∃ k path, place = (i + k) :: path ∧ (atIn? ts (k :: path)).isSome)
  | [] => by simp [placesFrom, atIn?]
  | t :: rest => by
    rw [placesFrom, List.mem_append, List.mem_map, mem_placesFrom (i + 1) place rest]
    constructor
    · rintro (⟨path, hpath, rfl⟩ | ⟨k, path, rfl, hsome⟩)
      · rw [mem_paths path t] at hpath
        exact ⟨0, path, rfl, hpath⟩
      · exact ⟨k + 1, path, by rw [Nat.add_right_comm, Nat.add_assoc], hsome⟩
    · rintro ⟨k, path, rfl, hsome⟩
      cases k with
      | zero => exact .inl ⟨path, (mem_paths path t).mpr hsome, rfl⟩
      | succ k => exact .inr ⟨k, path, by rw [Nat.add_right_comm, Nat.add_assoc], hsome⟩

end

/-! ### The order of the visit -/

theorem ne_nil_of_mem_placesFrom (hplace : place ∈ placesFrom i ts) : place ≠ [] := by
  obtain ⟨k, path, rfl, -⟩ := (mem_placesFrom i place ts).mp hplace
  exact List.cons_ne_nil _ _

mutual

/-- A tree is visited in the lexicographic order of its places. -/
theorem pairwise_paths : (t : CallTree) → t.paths.Pairwise (· < ·)
  | .node root children => by
    rw [paths, List.pairwise_cons]
    refine ⟨fun place hplace => ?_, pairwise_placesFrom 0 children⟩
    obtain ⟨k, path, rfl, -⟩ := (mem_placesFrom 0 place children).mp hplace
    exact List.nil_lt_cons _ _

/-- The places of a visit increase in the lexicographic order. -/
theorem pairwise_placesFrom (i : Nat) : (ts : List CallTree) →
    (placesFrom i ts).Pairwise (· < ·)
  | [] => .nil
  | t :: rest => by
    rw [placesFrom, List.pairwise_append]
    refine ⟨?_, pairwise_placesFrom (i + 1) rest, ?_⟩
    · rw [List.pairwise_map]
      exact (pairwise_paths t).imp fun h => List.cons_lt_cons_iff.mpr (.inr ⟨rfl, h⟩)
    · intro first hfirst place hplace
      obtain ⟨path, -, rfl⟩ := List.mem_map.mp hfirst
      obtain ⟨k, path', rfl, -⟩ := (mem_placesFrom (i + 1) place rest).mp hplace
      exact List.cons_lt_cons_iff.mpr (.inl (by omega))

end

theorem nodup_placesFrom (i : Nat) (ts : List CallTree) : (placesFrom i ts).Nodup := by
  refine (pairwise_placesFrom i ts).imp ?_
  rintro place _ hlt rfl
  exact List.lt_irrefl place hlt

/-! ### The number of places -/

mutual

/-- There are as many places as nodes. -/
theorem length_paths : (t : CallTree) → t.paths.length = t.size
  | .node root children => by
    rw [paths, List.length_cons, length_placesFrom 0 children, size, Nat.add_comm]

theorem length_placesFrom (i : Nat) : (ts : List CallTree) →
    (placesFrom i ts).length = sizeAll ts
  | [] => rfl
  | t :: rest => by
    rw [placesFrom, List.length_append, List.length_map, length_paths t,
      length_placesFrom (i + 1) rest, sizeAll]

end

/-- Only the roots of the trees have a place of one number. -/
theorem countP_placesFrom (i : Nat) (ts : List CallTree) :
    (placesFrom i ts).countP (fun place => place.length = 1) = ts.length := by
  induction ts generalizing i with
  | nil => rfl
  | cons t rest ih =>
    obtain ⟨root, children⟩ := t
    have hbelow : ((placesFrom 0 children).map (i :: ·)).countP
        (fun place => place.length = 1) = 0 := by
      rw [List.countP_eq_zero]
      intro place hplace
      obtain ⟨path, hpath, rfl⟩ := List.mem_map.mp hplace
      have hne := ne_nil_of_mem_placesFrom hpath
      simpa using hne
    rw [placesFrom, paths, List.countP_append, ih, List.map_cons, List.countP_cons, hbelow,
      List.length_cons]
    simp [Nat.add_comm]

end CallForest.CallTree
