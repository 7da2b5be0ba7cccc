import Mathlib.Data.List.Forall2

/-!
# Results one after the other

A list is gone through with a function that may fail, and the first failure ends the work. The
values are there together exactly if each of them is there, and a failure of the whole is the
failure of the first member that fails.

## Main results

* `mapM_eq_ok_iff`, `mapM_eq_ok_map` — all values are there;
* `exists_split_of_mapM_eq_error`, `mapM_eq_error_of_split` — the first failure;
* `bind_eq_ok_iff` — two steps that give a value.
-/

namespace CallForest

section MapM

variable {α β γ ε : Type} {f : α → Except ε β} {l front back : List α} {bs : List β} {a : α} {e : ε}

/-! ### All values -/

theorem mapM_eq_ok_iff : l.mapM f = .ok bs ↔ List.Forall₂ (fun a b => f a = .ok b) l bs := by
  induction l generalizing bs with
  | nil => simp [pure, Except.pure, eq_comm]
  | cons a l ih =>
    rw [List.mapM_cons, List.forall₂_cons_left_iff]
    constructor
    · intro h
      cases ha : f a with
      | error e =>
        rw [ha] at h
        cases h
      | ok b =>
        cases hrest : l.mapM f with
        | error e =>
          rw [ha, hrest] at h
          cases h
        | ok rest =>
          rw [ha, hrest] at h
          cases h
          exact ⟨b, rest, rfl, ih.mp hrest, rfl⟩
    · rintro ⟨b, rest, ha, hrest, rfl⟩
      rw [ha, ih.mpr hrest]
      rfl

/-- Values that belong to the members of another list. -/
theorem mapM_of_forall₂ {g : γ → β} {l' : List γ}
    (h : List.Forall₂ (fun c a => f a = .ok (g c)) l' l) : l.mapM f = .ok (l'.map g) := by
  rw [mapM_eq_ok_iff, List.forall₂_map_right_iff]
  exact h.flip

theorem mapM_eq_ok_map {g : α → β} (h : ∀ a ∈ l, f a = .ok (g a)) : l.mapM f = .ok (l.map g) :=
  mapM_of_forall₂ (List.forall₂_same.mpr h)

/-- Members can be picked by themselves or by their results. -/
theorem mapM_filter {p : α → Bool} {q : β → Bool} (hpq : ∀ a b, f a = .ok b → p a = q b)
    (h : l.mapM f = .ok bs) : (l.filter p).mapM f = .ok (bs.filter q) := by
  rw [mapM_eq_ok_iff] at h ⊢
  apply List.rel_filter _ h
  intro a b hab
  exact Bool.coe_iff_coe.mpr (hpq a b hab)

theorem exists_of_mem_mapM {b : β} (h : l.mapM f = .ok bs) (hb : b ∈ bs) :
    ∃ a ∈ l, f a = .ok b := by
  rw [mapM_eq_ok_iff] at h
  induction h with
  | nil => cases hb
  | cons hfirst _ ih =>
    rcases List.mem_cons.mp hb with rfl | hb
    · exact ⟨_, List.mem_cons_self, hfirst⟩
    · obtain ⟨a, ha, hab⟩ := ih hb
      exact ⟨a, List.mem_cons_of_mem _ ha, hab⟩

/-! ### The first failure -/

theorem exists_split_of_mapM_eq_error (h : l.mapM f = .error e) :
    ∃ front a back, l = front ++ a :: back ∧ (∀ x ∈ front, ∃ b, f x = .ok b) ∧
      f a = .error e := by
  induction l with
  | nil => cases h
  | cons x l ih =>
    rw [List.mapM_cons] at h
    cases hx : f x with
    | error first =>
      rw [hx] at h
      cases h
      exact ⟨[], x, l, rfl, nofun, hx⟩
    | ok b =>
      cases hrest : l.mapM f with
      | error first =>
        rw [hx, hrest] at h
        cases h
        obtain ⟨front, a, back, rfl, hfront, ha⟩ := ih hrest
        exact ⟨x :: front, a, back, rfl, List.forall_mem_cons.mpr ⟨⟨b, hx⟩, hfront⟩, ha⟩
      | ok bs =>
        rw [hx, hrest] at h
        cases h

theorem mapM_eq_error_of_split (hfront : ∀ x ∈ front, ∃ b, f x = .ok b) (ha : f a = .error e) :
    (front ++ a :: back).mapM f = .error e := by
  induction front with
  | nil =>
    rw [List.nil_append, List.mapM_cons, ha]
    rfl
  | cons x front ih =>
    rw [List.forall_mem_cons] at hfront
    obtain ⟨⟨b, hb⟩, hfront⟩ := hfront
    rw [List.cons_append, List.mapM_cons, hb, ih hfront]
    rfl

/-- One failure is enough. -/
theorem exists_mapM_eq_error (hmem : a ∈ l) (ha : f a = .error e) :
    ∃ e', l.mapM f = .error e' := by
  induction l with
  | nil => cases hmem
  | cons x l ih =>
    rw [List.mapM_cons]
    cases hx : f x with
    | error first => exact ⟨first, rfl⟩
    | ok b =>
      rcases List.mem_cons.mp hmem with rfl | hmem
      · rw [hx] at ha
        cases ha
      · obtain ⟨e', he'⟩ := ih hmem
        rw [he']
        exact ⟨e', rfl⟩

end MapM

/-- Two steps give a value if the first does and the second does with it. -/
theorem bind_eq_ok_iff {α β ε : Type} {result : Except ε α} {f : α → Except ε β} {b : β} :
    (result >>= f) = .ok b ↔ ∃ a, result = .ok a ∧ f a = .ok b := by
  cases result <;> simp [bind, Except.bind]

/-- A last step that cannot fail has no part in a failure. -/
theorem bind_pure_eq_error_iff {α β ε : Type} {result : Except ε α} {g : α → β} {e : ε} :
    (result >>= fun a => pure (g a)) = .error e ↔ result = .error e := by
  cases result <;> simp [bind, Except.bind, pure, Except.pure]

end CallForest
