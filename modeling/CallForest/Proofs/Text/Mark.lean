import Mathlib.Data.List.Infix

/-!
# Finding a text through its escapes

A text is written with escapes and then looked for as it was. If it has a character that stands for
itself and comes up in no escape, then the places of that character tell where the text can be
found: the marks of what was found have to be the marks of what was written, and since no escape is
shorter than what it stands for, nothing of the text can reach beyond its own escaped form.

## Main definitions

* `Text.Keeps` — a character that passes through the escapes.

## Main results

* `Text.append_mark_inj` — the first mark tells the two sides of it apart;
* `Text.infix_append_mark_iff` — a text without the mark does not reach across it;
* `Text.Keeps.prefix_of_mark` — the escaped form does not begin later than the text;
* `Text.Keeps.infix_of_infix_around` — the text is found in its own escaped form or not at all.
-/

namespace CallForest.Text

variable {α : Type} {escape : α → List α} {mark : α} {text before after front back : List α}

/-- The first mark is in one place only. -/
theorem eq_of_append_mark (hfront : mark ∉ front) (hbefore : mark ∉ before)
    (h : front ++ mark :: back = before ++ mark :: after) : front = before := by
  induction front generalizing before with
  | nil =>
    cases before with
    | nil => rfl
    | cons c before =>
      rw [List.nil_append, List.cons_append, List.cons.injEq] at h
      exact absurd (h.1 ▸ List.mem_cons_self) hbefore
  | cons c front ih =>
    cases before with
    | nil =>
      rw [List.nil_append, List.cons_append, List.cons.injEq] at h
      exact absurd (h.1 ▸ List.mem_cons_self) hfront
    | cons d before =>
      rw [List.cons_append, List.cons_append, List.cons.injEq] at h
      rw [h.1, ih (List.not_mem_of_not_mem_cons hfront) (List.not_mem_of_not_mem_cons hbefore) h.2]

/-- The first mark of a text tells what stands in front of it and what behind it. -/
theorem append_mark_inj (hfront : mark ∉ front) (hbefore : mark ∉ before) :
    front ++ mark :: back = before ++ mark :: after ↔ front = before ∧ back = after := by
  constructor
  · intro h
    obtain rfl := eq_of_append_mark hfront hbefore h
    exact ⟨rfl, (List.cons.inj (List.append_cancel_left h)).2⟩
  · intro h
    rw [h.1, h.2]

/-- What does not have the mark is found on one side of it or not at all. -/
theorem infix_append_mark_iff (h : mark ∉ text) :
    text <:+: before ++ mark :: after ↔ text <:+: before ∨ text <:+: after := by
  constructor
  · rintro ⟨front, back, hsplit⟩
    rw [List.append_assoc, List.append_eq_append_iff] at hsplit
    rcases hsplit with ⟨skipped, rfl, hrest⟩ | ⟨skipped, rfl, hrest⟩
    · rw [List.append_eq_append_iff] at hrest
      rcases hrest with ⟨kept, rfl, -⟩ | ⟨kept, rfl, hmark⟩
      · exact .inl ⟨front, kept, List.append_assoc _ _ _⟩
      · cases kept with
        | nil => exact .inl ⟨front, [], by simp⟩
        | cons c kept =>
          rw [List.cons_append, List.cons.injEq] at hmark
          rw [hmark.1] at h
          exact absurd (List.mem_append_right _ List.mem_cons_self) h
    · cases skipped with
      | nil =>
        cases text with
        | nil => exact .inl List.nil_infix
        | cons c text =>
          rw [List.nil_append, List.cons_append, List.cons.injEq] at hrest
          rw [hrest.1] at h
          exact absurd List.mem_cons_self h
      | cons c skipped =>
        rw [List.cons_append, List.cons.injEq] at hrest
        rw [hrest.2]
        exact .inr ⟨skipped, back, List.append_assoc _ _ _⟩
  · rintro (hfound | hfound)
    · exact hfound.trans (List.prefix_append _ _).isInfix
    · exact hfound.trans ((List.suffix_cons _ _).trans (List.suffix_append _ _)).isInfix

/-- The mark stands for itself, no other escape has it, and every escape has some character. -/
structure Keeps (escape : α → List α) (mark : α) : Prop where
  self : escape mark = [mark]
  eq_of_mem : ∀ c, mark ∈ escape c → c = mark
  ne_nil : ∀ c, escape c ≠ []

namespace Keeps

theorem reversed (h : Keeps escape mark) : Keeps (fun c => (escape c).reverse) mark where
  self := by rw [h.self, List.reverse_singleton]
  eq_of_mem c hc := h.eq_of_mem c (List.mem_reverse.mp hc)
  ne_nil c := by simpa using h.ne_nil c

theorem mem_of_mem_flatMap (h : Keeps escape mark) (hmem : mark ∈ text.flatMap escape) :
    mark ∈ text := by
  obtain ⟨c, hc, hin⟩ := List.mem_flatMap.mp hmem
  rwa [← h.eq_of_mem c hin]

theorem length_le_flatMap (h : Keeps escape mark) (text : List α) :
    text.length ≤ (text.flatMap escape).length := by
  induction text with
  | nil => exact Nat.le_refl _
  | cons c text ih =>
    have hpos := List.length_pos_of_ne_nil (h.ne_nil c)
    rw [List.flatMap_cons, List.length_append, List.length_cons]
    omega

/-- Escaping neither adds nor removes a mark. -/
theorem count_flatMap [DecidableEq α] (h : Keeps escape mark) (text : List α) :
    (text.flatMap escape).count mark = text.count mark := by
  induction text with
  | nil => rfl
  | cons c text ih =>
    rw [List.flatMap_cons, List.count_append, ih, List.count_cons]
    by_cases hc : c = mark
    · rw [hc, h.self]
      simp [Nat.add_comm]
    · have hnone : (escape c).count mark = 0 := by
        rw [List.count_eq_zero]
        intro hin
        exact hc (h.eq_of_mem c hin)
      simp [hnone, hc]

/-- If the mark stands neither in front of a text nor in front of its escaped form, the escaped
form does not begin later than the text. -/
theorem prefix_of_mark (h : Keeps escape mark) (hmem : mark ∈ text) (hfront : mark ∉ front)
    (hbefore : mark ∉ before)
    (hsplit : front ++ text ++ back = before ++ text.flatMap escape ++ after) :
    before <+: front := by
  -- Both sides are cut at their first mark.
  obtain ⟨start, rest, rfl, hstart⟩ := List.eq_append_cons_of_mem hmem
  have hcut : front ++ start = before ++ start.flatMap escape := by
    rw [List.flatMap_append, List.flatMap_cons, h.self] at hsplit
    have hfirst : mark ∉ front ++ start := by
      rw [List.mem_append, not_or]
      exact ⟨hfront, hstart⟩
    have hfirst' : mark ∉ before ++ start.flatMap escape := by
      rw [List.mem_append, not_or]
      exact ⟨hbefore, fun hin => hstart (h.mem_of_mem_flatMap hin)⟩
    have hsplit' : (front ++ start) ++ mark :: (rest ++ back) =
        (before ++ start.flatMap escape) ++ mark :: (rest.flatMap escape ++ after) := by
      simpa using hsplit
    exact eq_of_append_mark hfirst hfirst' hsplit'
  have hlonger := h.length_le_flatMap start
  have hlength := congrArg List.length hcut
  rw [List.length_append, List.length_append] at hlength
  refine List.prefix_of_prefix_length_le (hcut ▸ List.prefix_append _ _)
    (List.prefix_append front start) ?_
  omega

/-- A text with a mark is found nowhere else than in its escaped form, if there is no mark around
it. -/
theorem infix_of_infix_around [DecidableEq α] (h : Keeps escape mark) (hmem : mark ∈ text)
    (hbefore : mark ∉ before) (hafter : mark ∉ after)
    (hfound : text <:+: before ++ text.flatMap escape ++ after) :
    text <:+: text.flatMap escape := by
  obtain ⟨front, back, hsplit⟩ := hfound
  -- All marks are in the text that was found, so there are none around it.
  have hcount := congrArg (List.count mark) hsplit
  simp only [List.count_append, h.count_flatMap, List.count_eq_zero.mpr hbefore,
    List.count_eq_zero.mpr hafter] at hcount
  have hfront : mark ∉ front := List.count_eq_zero.mp (by omega)
  have hback : mark ∉ back := List.count_eq_zero.mp (by omega)
  obtain ⟨front, rfl⟩ := h.prefix_of_mark hmem hfront hbefore hsplit
  have hreversed : back.reverse ++ text.reverse ++ (before ++ front).reverse =
      after.reverse ++ text.reverse.flatMap (fun c => (escape c).reverse) ++ before.reverse := by
    have := congrArg List.reverse hsplit
    simpa [List.reverse_flatMap, Function.comp_def] using this
  have hsuffix : after.reverse <+: back.reverse :=
    h.reversed.prefix_of_mark (List.mem_reverse.mpr hmem) (mt List.mem_reverse.mp hback)
      (mt List.mem_reverse.mp hafter) hreversed
  obtain ⟨back, rfl⟩ := List.reverse_prefix.mp hsuffix
  have hsplit' : (front ++ text ++ back) ++ after = text.flatMap escape ++ after := by
    simpa using hsplit
  exact ⟨front, back, List.append_cancel_right hsplit'⟩

end Keeps

end CallForest.Text
