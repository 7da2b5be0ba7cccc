import CallForest.Method.Record

/-!
# Descriptors that cannot be cut apart

The parameter types of a descriptor are cut off from the left. A type letter is one character, a
class name goes on to its semicolon, and whatever a class name contains does no harm. The cut fails
exactly when a character beyond ASCII stands where a type letter should.

Whether a character stands inside of a class name can be told from what stands before it, so the
characters at which the cut fails can be named by their position as well as by the types in front of
them.

## Main definitions

* `Descriptor.Stray` — a character beyond ASCII stands in the place of a type letter;
* `Descriptor.Beyond` — a character beyond ASCII stands somewhere outside of class names;
* `Descriptor.Indivisible` — the parameter types of a descriptor have such a character.

## Main results

* `Descriptor.stray_iff_beyond` — the two ways to say where the character stands are the same;
* `Descriptor.pieces?_eq_none_iff_beyond`, `Descriptor.pieces?_eq_none_iff` — the cut fails exactly
  on such texts;
* `Descriptor.parameters?_eq_none_iff`, `CallSite.of?_eq_none_iff`,
  `MethodRecord.of?_eq_none_iff` — the same for descriptors and for what is made from them.
-/

namespace CallForest

namespace Descriptor

/-- A character beyond ASCII stands in the place of a type letter. A bracket is passed over like a
letter, and a class name together with its semicolon. -/
inductive Stray : List Char → Prop
  | here {c : Char} {cs : List Char} (beyond : 0x80 ≤ c.toNat) : Stray (c :: cs)
  | letter {c : Char} {cs : List Char} (unnamed : c ≠ 'L') (ascii : c.toNat < 0x80)
      (rest : Stray cs) : Stray (c :: cs)
  | named {name cs : List Char} (whole : ';' ∉ name) (rest : Stray cs) :
      Stray ('L' :: (name ++ ';' :: cs))

/-- A character beyond ASCII stands among the parameter types, outside of class names. -/
def Indivisible (descriptor : String) : Prop :=
  Stray (inner descriptor.toList)

/-- Whether the text behind a character stands inside of a class name, if it is known whether the
character does. -/
def namedAfter (named : Bool) (c : Char) : Bool :=
  if named then c ≠ ';' else c = 'L'

/-- A character beyond ASCII stands in the text outside of class names. -/
def Beyond (named : Bool) (text : List Char) : Prop :=
  ∃ before c after, text = before ++ c :: after ∧ 0x80 ≤ c.toNat ∧
    before.foldl namedAfter named = false

section Cut

variable {c : Char} {cs piece name : List Char} {named : Bool}

theorem not_beyond_nil : ¬ Beyond named [] := by
  rintro ⟨before, c, after, heq, -⟩
  exact List.append_ne_nil_of_right_ne_nil before (List.cons_ne_nil c after) heq.symm

/-- Such a character comes first, or it comes later and the first one has its say about where the
rest of the text stands. -/
theorem beyond_cons_iff : Beyond named (c :: cs) ↔
    (named = false ∧ 0x80 ≤ c.toNat) ∨ Beyond (namedAfter named c) cs := by
  constructor
  · intro h
    obtain ⟨before, d, after, heq, hbeyond, hout⟩ := h
    cases before with
    | nil =>
      rw [List.nil_append, List.cons.injEq] at heq
      exact .inl ⟨hout, heq.1 ▸ hbeyond⟩
    | cons e before =>
      rw [List.cons_append, List.cons.injEq] at heq
      exact .inr ⟨before, d, after, heq.2, hbeyond, heq.1 ▸ hout⟩
  · intro h
    rcases h with ⟨hout, hbeyond⟩ | ⟨before, d, after, heq, hbeyond, hout⟩
    · exact ⟨[], c, cs, rfl, hbeyond, hout⟩
    · exact ⟨c :: before, d, after, by rw [heq, List.cons_append], hbeyond, hout⟩

/-- The cut fails exactly at characters beyond ASCII that stand outside of class names. -/
theorem pieces?_eq_none_iff_beyond : pieces? piece named cs = none ↔ Beyond named cs := by
  induction cs generalizing piece named with
  | nil => simp [pieces?, not_beyond_nil]
  | cons c cs ih =>
    rw [beyond_cons_iff]
    cases named with
    | true =>
      by_cases hc : c = ';'
      · simp [pieces?, namedAfter, hc, ih]
      · simp [pieces?, namedAfter, hc, ih]
    | false =>
      by_cases hbracket : c = '['
      · subst hbracket
        simp [pieces?, namedAfter, ih]
      by_cases hnamed : c = 'L'
      · subst hnamed
        simp [pieces?, namedAfter, ih]
      by_cases hascii : c.toNat < 0x80
      · simp [pieces?, namedAfter, hbracket, hnamed, hascii, Nat.not_le.mpr hascii, ih]
      · simp [pieces?, hbracket, hnamed, hascii, Nat.le_of_not_lt hascii]

/-- What stands before such a character leads out of all class names. -/
theorem Stray.beyond (h : Stray cs) : Beyond false cs := by
  induction h with
  | here hbeyond => exact beyond_cons_iff.mpr (.inl ⟨rfl, hbeyond⟩)
  | letter hunnamed _ _ ih =>
    refine beyond_cons_iff.mpr (.inr ?_)
    rwa [namedAfter, if_neg Bool.false_ne_true, decide_eq_false hunnamed]
  | @named name cs hwhole _ ih =>
    refine beyond_cons_iff.mpr (.inr ?_)
    change Beyond true (name ++ ';' :: cs)
    induction name with
    | nil => exact beyond_cons_iff.mpr (.inr ih)
    | cons d name ihname =>
      rw [List.mem_cons, not_or] at hwhole
      refine beyond_cons_iff.mpr (.inr ?_)
      rw [namedAfter, if_pos rfl, decide_eq_true (Ne.symm hwhole.1)]
      exact ihname hwhole.2

/-- From the inside of a class name, its semicolon comes first. -/
theorem stray_of_beyond :
    (Beyond false cs → Stray cs) ∧
    (Beyond true cs → ∃ name rest, cs = name ++ ';' :: rest ∧ ';' ∉ name ∧ Stray rest) := by
  induction cs with
  | nil => exact ⟨fun h => absurd h not_beyond_nil, fun h => absurd h not_beyond_nil⟩
  | cons c cs ih =>
    obtain ⟨houtside, hinside⟩ := ih
    constructor
    · intro h
      by_cases hascii : c.toNat < 0x80
      · have hlater := (beyond_cons_iff.mp h).resolve_left fun hfirst => by omega
        by_cases hnamed : c = 'L'
        · subst hnamed
          obtain ⟨name, rest, rfl, hwhole, hrest⟩ := hinside hlater
          exact .named hwhole hrest
        · rw [namedAfter, if_neg Bool.false_ne_true, decide_eq_false hnamed] at hlater
          exact .letter hnamed hascii (houtside hlater)
      · exact .here (Nat.le_of_not_lt hascii)
    · intro h
      have hlater := (beyond_cons_iff.mp h).resolve_left fun hfirst => Bool.noConfusion hfirst.1
      by_cases hc : c = ';'
      · subst hc
        exact ⟨[], cs, rfl, List.not_mem_nil, houtside hlater⟩
      · rw [namedAfter, if_pos rfl, decide_eq_true hc] at hlater
        obtain ⟨name, rest, rfl, hwhole, hrest⟩ := hinside hlater
        refine ⟨c :: name, rest, rfl, ?_, hrest⟩
        rw [List.mem_cons, not_or]
        exact ⟨Ne.symm hc, hwhole⟩

/-- The types in front of a character tell where it stands, and so do the characters. -/
theorem stray_iff_beyond : Stray cs ↔ Beyond false cs :=
  ⟨Stray.beyond, stray_of_beyond.1⟩

/-- The cut fails exactly when a character beyond ASCII stands in the place of a type letter. -/
theorem pieces?_eq_none_iff : pieces? piece false cs = none ↔ Stray cs :=
  pieces?_eq_none_iff_beyond.trans stray_iff_beyond.symm

end Cut

/-- The parameter types of a descriptor cannot be told exactly if it is indivisible. -/
theorem parameters?_eq_none_iff {descriptor : String} :
    parameters? descriptor = none ↔ Indivisible descriptor := by
  rw [parameters?, Option.map_eq_none_iff, pieces?_eq_none_iff, Indivisible]

end Descriptor

/-- A call has no call site exactly if its descriptor is indivisible. -/
theorem CallSite.of?_eq_none_iff {owner name descriptor : String} :
    CallSite.of? owner name descriptor = none ↔ Descriptor.Indivisible descriptor := by
  rw [CallSite.of?, Option.map_eq_none_iff, Descriptor.parameters?_eq_none_iff]

/-- A method has no record exactly if its descriptor is indivisible. -/
theorem MethodRecord.of?_eq_none_iff {owner : ClassInfo} {name descriptor : String} :
    MethodRecord.of? owner name descriptor = none ↔ Descriptor.Indivisible descriptor := by
  rw [MethodRecord.of?, Option.map_eq_none_iff, Descriptor.parameters?_eq_none_iff]

end CallForest
