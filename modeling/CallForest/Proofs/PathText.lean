import CallForest.CycleGuard
import CallForest.Proofs.Json.Quoting
import CallForest.Proofs.Text.Mark
import Mathlib.Data.List.Infix

/-!
# Signatures in the text of a path

The text of a path holds its signatures in their JSON form. A signature without quotes, backslashes
and control characters is its own form, so it is found in the text of every path it stands on. Any
other signature is written differently from how it is looked for, and then it depends on the
characters around the escapes whether it is found.

## Main definitions

* `Json.IsPlain` — a text without characters that are escaped;
* `Json.Verbatim` — a text that is found in its own form.

## Main results

* `Json.verbatim_of_isPlain` — a text without such characters is found in its own form;
* `form_signature_infix_pathText` — the text of a path holds the forms of its signatures;
* `exists_pathText_singleton` — what else has hash marks in the text of a path with one frame.
-/

namespace CallForest

namespace Json

/-- The text has no quotes, backslashes and control characters. -/
def IsPlain (text : String) : Prop :=
  ∀ c ∈ text.toList, c ≠ '"' ∧ c ≠ '\\' ∧ 0x20 ≤ c.toNat

instance (text : String) : Decidable (IsPlain text) :=
  List.decidableBAll (fun c => c ≠ '"' ∧ c ≠ '\\' ∧ 0x20 ≤ c.toNat) text.toList

/-- The text is found in its own form. -/
def Verbatim (text : String) : Prop :=
  text.toList <:+: form text

instance (text : String) : Decidable (Verbatim text) :=
  decidable_of_iff _ Text.occursIn_iff

/-! ### Escapes -/

theorem form_of_isPlain {text : String} (h : IsPlain text) : form text = text.toList := by
  have hself : ∀ c ∈ text.toList, escapeChar c = [c] := by
    intro c hc
    obtain ⟨hquote, hslash, hcontrol⟩ := h c hc
    exact escapeChar_eq_self hquote hslash hcontrol
  rw [form, List.flatMap_congr hself]
  exact List.flatMap_singleton' _

theorem verbatim_of_isPlain {text : String} (h : IsPlain text) : Verbatim text := by
  rw [Verbatim, form_of_isPlain h]

/-- A character that is not written as it is becomes a backslash with characters after it, none of
them a hash mark. -/
theorem escapeChar_cases (c : Char) :
    escapeChar c = [c] ∨ (escapeChar c).head? = some '\\' ∧ '#' ∉ escapeChar c := by
  by_cases hcontrol : 0x20 ≤ c.toNat
  · by_cases hquote : c = '"'
    · subst hquote
      exact .inr (by decide)
    by_cases hslash : c = '\\'
    · subst hslash
      exact .inr (by decide)
    exact .inl (escapeChar_eq_self hquote hslash hcontrol)
  · have hall : ∀ n < 0x20, (escapeChar (Char.ofNat n)).head? = some '\\' ∧
        '#' ∉ escapeChar (Char.ofNat n) := by
      decide
    have hc := hall c.toNat (Nat.lt_of_not_le hcontrol)
    rw [Char.ofNat_toNat] at hc
    exact .inr hc

/-- A hash mark is written as it is, and no escape has one in it. -/
theorem keeps_hash : Text.Keeps escapeChar '#' where
  self := by decide
  eq_of_mem c h := by
    rcases escapeChar_cases c with hself | ⟨-, hnone⟩
    · rw [hself, List.mem_singleton] at h
      exact h.symm
    · exact absurd h hnone
  ne_nil c := by
    rcases escapeChar_cases c with hself | ⟨hhead, -⟩
    · rw [hself]
      exact List.cons_ne_nil c []
    · intro hnil
      rw [hnil] at hhead
      cases hhead

theorem hash_mem_of_hash_mem_quoted {text : String} (h : '#' ∈ quoted text) :
    '#' ∈ text.toList := by
  rw [quoted, List.mem_cons, List.mem_append, List.mem_singleton] at h
  rcases h with h | h | h
  · exact absurd h (by decide)
  · exact keeps_hash.mem_of_mem_flatMap h
  · exact absurd h (by decide)

/-! ### Parts of a compact text -/

theorem infix_compactItems {items : List Json} {item : Json} (h : item ∈ items) :
    item.compactChars <:+: compactItems items := by
  induction items with
  | nil => cases h
  | cons first rest ih =>
    cases rest with
    | nil =>
      rw [List.mem_singleton.mp h, compactItems]
    | cons second rest =>
      rw [compactItems_cons_cons]
      rcases List.mem_cons.mp h with rfl | h
      · exact (List.prefix_append _ _).isInfix
      · exact (ih h).trans ((List.suffix_cons _ _).trans (List.suffix_append _ _)).isInfix

/-- Between the items of an array there are only commas. -/
theorem mem_of_mem_compactItems {items : List Json} {c : Char} (hc : c ∈ compactItems items)
    (hcomma : c ≠ ',') : ∃ item ∈ items, c ∈ item.compactChars := by
  induction items with
  | nil => cases hc
  | cons first rest ih =>
    cases rest with
    | nil => exact ⟨first, List.mem_cons_self, hc⟩
    | cons second rest =>
      rw [compactItems_cons_cons, List.mem_append, List.mem_cons] at hc
      rcases hc with hc | rfl | hc
      · exact ⟨first, List.mem_cons_self, hc⟩
      · exact absurd rfl hcomma
      · obtain ⟨item, hitem, hc⟩ := ih hc
        exact ⟨item, List.mem_cons_of_mem _ hitem, hc⟩

theorem hash_mem_strings {texts : List String} (h : '#' ∈ (Json.strings texts).compactChars) :
    ∃ text ∈ texts, '#' ∈ text.toList := by
  rw [Json.strings, compactChars, List.mem_cons, List.mem_append, List.mem_singleton] at h
  rcases h with h | h | h
  · exact absurd h (by decide)
  · obtain ⟨item, hitem, hc⟩ := mem_of_mem_compactItems h (by decide)
    obtain ⟨text, htext, rfl⟩ := List.mem_map.mp hitem
    rw [compactChars] at hc
    exact ⟨text, htext, hash_mem_of_hash_mem_quoted hc⟩
  · exact absurd h (by decide)

theorem compactMembers_cons_cons (key : String) (value : Json) (next : String × Json)
    (rest : List (String × Json)) :
    compactMembers ((key, value) :: next :: rest) =
      quoted key ++ ':' :: (value.compactChars ++ ',' :: compactMembers (next :: rest)) := by
  rw [compactMembers]
  simp

theorem infix_compactMembers {members : List (String × Json)} {m : String × Json}
    (h : m ∈ members) : m.2.compactChars <:+: compactMembers members := by
  induction members with
  | nil => cases h
  | cons first rest ih =>
    cases rest with
    | nil =>
      rw [List.mem_singleton.mp h, compactMembers]
      exact ((List.suffix_cons _ _).trans (List.suffix_append _ _)).isInfix
    | cons second rest =>
      rw [compactMembers_cons_cons]
      have hrest : first.2.compactChars ++ ',' :: compactMembers (second :: rest) <:+:
          quoted first.1 ++
            ':' :: (first.2.compactChars ++ ',' :: compactMembers (second :: rest)) :=
        ((List.suffix_cons _ _).trans (List.suffix_append _ _)).isInfix
      rcases List.mem_cons.mp h with rfl | h
      · exact (List.prefix_append _ _).isInfix.trans hrest
      · refine (ih h).trans (List.IsInfix.trans ?_ hrest)
        exact ((List.suffix_cons _ _).trans (List.suffix_append _ _)).isInfix

theorem form_infix_quoted (text : String) : form text <:+: quoted text :=
  ⟨['"'], ['"'], rfl⟩

end Json

/-! ### Frames and paths -/

open Json

theorem form_signature_infix_toJson (f : Frame) :
    form f.signature <:+: f.toJson.compactChars := by
  have hvalue : quoted f.signature = (Json.string f.signature).compactChars := by
    rw [compactChars]
  rw [Frame.toJson, compactChars]
  refine List.IsInfix.trans ?_
    ((List.prefix_append _ _).isInfix.trans (List.suffix_cons _ _).isInfix)
  refine (form_infix_quoted f.signature).trans ?_
  rw [hvalue]
  exact infix_compactMembers (m := ("signature", .string f.signature))
    (List.mem_append_left _ List.mem_cons_self)

/-- The text of a path holds the forms of all signatures on it. -/
theorem form_signature_infix_pathText {path : List Frame} {f : Frame} (hf : f ∈ path) :
    form f.signature <:+: pathText path := by
  have hitem := infix_compactItems (List.mem_map_of_mem (f := Frame.toJson) hf)
  have hitems : compactItems (path.map Frame.toJson) <:+: pathText path := by
    rw [pathText, compactChars]
    exact ⟨['['], [']'], rfl⟩
  exact (form_signature_infix_toJson f).trans (hitem.trans hitems)

/-- In the text of a path with one frame, whatever surrounds the form of the signature has hash
marks only from the other parts of the frame. -/
theorem exists_pathText_singleton (f : Frame) (hmapping : f.mappingPath = none) :
    ∃ before after, pathText [f] = before ++ form f.signature ++ after ∧ '#' ∉ before ∧
      ('#' ∈ after → '#' ∈ f.className.toList ∨ '#' ∈ f.methodName.toList ∨
        ∃ p ∈ f.parameters, '#' ∈ p.toList) := by
  refine ⟨['[', '\x7b'] ++ quoted "signature" ++ [':', '"'],
    (['"', ','] ++ quoted "class_name" ++ [':']) ++ quoted f.className ++
      ([','] ++ quoted "method_name" ++ [':']) ++ quoted f.methodName ++
      ([','] ++ quoted "parameters" ++ [':']) ++ (Json.strings f.parameters).compactChars ++
      ['\x7d', ']'], ?_, ?_, ?_⟩
  · rw [pathText, List.map_singleton, compactChars, compactItems, Frame.toJson, hmapping,
      Option.map_none, Option.toList_none, List.append_nil, compactChars]
    simp only [compactMembers, compactChars]
    simp [quoted, form]
  · decide
  · intro h
    rw [List.mem_append, List.mem_append, List.mem_append, List.mem_append, List.mem_append,
      List.mem_append] at h
    rcases h with (((((h | h) | h) | h) | h) | h) | h
    · exact absurd h (by decide)
    · exact .inl (hash_mem_of_hash_mem_quoted h)
    · exact absurd h (by decide)
    · exact .inr (.inl (hash_mem_of_hash_mem_quoted h))
    · exact absurd h (by decide)
    · exact .inr (.inr (hash_mem_strings h))
    · exact absurd h (by decide)

end CallForest
