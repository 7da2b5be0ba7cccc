import CallForest.Proofs.PathText
import Mathlib.Data.List.Forall2

/-!
# What the text of a path contains

The text of a path has its strings between quotes, and around them the names of the members and
punctuation, neither of which has a hash mark. A signature has a hash mark, and if it has no quote,
it cannot reach from inside a string to the outside. So where it is found, it is found inside one
string of one frame, and the serialized guard refuses exactly the parts of those strings.

## Main definitions

* `Frame.texts` — the strings of a frame;
* `Spaced` — a text that has the given strings between quotes, and no hash mark outside them.

## Main results

* `Spaced.infix_iff` — what can be found in such a text;
* `spaced_pathText` — the text of a path is such a text;
* `admits_serialized_eq_false_iff` — what the serialized guard refuses, whatever the frames hold;
* `admits_serialized_eq_false_iff_substring` — the same if nothing has to be escaped.
-/

namespace CallForest

open Json

/-- The strings of a frame. -/
def Frame.texts (f : Frame) : List String :=
  [f.signature, f.className, f.methodName] ++ f.parameters ++ f.mappingPath.toList

/-! ### Strings between quotes -/

/-- The characters are the texts between quotes, in order, and others that are no hash marks. -/
inductive Spaced : List String → List Char → Prop
  | gap {cs : List Char} (hcs : '#' ∉ cs) : Spaced [] cs
  | next {gap cs : List Char} {texts : List String} (text : String) (hgap : '#' ∉ gap)
      (rest : Spaced texts cs) : Spaced (text :: texts) (gap ++ (quoted text ++ cs))

namespace Spaced

variable {texts texts' : List String} {cs cs' : List Char}

/-- A text between quotes, with nothing around it. -/
theorem quoted (text : String) : Spaced [text] (quoted text) := by
  have h : Spaced [text] ([] ++ (Json.quoted text ++ [])) := .next text (by simp) (.gap (by simp))
  simpa using h

/-- What comes after each other is spaced if both parts are: two gaps that meet are one gap. -/
theorem append (h : Spaced texts cs) (h' : Spaced texts' cs') :
    Spaced (texts ++ texts') (cs ++ cs') := by
  induction h with
  | gap hcs =>
    cases h' with
    | gap hcs' =>
      apply gap
      rw [List.mem_append, not_or]
      exact ⟨hcs, hcs'⟩
    | next text hgap rest =>
      rw [← List.append_assoc]
      apply next text _ rest
      rw [List.mem_append, not_or]
      exact ⟨hcs, hgap⟩
  | next text hgap _ ih =>
    rw [List.append_assoc, List.append_assoc]
    exact next text hgap ih

/-- A character in front belongs to the first gap. -/
theorem cons {c : Char} (hc : c ≠ '#') (h : Spaced texts cs) : Spaced texts (c :: cs) := by
  have hgap : '#' ∉ [c] := by
    rw [List.mem_singleton]
    exact hc.symm
  exact (gap hgap).append h

theorem concat {c : Char} (h : Spaced texts cs) (hc : c ≠ '#') : Spaced texts (cs ++ [c]) := by
  have hgap : '#' ∉ [c] := by
    rw [List.mem_singleton]
    exact hc.symm
  have happend := h.append (gap hgap)
  rwa [List.append_nil] at happend

/-- A text with a hash mark is not found where there is none. -/
theorem not_found_in_gap {pattern gap : List Char} (hhash : '#' ∈ pattern) (hgap : '#' ∉ gap) :
    ¬ pattern <:+: gap := by
  intro hfound
  exact hgap (hfound.subset hhash)

/-- A pattern with a hash mark and without quotes is found inside one of the texts. -/
theorem infix_iff (h : Spaced texts cs) {pattern : List Char} (hhash : '#' ∈ pattern)
    (hquote : '"' ∉ pattern) :
    pattern <:+: cs ↔ ∃ text ∈ texts, pattern <:+: form text := by
  induction h with
  | gap hcs =>
    have hnone := not_found_in_gap hhash hcs
    simp [hnone]
  | next text hgap _ ih =>
    -- The text is cut at the two quotes, and the pattern is in none of the gaps.
    rw [quoted_append, Text.infix_append_mark_iff hquote, Text.infix_append_mark_iff hquote,
      or_iff_right (not_found_in_gap hhash hgap), List.exists_mem_cons_iff]
    exact or_congr_right ih

/-! ### Compact forms -/

/-- The items of an array, with commas between them. -/
theorem compactItems {items : List Json} {parts : List (List String)}
    (h : List.Forall₂ (fun item texts => Spaced texts item.compactChars) items parts) :
    Spaced parts.flatten (compactItems items) := by
  induction h with
  | nil => exact gap List.not_mem_nil
  | @cons item part items parts hitem hitems ih =>
    rw [List.flatten_cons]
    cases items with
    | nil =>
      cases hitems
      rwa [Json.compactItems, List.flatten_nil, List.append_nil]
    | cons second rest =>
      rw [compactItems_cons_cons]
      exact hitem.append (ih.cons (by decide))

/-- The names of the members are part of the gaps. -/
theorem compactMembers {members : List (String × Json)} {parts : List (List String)}
    (h : List.Forall₂ (fun m texts => '#' ∉ m.1.toList ∧ Spaced texts m.2.compactChars)
      members parts) :
    Spaced parts.flatten (compactMembers members) := by
  induction h with
  | nil => exact gap List.not_mem_nil
  | @cons m part members parts hm hmembers ih =>
    obtain ⟨hname, hvalue⟩ := hm
    have hgap : '#' ∉ Json.quoted m.1 := mt hash_mem_of_hash_mem_quoted hname
    have hmember : Spaced part (Json.quoted m.1 ++ ':' :: m.2.compactChars) :=
      (gap hgap).append (hvalue.cons (by decide))
    rw [List.flatten_cons]
    cases members with
    | nil =>
      cases hmembers
      rwa [Json.compactMembers, List.flatten_nil, List.append_nil]
    | cons second rest =>
      rw [compactMembers_cons_cons]
      have hall := hmember.append (ih.cons (c := ',') (by decide))
      rwa [List.append_assoc, List.cons_append] at hall

theorem strings (texts : List String) : Spaced texts (Json.strings texts).compactChars := by
  have hitems : Spaced (texts.map ([·])).flatten (Json.compactItems (texts.map Json.string)) := by
    apply compactItems
    rw [List.forall₂_map_left_iff, List.forall₂_map_right_iff, List.forall₂_same]
    intro text _
    rw [compactChars]
    exact quoted text
  rw [← List.flatMap_def, List.flatMap_singleton'] at hitems
  rw [Json.strings, compactChars]
  exact (hitems.concat (by decide)).cons (by decide)

end Spaced

/-! ### Frames and paths -/

/-- The strings of a frame stand in its text, and the names of its members have no hash marks. -/
theorem Frame.spaced_toJson (f : Frame) : Spaced f.texts f.toJson.compactChars := by
  have hstring (text : String) : Spaced [text] (Json.string text).compactChars := by
    rw [compactChars]
    exact .quoted text
  have hmapping : List.Forall₂
      (fun m texts => '#' ∉ m.1.toList ∧ Spaced texts m.2.compactChars)
      (f.mappingPath.map fun path => ("mapping_path", Json.string path)).toList
      (f.mappingPath.toList.map ([·])) := by
    cases f.mappingPath with
    | none => exact .nil
    | some path => exact .cons ⟨by simp, hstring path⟩ .nil
  have hmembers := Spaced.compactMembers
    (.cons (a := ("signature", .string f.signature)) ⟨by simp, hstring f.signature⟩
      (.cons (a := ("class_name", .string f.className)) ⟨by simp, hstring f.className⟩
        (.cons (a := ("method_name", .string f.methodName)) ⟨by simp, hstring f.methodName⟩
          (.cons (a := ("parameters", .strings f.parameters)) ⟨by simp, .strings f.parameters⟩
            hmapping))))
  have htexts : ([f.signature] :: [f.className] :: [f.methodName] :: f.parameters ::
      f.mappingPath.toList.map ([·])).flatten = f.texts := by
    simp [texts, ← List.flatMap_def]
  rw [htexts] at hmembers
  rw [toJson, compactChars]
  exact (hmembers.concat (by decide)).cons (by decide)

/-- The text of a path holds the strings of its frames, and no hash mark outside of them. -/
theorem spaced_pathText (path : List Frame) :
    Spaced (path.flatMap Frame.texts) (pathText path) := by
  have hitems : Spaced (path.map Frame.texts).flatten (compactItems (path.map Frame.toJson)) := by
    apply Spaced.compactItems
    rw [List.forall₂_map_left_iff, List.forall₂_map_right_iff, List.forall₂_same]
    intro f _
    exact f.spaced_toJson
  rw [pathText, compactChars, List.flatMap_def]
  exact (hitems.concat (by decide)).cons (by decide)

/-! ### Refused calls -/

/-- Whatever the frames hold, only their strings matter, each in its JSON form. -/
theorem admits_serialized_eq_false_iff (path : List Frame) {candidate : String}
    (hhash : '#' ∈ candidate.toList) (hquote : '"' ∉ candidate.toList) :
    CycleGuard.serialized.admits path candidate = false ↔
      ∃ f ∈ path, ∃ text ∈ f.texts, candidate.toList <:+: form text := by
  rw [CycleGuard.admits, Bool.not_eq_false', Text.occursIn_iff,
    (spaced_pathText path).infix_iff hhash hquote]
  simp only [List.mem_flatMap]
  grind

/-- If nothing has to be escaped, the serialized guard refuses a call exactly if its signature is a
part of the signature, the class, the name, a parameter type or the mapping path of a frame. -/
theorem admits_serialized_eq_false_iff_substring (path : List Frame) (candidate : String)
    (hhash : '#' ∈ candidate.toList) (hcandidate : IsPlain candidate)
    (hpath : ∀ f ∈ path, ∀ text ∈ f.texts, IsPlain text) :
    CycleGuard.serialized.admits path candidate = false ↔
      ∃ f ∈ path,
        candidate.toList <:+: f.signature.toList ∨
        candidate.toList <:+: f.className.toList ∨
        candidate.toList <:+: f.methodName.toList ∨
        (∃ p ∈ f.parameters, candidate.toList <:+: p.toList) ∨
        ∃ mapping ∈ f.mappingPath, candidate.toList <:+: mapping.toList := by
  have hquote : '"' ∉ candidate.toList := by
    intro hin
    exact (hcandidate _ hin).1 rfl
  rw [admits_serialized_eq_false_iff path hhash hquote]
  apply exists_congr
  intro f
  apply and_congr_right
  intro hf
  have hform : (∃ text ∈ f.texts, candidate.toList <:+: form text) ↔
      ∃ text ∈ f.texts, candidate.toList <:+: text.toList := by
    apply exists_congr
    intro text
    apply and_congr_right
    intro htext
    rw [form_of_isPlain (hpath f hf text htext)]
  rw [hform]
  simp [Frame.texts, or_and_right, exists_or]

/-- An entry point that calls a class whose name ends like that of another. -/
def proxiedPath : List Frame :=
  [{ signature := "a/Shop#buy(a/Item)", className := "a/Shop", methodName := "buy",
     parameters := ["a/Item"], mappingPath := some "/shop#buy" },
   { signature := "proxy/a/Cart#add(a/Item,I)", className := "proxy/a/Cart", methodName := "add",
     parameters := ["a/Item", "I"] }]

/-- Parts of a signature and of a mapping path are refused. What goes on from one string into the
next is not. -/
theorem admits_serialized_eq_false_iff_substring_proxiedPath :
    (∀ f ∈ proxiedPath, ∀ text ∈ f.texts, IsPlain text) ∧
      CycleGuard.serialized.admits proxiedPath "a/Cart#add(a/Item,I)" = false ∧
      CycleGuard.serialized.admits proxiedPath "shop#buy" = false ∧
      CycleGuard.serialized.admits proxiedPath "#add(a/Item,I),class_name:proxy" = true := by
  have hplain : ∀ f ∈ proxiedPath, ∀ text ∈ f.texts, IsPlain text := by decide
  have hiff (candidate : String) (hhash : '#' ∈ candidate.toList)
      (hcandidate : IsPlain candidate) :=
    admits_serialized_eq_false_iff_substring proxiedPath candidate hhash hcandidate hplain
  refine ⟨hplain, ?_, ?_, ?_⟩
  · exact (hiff _ (by decide) (by decide)).mpr (by decide)
  · exact (hiff _ (by decide) (by decide)).mpr (by decide)
  · rw [← Bool.not_eq_false, hiff _ (by decide) (by decide)]
    decide

end CallForest
