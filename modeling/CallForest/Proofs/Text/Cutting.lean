import CallForest.Text.Blank
import CallForest.Text.Search
import Mathlib.Data.List.Infix
import Mathlib.Data.List.TakeWhile

/-!
# Cutting texts

Where a pattern is first found in a text that is put together from pieces. If the pattern is no
piece of a piece, it can still begin in one and reach into the next, unless no end of it agrees with
the beginning of that piece. Whether it does can be decided, so for fixed patterns and pieces the
place of the first occurrence is known, whatever stands around them.

Trimming removes what is blank around a text, and a listing is cut at its line feeds.

## Main definitions

* `Text.ReachesInto` — a pattern can begin in front of a text and end inside it;
* `Text.stripped` — trimming on lists of characters;
* `Text.kept`, `Text.entries` — the lines of a listing that are not blank;
* `Text.LineOf` — a line of a listing with what stands around it.

## Main results

* `Text.infix_of_infix_append`, `Text.prefix_or_infix` — a pattern that does not reach across is
  found on one side;
* `Text.after?_first`, `Text.after?_append` — what follows the first occurrence;
* `Text.stripped_around` — blank characters around a text do not count;
* `Text.entries_append`, `Text.LineOf.entries_eq` — a listing can be cut at any line feed.
-/

namespace CallForest.Text

variable {pattern front start text rest lead trail : List Char}

/-! ### Reaching across -/

/-- The pattern can begin in front of a text that starts with `start` and end inside of it: some end
of the pattern agrees with `start` as far as both go. -/
def ReachesInto (pattern start : List Char) : Prop :=
  ∃ tail ∈ pattern.tails, tail ≠ [] ∧ tail ≠ pattern ∧ (tail <+: start ∨ start <+: tail)
deriving Decidable

theorem reachesInto_of_agrees {tail : List Char} (hfront : front ≠ []) (htail : tail ≠ [])
    (hbegin : tail <+: start ++ rest) : ReachesInto (front ++ tail) start := by
  refine ⟨tail, (List.mem_tails _ _).mpr (List.suffix_append _ _), htail, ?_, ?_⟩
  · intro heq
    exact hfront (List.append_left_eq_self.mp heq.symm)
  · exact List.prefix_or_prefix_of_prefix hbegin (List.prefix_append _ _)

/-- A pattern at the beginning of two pieces lies in the first one or ends in the second one. -/
theorem prefix_append_cases (h : pattern <+: front ++ rest) :
    pattern <+: front ∨ ∃ tail, tail ≠ [] ∧ pattern = front ++ tail ∧ tail <+: rest := by
  rcases List.prefix_or_prefix_of_prefix h (List.prefix_append front rest) with hfront | hpattern
  · exact .inl hfront
  · obtain ⟨tail, rfl⟩ := hpattern
    by_cases htail : tail = []
    · left
      rw [htail, List.append_nil]
    · exact .inr ⟨tail, htail, rfl, (List.prefix_append_right_inj front).mp h⟩

/-- What ends two pieces lies in the second one or begins in the first one. -/
theorem suffix_append_cases (h : text <:+ front ++ rest) :
    text <:+ rest ∨ ∃ tail, tail ≠ [] ∧ tail <:+ front ∧ text = tail ++ rest := by
  rcases List.suffix_or_suffix_of_suffix h (List.suffix_append front rest) with hrest | htext
  · exact .inl hrest
  · obtain ⟨tail, rfl⟩ := htext
    by_cases htail : tail = []
    · left
      rw [htail, List.nil_append]
    · exact .inr ⟨tail, htail, ((List.suffix_append_inj_of_length_eq rfl).mp h).1, rfl⟩

/-- A pattern that does not reach into `start` is found in front of it or from there on. -/
theorem infix_of_infix_append (h : ¬ ReachesInto pattern start)
    (hfound : pattern <:+: front ++ (start ++ rest)) :
    pattern <:+: front ∨ pattern <:+: start ++ rest := by
  obtain ⟨text, hbegin, hsuffix⟩ := List.infix_iff_prefix_suffix.mp hfound
  rcases suffix_append_cases hsuffix with hbehind | ⟨tail, htail, hfront, rfl⟩
  · exact .inr (hbegin.isInfix.trans hbehind.isInfix)
  · rcases prefix_append_cases hbegin with hinside | ⟨last, hlast, rfl, hstart⟩
    · exact .inl (hinside.isInfix.trans hfront.isInfix)
    · exact absurd (reachesInto_of_agrees htail hlast hstart) h

/-- A piece that a pattern has nothing to do with can be left out at the end. -/
theorem infix_of_infix_append_end (h : ¬ ReachesInto pattern start) (hstart : ¬ pattern <:+: start)
    (hfound : pattern <:+: front ++ start) : pattern <:+: front := by
  rw [← List.append_nil start] at hfound
  refine (infix_of_infix_append h hfound).resolve_right ?_
  rwa [List.append_nil]

/-- A pattern that `start` does not reach into is found at the beginning of `start` or behind
it. -/
theorem prefix_or_infix (h : ¬ ReachesInto start pattern) (hfound : pattern <:+: start ++ rest) :
    pattern <+: start ++ rest ∨ pattern <:+: rest := by
  obtain ⟨text, hbegin, hsuffix⟩ := List.infix_iff_prefix_suffix.mp hfound
  rcases suffix_append_cases hsuffix with hbehind | ⟨tail, htail, ⟨skipped, rfl⟩, rfl⟩
  · exact .inr (hbegin.isInfix.trans hbehind.isInfix)
  · by_cases hskipped : skipped = []
    · left
      rwa [hskipped, List.nil_append]
    · -- Some end of `start` and the pattern begin at the same place.
      refine absurd ⟨tail, (List.mem_tails _ _).mpr (List.suffix_append _ _), htail, ?_, ?_⟩ h
      · intro heq
        exact hskipped (List.append_left_eq_self.mp heq.symm)
      · exact List.prefix_or_prefix_of_prefix (List.prefix_append _ _) hbegin

/-! ### Beginnings, endings and first occurrences -/

theorem dropStart?_eq_some_iff : dropStart? pattern text = some rest ↔ text = pattern ++ rest := by
  unfold dropStart?
  split
  case isTrue h =>
    obtain ⟨tail, rfl⟩ := List.isPrefixOf_iff_prefix.mp h
    simp
  case isFalse h =>
    constructor
    · intro heq
      cases heq
    · rintro rfl
      exact absurd (List.isPrefixOf_iff_prefix.mpr (List.prefix_append _ _)) h

theorem dropEnd?_eq_some_iff : dropEnd? pattern text = some front ↔ text = front ++ pattern := by
  unfold dropEnd?
  split
  case isTrue h =>
    obtain ⟨before, rfl⟩ := List.isSuffixOf_iff_suffix.mp h
    simp
  case isFalse h =>
    constructor
    · intro heq
      cases heq
    · rintro rfl
      exact absurd (List.isSuffixOf_iff_suffix.mpr (List.suffix_append _ _)) h

theorem after?_of_prefix (pattern rest : List Char) :
    after? pattern (pattern ++ rest) = some rest := by
  have hstart : dropStart? pattern (pattern ++ rest) = some rest := dropStart?_eq_some_iff.mpr rfl
  cases htext : pattern ++ rest with
  | nil => rwa [htext] at hstart
  | cons c cs =>
    rw [htext] at hstart
    rw [after?, hstart, Option.some_or]

theorem after?_cons_of_later {c : Char} (h : ¬ pattern <+: c :: text) :
    after? pattern (c :: text) = after? pattern text := by
  rw [after?, dropStart?, if_neg (mt List.isPrefixOf_iff_prefix.mp h), Option.none_or]

/-- Nothing is found exactly if the pattern does not occur. -/
theorem after?_eq_none_iff : after? pattern text = none ↔ ¬ pattern <:+: text := by
  induction text with
  | nil => simp [after?, dropStart?]
  | cons c text ih =>
    by_cases h : pattern <+: c :: text
    · obtain ⟨rest, hsplit⟩ := h
      rw [← hsplit, after?_of_prefix]
      simpa using (List.prefix_append pattern rest).isInfix
    · rw [after?_cons_of_later h, ih, List.infix_cons_iff, not_or]
      exact (and_iff_right h).symm

theorem infix_of_after?_isSome (h : (after? pattern text).isSome = true) : pattern <:+: text := by
  by_contra hnone
  rw [after?_eq_none_iff.mpr hnone] at h
  cases h

/-- More text does not move the first occurrence. -/
theorem after?_append (more : List Char) (h : after? pattern text = some rest) :
    after? pattern (text ++ more) = some (rest ++ more) := by
  induction text with
  | nil =>
    rw [after?, dropStart?_eq_some_iff] at h
    rw [h, List.append_assoc, after?_of_prefix]
  | cons c text ih =>
    by_cases hbegin : pattern <+: c :: text
    · obtain ⟨tail, hsplit⟩ := hbegin
      rw [← hsplit, after?_of_prefix] at h
      rw [← hsplit, List.append_assoc, after?_of_prefix, Option.some.inj h]
    · rw [after?_cons_of_later hbegin] at h
      -- The pattern is found later on, so it is too short to need what is added.
      have hlater : pattern.length ≤ text.length := by
        have hfound : pattern <:+: text := infix_of_after?_isSome (by rw [h, Option.isSome_some])
        exact hfound.length_le
      have hmore : ¬ pattern <+: c :: (text ++ more) := by
        intro hlong
        rw [← List.cons_append] at hlong
        rcases prefix_append_cases hlong with hshort | ⟨tail, -, rfl, -⟩
        · exact hbegin hshort
        · rw [List.length_append, List.length_cons] at hlater
          omega
      rw [List.cons_append, after?_cons_of_later hmore, ih h]

/-- A pattern that does not reach into itself is first found where it was put, if it is not found in
front of that place. -/
theorem after?_first (hself : ¬ ReachesInto pattern pattern) (hfront : ¬ pattern <:+: front)
    (rest : List Char) : after? pattern (front ++ (pattern ++ rest)) = some rest := by
  induction front with
  | nil => exact after?_of_prefix pattern rest
  | cons c front ih =>
    have hfirst : ¬ pattern <+: c :: (front ++ (pattern ++ rest)) := by
      intro hbegin
      rw [← List.cons_append] at hbegin
      rcases prefix_append_cases hbegin with hshort | ⟨tail, htail, heq, hrest⟩
      · exact hfront hshort.isInfix
      · apply hself
        nth_rewrite 1 [heq]
        exact reachesInto_of_agrees (List.cons_ne_nil _ _) htail hrest
    rw [List.cons_append, after?_cons_of_later hfirst]
    exact ih fun hfound => hfront (hfound.trans (List.suffix_cons c front).isInfix)

/-- If something can be found, and whatever can be found has a property, then a search finds
something with that property. -/
theorem exists_findSome?_eq_some {α β : Type} {f : α → Option β} {items : List α} {item : α}
    {P : β → Prop} (hmem : item ∈ items) (hitem : (f item).isSome = true)
    (hall : ∀ other ∈ items, ∀ found, f other = some found → P found) :
    ∃ found, items.findSome? f = some found ∧ P found := by
  have hsome : (items.findSome? f).isSome = true := by
    rw [List.findSome?_isSome_iff]
    exact ⟨item, hmem, hitem⟩
  obtain ⟨found, hfound⟩ := Option.isSome_iff_exists.mp hsome
  obtain ⟨other, hother, hvalue⟩ := List.exists_of_findSome?_eq_some hfound
  exact ⟨found, hfound, hall other hother found hvalue⟩

/-- A search that can succeed in one way only. -/
theorem findSome?_eq_of_unique {α β : Type} {f : α → Option β} {items : List α} {item : α}
    {found : β} (hmem : item ∈ items) (hitem : f item = some found)
    (hunique : ∀ other ∈ items, (f other).isSome = true → other = item) :
    items.findSome? f = some found := by
  have hall : ∀ other ∈ items, ∀ result, f other = some result → result = found := by
    intro other hother result hresult
    have heq : other = item := hunique other hother (by rw [hresult, Option.isSome_some])
    rw [heq, hitem] at hresult
    exact (Option.some.inj hresult).symm
  obtain ⟨result, hresult, rfl⟩ :=
    exists_findSome?_eq_some hmem (by rw [hitem, Option.isSome_some]) hall
  exact hresult

/-! ### Trimming -/

/-- The text without the blank characters at either end. -/
def stripped (text : List Char) : List Char :=
  dropEndWhile isBlank (text.dropWhile isBlank)

theorem toList_trim (s : String) : (trim s).toList = stripped s.toList :=
  String.toList_ofList

theorem dropEndWhile_append_of_all {p : Char → Bool} (htrail : ∀ c ∈ trail, p c = true) :
    dropEndWhile p (text ++ trail) = dropEndWhile p text := by
  rw [dropEndWhile, dropEndWhile, List.reverse_append, List.dropWhile_append_of_pos]
  intro c hc
  exact htrail c (List.mem_reverse.mp hc)

/-- Blank characters around a text do not count. -/
theorem stripped_around (hlead : ∀ c ∈ lead, isBlank c = true)
    (htrail : ∀ c ∈ trail, isBlank c = true) :
    stripped (lead ++ text ++ trail) = stripped text := by
  rw [stripped, stripped, List.append_assoc, List.dropWhile_append_of_pos hlead,
    List.dropWhile_append]
  split
  case isTrue hblank =>
    rw [List.isEmpty_iff.mp hblank, List.dropWhile_eq_nil_iff.mpr htrail]
  case isFalse => rw [dropEndWhile_append_of_all htrail]

/-- A text lies between the blank characters that trimming removes. -/
theorem exists_around_stripped (text : List Char) : ∃ lead trail,
    (∀ c ∈ lead, isBlank c = true) ∧ (∀ c ∈ trail, isBlank c = true) ∧
      text = lead ++ stripped text ++ trail := by
  refine ⟨text.takeWhile isBlank, ((text.dropWhile isBlank).reverse.takeWhile isBlank).reverse,
    fun c hc => List.mem_takeWhile_imp hc,
    fun c hc => List.mem_takeWhile_imp (List.mem_reverse.mp hc), ?_⟩
  rw [List.append_assoc, stripped, dropEndWhile_append, List.takeWhile_append_dropWhile]

/-- Trimmed text has nothing more to trim. -/
theorem trim_trim (s : String) : trim (trim s) = trim s := by
  obtain ⟨lead, trail, hlead, htrail, hsplit⟩ := exists_around_stripped s.toList
  have hstripped : stripped (stripped s.toList) = stripped s.toList := by
    nth_rewrite 2 [hsplit]
    exact (stripped_around hlead htrail).symm
  rw [← String.toList_inj, toList_trim, toList_trim, hstripped]

theorem dropWhile_eq_self_of_head {p : Char → Bool} (h : text.head?.map p = some false) :
    text.dropWhile p = text := by
  cases text with
  | nil => rfl
  | cons c text =>
    have hc : p c = false := by simpa using h
    simp [hc]

theorem dropWhile_append_of_head {p : Char → Bool} (h : text.head?.map p = some false)
    (front : List Char) : (front ++ text).dropWhile p = front.dropWhile p ++ text := by
  rw [List.dropWhile_append]
  split
  case isTrue hempty =>
    rw [List.isEmpty_iff.mp hempty, dropWhile_eq_self_of_head h, List.nil_append]
  case isFalse => rfl

/-- A pattern is not found in what is dropped if it does not begin with it. -/
theorem infix_dropWhile_iff {p : Char → Bool} (h : pattern.head?.map p = some false) :
    pattern <:+: text.dropWhile p ↔ pattern <:+: text := by
  refine ⟨fun hfound => hfound.trans (List.dropWhile_suffix p).isInfix, ?_⟩
  intro hfound
  induction text with
  | nil => exact hfound
  | cons c text ih =>
    by_cases hc : p c = true
    · rw [List.dropWhile_cons_of_pos hc]
      apply ih
      rcases List.infix_cons_iff.mp hfound with hbegin | hlater
      · cases pattern with
        | nil => exact List.nil_infix
        | cons d pattern =>
          have hd : p d = false := by simpa using h
          rw [(List.cons_prefix_cons.mp hbegin).1, hc] at hd
          cases hd
      · exact hlater
    · rwa [List.dropWhile_cons_of_neg hc]

/-- If a text ends in a piece with no blank characters at its ends, blank characters are removed
only in front of that piece. -/
theorem stripped_append (hhead : text.head?.map isBlank = some false)
    (hlast : text.getLast?.map isBlank = some false) (front : List Char) :
    stripped (front ++ text) = front.dropWhile isBlank ++ text := by
  have hkeep (before : List Char) : dropEndWhile isBlank (before ++ text) = before ++ text := by
    obtain ⟨last, hmem, hblank⟩ := Option.map_eq_some_iff.mp hlast
    rw [dropEndWhile, dropWhile_eq_self_of_head, List.reverse_reverse]
    rw [List.head?_reverse, List.getLast?_append, hmem, Option.some_or, Option.map_some, hblank]
  rw [stripped, dropWhile_append_of_head hhead, hkeep]

/-! ### Listings -/

/-- What counts of some lines: those that are not blank, without blank characters at their ends. -/
def kept (lines : List String) : List String :=
  (lines.map trim).filter (· ≠ "")

theorem kept_cons (line : String) (rest : List String) :
    kept (line :: rest) = kept [line] ++ kept rest := by
  rw [kept, kept, kept, ← List.filter_append, ← List.map_append, List.singleton_append]

/-- The lines of a listing that are not blank, without blank characters at their ends. -/
def entries (listing : String) : List String :=
  kept (lines listing)

/-- A line ends at the line feed, and a carriage return in front of it does not count. -/
theorem kept_go_break (line after : List Char) : kept (lines.go line ('\n' :: after)) =
    kept [String.ofList line.reverse] ++ kept (lines.go [] after) := by
  by_cases hreturn : ∃ before, line = '\r' :: before
  · obtain ⟨before, rfl⟩ := hreturn
    have hline : lines.go ('\r' :: before) ('\n' :: after) =
        String.ofList before.reverse :: lines.go [] after := rfl
    have htrim : trim (String.ofList ('\r' :: before).reverse) =
        trim (String.ofList before.reverse) := by
      rw [← String.toList_inj, toList_trim, toList_trim, String.toList_ofList,
        String.toList_ofList, List.reverse_cons]
      exact stripped_around (List.forall_mem_nil _) (List.forall_mem_singleton.mpr (by decide))
    have hkept : kept [String.ofList ('\r' :: before).reverse] =
        kept [String.ofList before.reverse] := by
      rw [kept, kept, List.map_singleton, List.map_singleton, htrim]
    rw [hline, kept_cons, hkept]
  · have hline : lines.go line ('\n' :: after) =
        String.ofList line.reverse :: lines.go [] after := by
      rw [lines.go]
      exact not_exists.mp hreturn
    rw [hline, kept_cons]

theorem kept_go_nil (line : List Char) :
    kept (lines.go line []) = kept [String.ofList line.reverse] := by
  cases line with
  | nil => rfl
  | cons c line => rfl

theorem go_cons_of_ne {c : Char} (hc : c ≠ '\n') (line text : List Char) :
    lines.go line (c :: text) = lines.go (c :: line) text := by
  rw [lines.go]
  exact hc

theorem kept_go_append (line before after : List Char) :
    kept (lines.go line (before ++ '\n' :: after)) =
      kept (lines.go line before) ++ kept (lines.go [] after) := by
  -- The line that was begun is taken along, since it may end in `before` or go on to the cut.
  induction before generalizing line with
  | nil => rw [List.nil_append, kept_go_break, kept_go_nil]
  | cons c before ih =>
    by_cases hc : c = '\n'
    · rw [hc, List.cons_append, kept_go_break, kept_go_break, ih, List.append_assoc]
    · rw [List.cons_append, go_cons_of_ne hc, go_cons_of_ne hc, ih]

/-- A listing can be cut at any line feed. -/
theorem entries_append (before after : String) :
    entries (before ++ "\n" ++ after) = entries before ++ entries after := by
  have hsplit : (before ++ "\n" ++ after).toList = before.toList ++ '\n' :: after.toList := by simp
  rw [entries, lines, hsplit, kept_go_append]
  rfl

theorem go_of_not_mem (h : '\n' ∉ text) (line : List Char) :
    lines.go line text = lines.go (text.reverse ++ line) [] := by
  induction text generalizing line with
  | nil => rfl
  | cons c text ih =>
    rw [List.mem_cons, not_or] at h
    rw [go_cons_of_ne (Ne.symm h.1), ih h.2, List.reverse_cons, List.append_assoc,
      List.singleton_append]

/-- What has no line feed is one line. -/
theorem entries_of_not_mem {line : String} (h : '\n' ∉ line.toList) :
    entries line = kept [line] := by
  rw [entries, lines, go_of_not_mem h, kept_go_nil, List.append_nil, List.reverse_reverse,
    String.ofList_toList]

/-- A listing in which `line` stands between `before` and `after`, with line feeds or the ends of
the listing around it. -/
structure LineOf (line before after listing : String) : Prop where
  listing_eq : listing = before ++ line ++ after
  before_eq : before = "" ∨ ∃ front, before = front ++ "\n"
  after_eq : after = "" ∨ ∃ rest, after = "\n" ++ rest

/-- The entries of a line stand between those of what is before it and of what is after it. -/
theorem LineOf.entries_eq {line before after listing : String}
    (h : LineOf line before after listing) :
    entries listing = entries before ++ entries line ++ entries after := by
  have hempty : entries "" = [] := rfl
  have hbehind : entries (line ++ after) = entries line ++ entries after := by
    rcases h.after_eq with hafter | ⟨rest, hafter⟩
    · rw [hafter, String.append_empty, hempty, List.append_nil]
    · have hrest := entries_append "" rest
      rw [hempty, List.nil_append, String.empty_append] at hrest
      rw [hafter, ← String.append_assoc, entries_append, hrest]
  rcases h.before_eq with hbefore | ⟨front, hbefore⟩
  · rw [h.listing_eq, hbefore, String.empty_append, hbehind, hempty, List.nil_append]
  · have hfront := entries_append front ""
    rw [hempty, List.append_nil, String.append_empty] at hfront
    rw [h.listing_eq, hbefore, String.append_assoc, entries_append, hbehind, hfront,
      List.append_assoc]

end CallForest.Text
