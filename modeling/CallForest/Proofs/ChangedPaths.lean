import CallForest.Proofs.ChangedClasses
import CallForest.Proofs.Text.Cutting
import Mathlib.Data.List.Forall2

/-!
# The class of a changed file

A file belongs to the class whose name follows the directory that sources or compiled classes stand
in. That directory is looked for in the whole path: first the source roots, in their order, then the
output directory, and each at its first occurrence. None of these directories can begin in front of
another one and end inside of it, so a source root that stands in a path is found where it stands,
unless there is one in front of it.

The output directory is looked for by a name that other directories can have too, or end with. So
the class of a compiled file is found if and only if there is neither a source root nor anything
that ends like an output directory in front of it.

## Main definitions

* `ChangeSet.normal` — a path as it is searched;
* `ChangeSet.classOfStem?` — the class of a path without its ending;
* `ChangeSet.WrittenAs` — a path with some of its slashes written as backslashes;
* `ChangeSet.Plain` — a text with nothing in it that a search or a listing could trip over.

## Main results

* `ChangeSet.root_cases` — where a root can be found around another one;
* `ChangeSet.classOfStem?_source`, `ChangeSet.classOfStem?_output_iff` — the classes of sources and
  of compiled files;
* `ChangeSet.mem_classes_ofListing_line` — what a line adds to the classes of a listing;
* `ChangeSet.ofListing_sourceLine` — source files in listings;
* `ChangeSet.classes_ofPaths_classFile_iff` — class files in the directories of any module.
-/

namespace CallForest.ChangeSet

open CallForest.Text

variable {path root other ext : String} {front start name stem : List Char}

/-! ### Paths with slashes -/

/-- A backslash is read as a slash. -/
def toSlash (c : Char) : Char :=
  if c = '\\' then '/' else c

theorem toSlash_of_ne {c : Char} (h : c ≠ '\\') : toSlash c = c :=
  if_neg h

/-- Reading backslashes as slashes makes no character blank. -/
theorem isBlank_toSlash (c : Char) : isBlank (toSlash c) = isBlank c := by
  unfold toSlash
  split
  case isTrue h =>
    rw [h]
    rfl
  case isFalse => rfl

theorem map_toSlash_eq_self {text : List Char} (h : '\\' ∉ text) : text.map toSlash = text := by
  conv_rhs => rw [← List.map_id text]
  apply List.map_congr_left
  intro c hc
  exact toSlash_of_ne (ne_of_mem_of_not_mem hc h)

/-- Only the directory of a path can have backslashes to be read. -/
theorem map_toSlash_pieces {dir start name ext : String} (hstart : '\\' ∉ start.toList)
    (hname : '\\' ∉ name.toList) (hext : '\\' ∉ ext.toList) :
    (dir ++ start ++ name ++ ext).toList.map toSlash =
      dir.toList.map toSlash ++ (start.toList ++ name.toList ++ ext.toList) := by
  simp only [String.toList_append, List.map_append, List.append_assoc, map_toSlash_eq_self hstart,
    map_toSlash_eq_self hname, map_toSlash_eq_self hext]

/-- A path as it is searched: with slashes and without blank characters around it. -/
def normal (path : String) : List Char :=
  (replaceChar '\\' '/' (trim path)).toList

/-- A change of characters that makes none of them blank can come before or after trimming. -/
theorem stripped_map {f : Char → Char} (hf : ∀ c, isBlank (f c) = isBlank c) (text : List Char) :
    stripped (text.map f) = (stripped text).map f := by
  have hcomp : isBlank ∘ f = isBlank := funext hf
  simp only [stripped, dropEndWhile, List.dropWhile_map, ← List.map_reverse, hcomp]

/-- Trimming and reading backslashes can change places. -/
theorem normal_eq (path : String) : normal path = stripped (path.toList.map toSlash) := by
  rw [normal, replaceChar, String.toList_ofList, toList_trim, stripped_map isBlank_toSlash]
  rfl

/-- The class of a path without its ending. -/
def classOfStem? (stem : List Char) : Option String :=
  let relative := ((sourceRoots ++ [outputRoot]).findSome? fun root =>
    after? root.toList stem).getD stem
  let name := relative.dropWhile (· = '/')
  if name.isEmpty then none else some (String.ofList name)

theorem classOfPath?_eq (path : String) : classOfPath? path =
    (extensions.findSome? fun ext => dropEnd? ext.toList (normal path)).bind classOfStem? :=
  rfl

/-- Blank characters around a path do not matter. -/
theorem classOfPath?_trim (path : String) : classOfPath? (trim path) = classOfPath? path := by
  rw [classOfPath?_eq, classOfPath?_eq, normal, trim_trim, ← normal]

/-- No ending is the end of another one. -/
theorem eq_of_suffix_extension : ∀ ext ∈ extensions, ∀ other ∈ extensions,
    ext.toList <:+ other.toList ∨ other.toList <:+ ext.toList → other = ext := by
  decide

/-- Of the extensions only one can stand at the end, so the others do not matter. -/
theorem classOfPath?_of_normal (hext : ext ∈ extensions)
    (hnormal : normal path = stem ++ ext.toList) : classOfPath? path = classOfStem? stem := by
  have hstem : dropEnd? ext.toList (normal path) = some stem := dropEnd?_eq_some_iff.mpr hnormal
  have hunique : ∀ other ∈ extensions, (dropEnd? other.toList (normal path)).isSome = true →
      other = ext := by
    intro other hother hsome
    obtain ⟨before, hbefore⟩ := Option.isSome_iff_exists.mp hsome
    have hends : ext.toList <:+ normal path := ⟨stem, hnormal.symm⟩
    have hends' : other.toList <:+ normal path := ⟨before, (dropEnd?_eq_some_iff.mp hbefore).symm⟩
    exact eq_of_suffix_extension ext hext other hother
      (List.suffix_or_suffix_of_suffix hends hends')
  have hfound : (extensions.findSome? fun ext => dropEnd? ext.toList (normal path)) = some stem :=
    findSome?_eq_of_unique hext hstem hunique
  rw [classOfPath?_eq, hfound, Option.bind_some]

theorem blank_extension : ∀ ext ∈ extensions, ext.toList.getLast?.map isBlank = some false := by
  decide

/-- If a path is put together from pieces, blank characters are removed only in front of the first
piece that begins with something else. -/
theorem classOfPath?_of_pieces (hext : ext ∈ extensions)
    (hstart : start.head?.map isBlank = some false)
    (hpath : path.toList.map toSlash = front ++ (start ++ name ++ ext.toList)) :
    classOfPath? path = classOfStem? (front.dropWhile isBlank ++ (start ++ name)) := by
  have hhead : (start ++ name ++ ext.toList).head?.map isBlank = some false := by
    obtain ⟨first, hfirst, hblank⟩ := Option.map_eq_some_iff.mp hstart
    rw [List.append_assoc, List.head?_append, hfirst, Option.some_or, Option.map_some, hblank]
  have hlast : (start ++ name ++ ext.toList).getLast?.map isBlank = some false := by
    obtain ⟨last, hlast, hblank⟩ := Option.map_eq_some_iff.mp (blank_extension ext hext)
    rw [List.getLast?_append, hlast, Option.some_or, Option.map_some, hblank]
  apply classOfPath?_of_normal hext
  rw [normal_eq, hpath, stripped_append hhead hlast, List.append_assoc (front.dropWhile isBlank)]

/-! ### Roots -/

/-- No directory that is looked for can begin in front of another one and end inside of it. -/
theorem not_reachesInto_root : ∀ root ∈ sourceRoots ++ [outputRoot],
    ∀ other ∈ sourceRoots ++ [outputRoot], ¬ ReachesInto root.toList other.toList := by
  decide

/-- No root begins with another one. -/
theorem eq_of_prefix_root : ∀ root ∈ sourceRoots ++ [outputRoot],
    ∀ other ∈ sourceRoots ++ [outputRoot],
      other.toList <+: root.toList ∨ root.toList <+: other.toList → other = root := by
  decide

theorem blank_root : ∀ root ∈ sourceRoots ++ [outputRoot],
    root.toList.head?.map isBlank = some false := by
  decide

/-- Around a root, another one is found in front of it or behind it. -/
theorem root_cases (hroot : root ∈ sourceRoots ++ [outputRoot])
    (hother : other ∈ sourceRoots ++ [outputRoot])
    (hfound : other.toList <:+: front ++ (root.toList ++ name)) :
    other.toList <:+: front ∨ other = root ∨ other.toList <:+: name := by
  rcases infix_of_infix_append (not_reachesInto_root other hother root hroot) hfound with
    hbefore | hfrom
  · exact .inl hbefore
  · rcases prefix_or_infix (not_reachesInto_root root hroot other hother) hfrom with hat | hbehind
    · exact .inr (.inl (eq_of_prefix_root root hroot other hother
        (List.prefix_or_prefix_of_prefix hat (List.prefix_append _ _))))
    · exact .inr (.inr hbehind)

/-- A root that does not stand in front of it is found where it is. -/
theorem after?_root (hroot : root ∈ sourceRoots ++ [outputRoot])
    (hfront : ¬ root.toList <:+: front) :
    after? root.toList (front ++ (root.toList ++ name)) = some name :=
  after?_first (not_reachesInto_root root hroot root hroot) hfront name

/-- Behind the root that is found stands the class. -/
theorem classOfStem?_of_found {relative : List Char}
    (hfound : ((sourceRoots ++ [outputRoot]).findSome? fun root => after? root.toList stem) =
      some relative) (hne : relative ≠ []) (hslash : relative.head? ≠ some '/') :
    classOfStem? stem = some (String.ofList relative) := by
  have hname : relative.dropWhile (· = '/') = relative := by
    cases relative with
    | nil => contradiction
    | cons c relative => exact dropWhile_eq_self_of_head (by simpa using hslash)
  rw [classOfStem?, hfound, Option.getD_some, hname, if_neg (mt List.isEmpty_iff.mp hne)]

/-- What follows a source root is the class, if there is no source root in front of it or behind
it. -/
theorem classOfStem?_source (hroot : root ∈ sourceRoots)
    (hfront : ∀ other ∈ sourceRoots, ¬ other.toList <:+: front)
    (hname : ∀ other ∈ sourceRoots, ¬ other.toList <:+: name)
    (hne : name ≠ []) (hslash : name.head? ≠ some '/') :
    classOfStem? (front ++ (root.toList ++ name)) = some (String.ofList name) := by
  have hfound : (sourceRoots.findSome? fun root' =>
      after? root'.toList (front ++ (root.toList ++ name))) = some name := by
    apply findSome?_eq_of_unique hroot
      (after?_root (List.mem_append_left _ hroot) (hfront root hroot))
    intro other hother hsome
    rcases root_cases (List.mem_append_left _ hroot) (List.mem_append_left _ hother)
      (infix_of_after?_isSome hsome) with hbefore | heq | hbehind
    · exact absurd hbefore (hfront other hother)
    · exact heq
    · exact absurd hbehind (hname other hother)
  apply classOfStem?_of_found _ hne hslash
  rw [List.findSome?_append, hfound, Option.some_or]

/-! ### Sources in listings -/

/-- The path, with some of its slashes written as backslashes. -/
def WrittenAs (path written : String) : Prop :=
  List.Forall₂ (fun c d => d = c ∨ c = '/' ∧ d = '\\') path.toList written.toList
deriving Decidable

/-- However a path is written, it is read the same. -/
theorem WrittenAs.map_toSlash {written : String} (h : WrittenAs path written) :
    written.toList.map toSlash = path.toList.map toSlash := by
  rw [WrittenAs] at h
  generalize path.toList = source at h ⊢
  generalize written.toList = target at h ⊢
  induction h with
  | nil => rfl
  | cons hchar _ ih =>
    rcases hchar with rfl | ⟨rfl, rfl⟩
    · rw [List.map_cons, List.map_cons, ih]
    · rw [List.map_cons, List.map_cons, ih]
      rfl

/-- Neither a source root nor a backslash nor a line feed is in the text. -/
structure Plain (text : String) : Prop where
  root : ∀ root ∈ sourceRoots, ¬ root.toList <:+: text.toList
  backslash : '\\' ∉ text.toList
  lineFeed : '\n' ∉ text.toList

/-- Roots and extensions have neither backslashes nor line feeds. -/
theorem plain_parts : ∀ part ∈ sourceRoots ++ extensions,
    '\\' ∉ part.toList ∧ '\n' ∉ part.toList := by
  decide

/-- A text of blank characters other than line feeds. -/
def isPadding (text : String) : Bool :=
  text.toList.all fun c => isBlank c && c != '\n'

/-- Padding is blank and has no line feeds. -/
theorem isPadding_iff {text : String} : isPadding text = true ↔
    (∀ c ∈ text.toList, isBlank c = true) ∧ '\n' ∉ text.toList := by
  simp only [isPadding, List.all_eq_true, Bool.and_eq_true, bne_iff_ne]
  constructor
  · intro h
    exact ⟨fun c hc => (h c hc).1, fun hmem => (h '\n' hmem).2 rfl⟩
  · intro h c hc
    exact ⟨h.1 c hc, ne_of_mem_of_not_mem hc h.2⟩

section Sources

variable {dir name written lead trail before after listing line : String}

/-- The path of a source file has neither backslashes nor line feeds. -/
theorem plain_path (hroot : root ∈ sourceRoots) (hext : ext ∈ extensions) (hdir : Plain dir)
    (hname : Plain name) :
    '\\' ∉ (dir ++ root ++ name ++ ext).toList ∧ '\n' ∉ (dir ++ root ++ name ++ ext).toList := by
  have hroot' := plain_parts root (List.mem_append_left _ hroot)
  have hext' := plain_parts ext (List.mem_append_right _ hext)
  simp only [String.toList_append, List.mem_append, not_or]
  exact ⟨⟨⟨⟨hdir.backslash, hroot'.1⟩, hname.backslash⟩, hext'.1⟩,
    ⟨⟨⟨hdir.lineFeed, hroot'.2⟩, hname.lineFeed⟩, hext'.2⟩⟩

/-- The class of a source file, however its path is written. -/
theorem classOfPath?_source (hroot : root ∈ sourceRoots) (hext : ext ∈ extensions)
    (hdir : Plain dir) (hname : Plain name) (hne : name ≠ "")
    (hslash : name.toList.head? ≠ some '/')
    (hwritten : WrittenAs (dir ++ root ++ name ++ ext) written) :
    classOfPath? written = some name := by
  have hpieces : written.toList.map toSlash =
      dir.toList ++ (root.toList ++ name.toList ++ ext.toList) := by
    rw [hwritten.map_toSlash, map_toSlash_pieces (plain_parts root (List.mem_append_left _ hroot)).1
      hname.backslash (plain_parts ext (List.mem_append_right _ hext)).1,
      map_toSlash_eq_self hdir.backslash]
  have hdir' : ∀ other ∈ sourceRoots, ¬ other.toList <:+: dir.toList.dropWhile isBlank := by
    intro other hother hfound
    exact hdir.root other hother (hfound.trans (List.dropWhile_suffix _).isInfix)
  have hne' : name.toList ≠ [] := mt String.toList_eq_nil_iff.mp hne
  rw [classOfPath?_of_pieces hext (blank_root root (List.mem_append_left _ hroot)) hpieces,
    classOfStem?_source hroot hdir' hname.root hne' hslash, String.ofList_toList]

/-- Blank characters around a path do not count. -/
theorem classOfPath?_padded (hlead : isPadding lead = true) (htrail : isPadding trail = true) :
    classOfPath? (lead ++ path ++ trail) = classOfPath? path := by
  have htrim : trim (lead ++ path ++ trail) = trim path := by
    rw [← String.toList_inj, toList_trim, toList_trim, String.toList_append, String.toList_append]
    exact stripped_around (isPadding_iff.mp hlead).1 (isPadding_iff.mp htrail).1
  rw [← classOfPath?_trim, htrim, classOfPath?_trim]

/-- A line with the path of a file adds its class to those of the other lines, and nothing else. -/
theorem mem_classes_ofListing_line (hline : LineOf line before after listing)
    (hfeed : '\n' ∉ line.toList) (hclass : classOfPath? line = some name) (other : String) :
    other ∈ (ofListing listing).classes ↔
      other = name ∨ other ∈ (ofListing before).classes ∨ other ∈ (ofListing after).classes := by
  have hentry : entries line = [trim line] := by
    rw [entries_of_not_mem hfeed, kept, List.map_singleton, List.filter_eq_self,
      List.forall_mem_singleton, decide_eq_true_iff]
    intro hempty
    rw [← classOfPath?_trim, hempty] at hclass
    cases hclass
  have hthis : (∃ path ∈ entries line, classOfPath? path = some other) ↔ other = name := by
    rw [hentry]
    simp [classOfPath?_trim, hclass, eq_comm]
  have hpaths (listing : String) : other ∈ (ofListing listing).classes ↔
      ∃ path ∈ entries listing, classOfPath? path = some other := mem_classes_ofPaths
  rw [hpaths, hpaths, hpaths, hline.entries_eq, ← hthis]
  simp only [List.mem_append, or_and_right, exists_or]
  rw [or_assoc, or_left_comm]

end Sources

/-- Let a listing have a line with the path of a source file: a source root with any directories in
front, the name of a class and an ending, some slashes written as backslashes and blank characters
around it, which a carriage return in front of the line feed is one of. If neither the directories
nor the name have a source root, a backslash or a line feed in them, and the name has no `$` and
does not begin with a slash, then the listing has the class. The line adds no other class to those
of what stands before and behind it, and the class and everything nested in it is touched. -/
theorem ofListing_sourceLine {dir root name ext written lead trail before after listing : String}
    (hroot : root ∈ sourceRoots) (hext : ext ∈ extensions) (hdir : Plain dir) (hname : Plain name)
    (hne : name ≠ "") (hslash : name.toList.head? ≠ some '/') (hdollar : '$' ∉ name.toList)
    (hwritten : WrittenAs (dir ++ root ++ name ++ ext) written)
    (hlead : isPadding lead = true) (htrail : isPadding trail = true)
    (hline : LineOf (lead ++ written ++ trail) before after listing) :
    name ∈ (ofListing listing).classes ∧
      (∀ other, other ∈ (ofListing listing).classes ↔ other = name ∨
        other ∈ (ofListing before).classes ∨ other ∈ (ofListing after).classes) ∧
      (ofListing listing).touches name = true ∧
      ∀ rest, (ofListing listing).touches (name ++ "$" ++ rest) = true := by
  have hfeed : '\n' ∉ (lead ++ written ++ trail).toList := by
    have hwritten' : '\n' ∉ written.toList := by
      intro hmem
      have hmem' : '\n' ∈ (dir ++ root ++ name ++ ext).toList := by
        rw [← map_toSlash_eq_self (plain_path hroot hext hdir hname).1, ← hwritten.map_toSlash]
        exact List.mem_map.mpr ⟨'\n', hmem, rfl⟩
      exact (plain_path hroot hext hdir hname).2 hmem'
    simp only [String.toList_append, List.mem_append, not_or]
    exact ⟨⟨(isPadding_iff.mp hlead).2, hwritten'⟩, (isPadding_iff.mp htrail).2⟩
  have hclass : classOfPath? (lead ++ written ++ trail) = some name := by
    rw [classOfPath?_padded hlead htrail,
      classOfPath?_source hroot hext hdir hname hne hslash hwritten]
  have hclasses := mem_classes_ofListing_line hline hfeed hclass
  have hmem : name ∈ (ofListing listing).classes := (hclasses name).mpr (.inl rfl)
  refine ⟨hmem, hclasses, touches_iff.mpr (.inl hmem), ?_⟩
  intro rest
  rw [touches_iff, outermost_of_encloses ⟨rest, rfl⟩, outermost_eq_self hdollar]
  exact .inr hmem

theorem ofListing_sourceLine_kotlin :
    let path := "svc/web ui/" ++ "src/main/kotlin/" ++ "shop/Order" ++ ".kt"
    let written := "svc\\web ui/src\\main/kotlin/shop\\Order.kt"
    let listing := "README.md\r\n\n" ++ (" \t" ++ written ++ " \r") ++ "\na/B.java"
    Plain "svc/web ui/" ∧ Plain "shop/Order" ∧ WrittenAs path written ∧
      "shop/Order" ∈ (ofListing listing).classes ∧
      (∀ other, other ∈ (ofListing listing).classes ↔ other = "shop/Order" ∨
        other ∈ (ofListing "README.md\r\n\n").classes ∨ other ∈ (ofListing "\na/B.java").classes) ∧
      (ofListing listing).touches ("shop/Order" ++ "$" ++ "Line$Tax") = true := by
  intro path written listing
  have hdir : Plain "svc/web ui/" := ⟨by decide, by decide, by decide⟩
  have hname : Plain "shop/Order" := ⟨by decide, by decide, by decide⟩
  have hwritten : WrittenAs path written := by decide
  have hline : LineOf (" \t" ++ written ++ " \r") "README.md\r\n\n" "\na/B.java" listing :=
    ⟨rfl, .inr ⟨"README.md\r\n", rfl⟩, .inr ⟨"a/B.java", rfl⟩⟩
  obtain ⟨hmem, hclasses, -, htouches⟩ := ofListing_sourceLine (by decide) (by decide) hdir hname
    (by decide) (by decide) (by decide) hwritten (by decide) (by decide) hline
  exact ⟨hdir, hname, hwritten, hmem, hclasses, htouches "Line$Tax"⟩

/-! ### Compiled classes -/

/-- One path stands for one class at most. -/
theorem classes_ofPaths_singleton (path : String) :
    (ofPaths [path]).classes = (classOfPath? path).toList := by
  unfold ofPaths addPath
  rw [List.foldl_cons, List.foldl_nil]
  cases classOfPath? path <;> rfl

/-- The directory that the output directory stands in has nothing to do with what is looked for. -/
theorem not_reachesInto_target : ∀ root ∈ sourceRoots ++ [outputRoot],
    ¬ ReachesInto root.toList "target/".toList ∧ ¬ root.toList <:+: "target/".toList := by
  decide

/-- A root around the output directory of a module is found in front of the module's own
directories or inside the name of the class. -/
theorem root_cases_output (hroot : root ∈ sourceRoots ++ [outputRoot])
    (hfound : root.toList <:+: front ++ "target/".toList ++ (outputRoot.toList ++ name)) :
    root.toList <:+: front ∨ root = outputRoot ∨ root.toList <:+: name := by
  obtain ⟨hreach, hinside⟩ := not_reachesInto_target root hroot
  refine (root_cases (List.mem_append_right _ List.mem_cons_self) hroot hfound).imp_left ?_
  exact infix_of_infix_append_end hreach hinside

/-- What follows the output directory of a module is the class, if no root is found in front of
it. -/
theorem classOfStem?_output
    (hfront : ∀ root ∈ sourceRoots ++ [outputRoot], ¬ root.toList <:+: front)
    (hname : ∀ root ∈ sourceRoots, ¬ root.toList <:+: name)
    (hne : name ≠ []) (hslash : name.head? ≠ some '/') :
    classOfStem? (front ++ "target/".toList ++ (outputRoot.toList ++ name)) =
      some (String.ofList name) := by
  have houtput : outputRoot ∈ sourceRoots ++ [outputRoot] :=
    List.mem_append_right _ List.mem_cons_self
  have hfirst : ¬ outputRoot.toList <:+: front ++ "target/".toList := by
    obtain ⟨hreach, hinside⟩ := not_reachesInto_target outputRoot houtput
    exact mt (infix_of_infix_append_end hreach hinside) (hfront outputRoot houtput)
  have hunique : ∀ other ∈ sourceRoots ++ [outputRoot],
      (after? other.toList (front ++ "target/".toList ++ (outputRoot.toList ++ name))).isSome =
        true → other = outputRoot := by
    intro other hother hsome
    rcases root_cases_output hother (infix_of_after?_isSome hsome) with
      hbefore | heq | hbehind
    · exact absurd hbefore (hfront other hother)
    · exact heq
    · -- The name may have the output directory in it, which is found at its first occurrence.
      rcases List.mem_append.mp hother with hsource | hlast
      · exact absurd hbehind (hname other hsource)
      · exact List.mem_singleton.mp hlast
  have hfound : ((sourceRoots ++ [outputRoot]).findSome? fun root =>
      after? root.toList (front ++ "target/".toList ++ (outputRoot.toList ++ name))) = some name :=
    findSome?_eq_of_unique houtput (after?_root houtput hfirst) hunique
  exact classOfStem?_of_found hfound hne hslash

/-- A root that stands in front is found there, with all the rest behind it. -/
theorem after?_append_of_infix (hfound : root.toList <:+: front) (rest : List Char) :
    ∃ skipped, after? root.toList (front ++ rest) = some (skipped ++ rest) := by
  obtain ⟨skipped, hskipped⟩ : ∃ skipped, after? root.toList front = some skipped := by
    rw [← Option.ne_none_iff_exists']
    exact fun hnone => after?_eq_none_iff.mp hnone hfound
  exact ⟨skipped, after?_append rest hskipped⟩

/-- A source root does not reach into the output directory, so it stands in front or in the name. -/
theorem infix_front_of_source (hroot : root ∈ sourceRoots) (hname : ¬ root.toList <:+: name)
    (hfound : root.toList <:+: front ++ "target/".toList ++ (outputRoot.toList ++ name)) :
    root.toList <:+: front := by
  rcases root_cases_output (List.mem_append_left _ hroot) hfound with hbefore | heq | hbehind
  · exact hbefore
  · rw [heq] at hroot
    exact absurd hroot (by decide)
  · exact absurd hbehind hname

/-- Behind a source root in front, the output directory is still there. -/
theorem exists_eq_append_of_source (hroot : root ∈ sourceRoots) (hname : ¬ root.toList <:+: name)
    {found : List Char}
    (h : after? root.toList (front ++ "target/".toList ++ (outputRoot.toList ++ name)) =
      some found) :
    ∃ skipped, found = skipped ++ ("target/".toList ++ (outputRoot.toList ++ name)) := by
  have hinfix : root.toList <:+: front := by
    apply infix_front_of_source hroot hname
    exact infix_of_after?_isSome (by rw [h, Option.isSome_some])
  obtain ⟨skipped, hskipped⟩ := after?_append_of_infix hinfix
    ("target/".toList ++ (outputRoot.toList ++ name))
  rw [List.append_assoc, hskipped] at h
  exact ⟨skipped, (Option.some.inj h).symm⟩

/-- If a root is found in front, what follows it has the output directory of the module in it. -/
theorem exists_found_before_output
    (hfront : ∃ root ∈ sourceRoots ++ [outputRoot], root.toList <:+: front)
    (hname : ∀ root ∈ sourceRoots, ¬ root.toList <:+: name) :
    ∃ skipped, ((sourceRoots ++ [outputRoot]).findSome? fun root =>
        after? root.toList (front ++ "target/".toList ++ (outputRoot.toList ++ name))) =
      some (skipped ++ ("target/".toList ++ (outputRoot.toList ++ name))) := by
  rw [List.findSome?_append]
  by_cases hsource : ∃ root ∈ sourceRoots, root.toList <:+: front
  · obtain ⟨root, hroot, hfound⟩ := hsource
    have hsome : (after? root.toList
        (front ++ "target/".toList ++ (outputRoot.toList ++ name))).isSome = true := by
      obtain ⟨skipped, hskipped⟩ := after?_append_of_infix hfound
        ("target/".toList ++ (outputRoot.toList ++ name))
      rw [List.append_assoc, hskipped, Option.isSome_some]
    have hresult : ∃ found, (sourceRoots.findSome? fun root => after? root.toList
        (front ++ "target/".toList ++ (outputRoot.toList ++ name))) = some found ∧
          ∃ skipped, found = skipped ++ ("target/".toList ++ (outputRoot.toList ++ name)) :=
      exists_findSome?_eq_some hroot hsome fun other hother found =>
        exists_eq_append_of_source hother (hname other hother)
    obtain ⟨found, hresult, skipped, rfl⟩ := hresult
    exact ⟨skipped, by rw [hresult, Option.some_or]⟩
  · have hnone : (sourceRoots.findSome? fun root => after? root.toList
        (front ++ "target/".toList ++ (outputRoot.toList ++ name))) = none := by
      rw [List.findSome?_eq_none_iff]
      intro other hother
      rw [after?_eq_none_iff]
      intro hfound
      exact hsource ⟨other, hother, infix_front_of_source hother (hname other hother) hfound⟩
    have houtput : outputRoot.toList <:+: front := by
      obtain ⟨root, hroot, hfound⟩ := hfront
      rcases List.mem_append.mp hroot with hroot | hroot
      · exact absurd ⟨root, hroot, hfound⟩ hsource
      · rwa [← List.mem_singleton.mp hroot]
    obtain ⟨skipped, hskipped⟩ := after?_append_of_infix houtput
      ("target/".toList ++ (outputRoot.toList ++ name))
    refine ⟨skipped, ?_⟩
    rw [hnone, Option.none_or, List.findSome?_singleton, List.append_assoc, hskipped]

/-- Only slashes are removed from what is found, so the class is not the name if it is longer. -/
theorem classOfStem?_ne_of_found {skipped rest : List Char}
    (hfound : ((sourceRoots ++ [outputRoot]).findSome? fun root => after? root.toList stem) =
      some (skipped ++ rest)) (hhead : rest.head?.map (fun c => decide (c = '/')) = some false)
    (hlength : name.length < rest.length) : classOfStem? stem ≠ some (String.ofList name) := by
  intro hclass
  rw [classOfStem?, hfound, Option.getD_some, dropWhile_append_of_head hhead] at hclass
  split at hclass
  case isTrue => cases hclass
  case isFalse =>
    have hname := congrArg List.length (String.ofList_injective (Option.some.inj hclass))
    rw [List.length_append] at hname
    omega

/-- What follows the output directory of a module is the class if and only if no root is found in
front of it. -/
theorem classOfStem?_output_iff (hname : ∀ root ∈ sourceRoots, ¬ root.toList <:+: name)
    (hne : name ≠ []) (hslash : name.head? ≠ some '/') :
    classOfStem? (front ++ "target/".toList ++ (outputRoot.toList ++ name)) =
        some (String.ofList name) ↔
      ∀ root ∈ sourceRoots ++ [outputRoot], ¬ root.toList <:+: front := by
  constructor
  · intro hclass root hroot hfound
    obtain ⟨skipped, hskipped⟩ := exists_found_before_output ⟨root, hroot, hfound⟩ hname
    refine classOfStem?_ne_of_found hskipped rfl ?_ hclass
    rw [List.length_append, List.length_append]
    have hpositive : 0 < "target/".toList.length := by decide
    omega
  · intro hfront
    exact classOfStem?_output hfront hname hne hslash

/-- Let a class file stand below the output directory of a module in any directory. If the name of
the class has neither a source root nor a backslash in it and does not begin with a slash, then the
path gives exactly that class if and only if, with backslashes read as slashes, the directory of the
module has neither a source root in it nor an output directory, nor anything that ends like one. -/
theorem classes_ofPaths_classFile_iff {dir name : String}
    (hroot : ∀ root ∈ sourceRoots, ¬ root.toList <:+: name.toList)
    (hbackslash : '\\' ∉ name.toList) (hne : name ≠ "")
    (hslash : name.toList.head? ≠ some '/') :
    (ofPaths [dir ++ "target/classes/" ++ name ++ ".class"]).classes = [name] ↔
      ∀ root ∈ sourceRoots ++ [outputRoot],
        ¬ root.toList <:+: (replaceChar '\\' '/' dir).toList := by
  have hpieces : (dir ++ "target/classes/" ++ name ++ ".class").toList.map toSlash =
      dir.toList.map toSlash ++ ("target/classes/".toList ++ name.toList ++ ".class".toList) :=
    map_toSlash_pieces (by decide) hbackslash (by decide)
  have hclass : classOfPath? (dir ++ "target/classes/" ++ name ++ ".class") =
      classOfStem? ((dir.toList.map toSlash).dropWhile isBlank ++ "target/".toList ++
        (outputRoot.toList ++ name.toList)) := by
    have hends : ".class" ∈ extensions := by decide
    rw [classOfPath?_of_pieces hends rfl hpieces, List.append_assoc]
    rfl
  have hdir : (replaceChar '\\' '/' dir).toList = dir.toList.map toSlash := String.toList_ofList
  have hne' : name.toList ≠ [] := mt String.toList_eq_nil_iff.mp hne
  rw [classes_ofPaths_singleton, hclass, hdir, Option.toList_eq_singleton_iff]
  nth_rewrite 2 [← String.ofList_toList (s := name)]
  rw [classOfStem?_output_iff hroot hne' hslash]
  refine forall₂_congr fun root hroot => not_congr ?_
  exact infix_dropWhile_iff (blank_root root hroot)

theorem classes_ofPaths_classFile_iff_webModule :
    (∀ root ∈ sourceRoots, ¬ root.toList <:+: "shop/classes/Cart$Line".toList) ∧
      (ofPaths ["shop\\web/" ++ "target/classes/" ++ "shop/classes/Cart$Line" ++
        ".class"]).classes = ["shop/classes/Cart$Line"] := by
  have hroot : ∀ root ∈ sourceRoots, ¬ root.toList <:+: "shop/classes/Cart$Line".toList := by
    decide
  refine ⟨hroot, (classes_ofPaths_classFile_iff hroot ?_ ?_ ?_).mpr ?_⟩ <;> decide

/-- A module whose directory ends like an output directory is not seen through, although there is no
source root in it. -/
theorem classes_ofPaths_below_subclasses :
    (∀ root ∈ sourceRoots, ¬ root.toList <:+: "subclasses/".toList) ∧
      (ofPaths ["subclasses/" ++ "target/classes/" ++ "a/B" ++ ".class"]).classes =
        ["target/classes/a/B"] ∧
      (ofPaths ["subclasses/" ++ "target/classes/" ++ "a/B" ++ ".class"]).classes ≠ ["a/B"] := by
  refine ⟨?_, ?_, ?_⟩ <;> decide

end CallForest.ChangeSet
