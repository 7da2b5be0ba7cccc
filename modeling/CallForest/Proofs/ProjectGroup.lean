import CallForest.BuildDescriptor
import CallForest.Proofs.Markup.Scanning

/-!
# The group of a project

A build descriptor is marked-up content. The group of the project stands in an element directly
inside of a project at the top, and the group of its parent directly inside of a parent there.
Elements of the same names count nowhere else. The reader keeps the names of the open elements, so
that it knows where a run of text stands, and each run that is not blank takes the place of the one
before.

A group is plain if its text is one run. Then the last group that is not blank counts.

## Main definitions

* `Content.inside` — the contents of the elements at the end of a path;
* `Content.places` — the runs of text with their paths;
* `Content.IsPlain`, `Content.group?` — a group with one run of text, and its name;
* `BuildDescriptor.placed` — the groups after a run of text.

## Main results

* `BuildDescriptor.foldlM_step_tokens` — content leaves the open elements as they are, and its runs
  are placed;
* `Content.filterMap_places` — the runs with a path are those inside of the elements at its end;
* `BuildDescriptor.parse_text` — the last run in each place, in any descriptor;
* `BuildDescriptor.parse_group_eq` — the group that counts.
-/

namespace CallForest

namespace Markup

/-- The name of an element, without what stands before the colon. -/
def Tag.localName (tag : Tag) : String :=
  String.ofList tag.name.localPart

namespace Content

/-! ### Elements and their text -/

/-- The contents of the elements with a name that stand directly in the content. -/
def named (name : String) : Content → List Content
  | .run _ => []
  | .passed _ _ rest => rest.named name
  | .single _ tag rest =>
    if tag.localName = name then .run [] :: rest.named name else rest.named name
  | .element _ tag inner _ rest =>
    if tag.localName = name then inner :: rest.named name else rest.named name

/-- The contents of the elements at the end of a path, which begins with the outermost name. -/
def inside : List String → Content → List Content
  | [], c => [c]
  | name :: path, c => (c.named name).flatMap (inside path)

/-- The runs of text that stand directly in the content. -/
def runs : Content → List (List Piece)
  | .run t => [t]
  | .passed t _ rest | .single t _ rest | .element t _ _ _ rest => t :: rest.runs

/-- Whether character data stand directly in the content. -/
def hasCharacterData : Content → Bool
  | .run _ => false
  | .passed _ (.characterData _ _) _ => true
  | .passed _ _ rest | .single _ _ rest | .element _ _ _ _ rest => rest.hasCharacterData

/-- The characters that stand directly in the content. -/
def characters : Content → List Char
  | .run t => runValue t
  | .passed t (.characterData body _) rest => runValue t ++ (body ++ rest.characters)
  | .passed t _ rest | .single t _ rest | .element t _ _ _ rest => runValue t ++ rest.characters

/-- The text of the content is one run at most, and there are no character data. -/
def IsPlain (c : Content) : Prop :=
  (c.runs.filter fun run => !run.isEmpty).length ≤ 1 ∧ c.hasCharacterData = false

instance (c : Content) : Decidable c.IsPlain :=
  inferInstanceAs (Decidable (_ ∧ _))

/-- A text without the blank characters around it, unless nothing else is left. -/
def trimmed? (text : List Char) : Option String :=
  if (Text.trim (String.ofList text)).isEmpty then none else some (Text.trim (String.ofList text))

/-- The name of a group that a run of text gives, unless it is blank. -/
def runGroup? (run : List Piece) : Option String :=
  trimmed? (runValue run)

/-- The name of the group in an element with the content. -/
def group? (c : Content) : Option String :=
  trimmed? c.characters

/-- The runs of text with the names of the elements that they stand in, outermost first. An empty
element counts as one with an empty run. -/
def places : Content → List (List String × List Piece)
  | .run t => [([], t)]
  | .passed t _ rest => ([], t) :: rest.places
  | .single t tag rest => ([], t) :: ([tag.localName], []) :: rest.places
  | .element t tag inner _ rest =>
    ([], t) :: (inner.places.map (Prod.map (tag.localName :: ·) id) ++ rest.places)

/-! ### Runs by their path -/

/-- What a function finds in a run with the path. -/
def findAt {α : Type} (path : List String) (f : List Piece → Option α)
    (place : List String × List Piece) : Option α :=
  if place.1 = path then f place.2 else none

section

variable {α : Type} {f : List Piece → Option α}

theorem findAt_reverse (path names : List String) (run : List Piece) :
    findAt path.reverse f (names.reverse, run) = findAt path f (names, run) := by
  simp [findAt, List.reverse_inj]

theorem filterMap_findAt_nil_map (name : String) (l : List (List String × List Piece)) :
    (l.map (Prod.map (name :: ·) id)).filterMap (findAt [] f) = [] := by
  rw [List.filterMap_map, List.filterMap_eq_nil_iff]
  intro place _
  simp [findAt]

theorem filterMap_findAt_cons_map (name first : String) (path : List String)
    (l : List (List String × List Piece)) :
    (l.map (Prod.map (name :: ·) id)).filterMap (findAt (first :: path) f) =
      if name = first then l.filterMap (findAt path f) else [] := by
  rw [List.filterMap_map]
  split
  case isTrue h =>
    congr 1
    funext place
    simp [findAt, h]
  case isFalse h =>
    rw [List.filterMap_eq_nil_iff]
    intro place _
    simp [findAt, h]

theorem filterMap_places_nil (c : Content) :
    c.places.filterMap (findAt [] f) = c.runs.filterMap f := by
  induction c with
  | run t => simp [places, runs, findAt, List.filterMap_cons]
  | passed t p rest ih => simp [places, runs, findAt, List.filterMap_cons, ← ih]
  | single t tag rest ih => simp [places, runs, findAt, List.filterMap_cons, ← ih]
  | element t tag inner gap rest _ ih =>
    rw [places, List.filterMap_cons, List.filterMap_append, filterMap_findAt_nil_map, ih, runs,
      List.filterMap_cons]
    rfl

theorem filterMap_places_cons (name : String) (path : List String) (c : Content) :
    c.places.filterMap (findAt (name :: path) f) =
      (c.named name).flatMap fun d => d.places.filterMap (findAt path f) := by
  induction c with
  | run t => simp [places, named, findAt]
  | passed t p rest ih => simpa [places, named, findAt] using ih
  | single t tag rest ih =>
    have hplaces : (single t tag rest).places =
        ([], t) :: ((run []).places.map (Prod.map (tag.localName :: ·) id) ++ rest.places) := rfl
    have hrun : findAt (name :: path) f ([], t) = none := rfl
    rw [hplaces, List.filterMap_cons_none hrun, List.filterMap_append, filterMap_findAt_cons_map,
      ih, named]
    split <;> simp
  | element t tag inner gap rest _ ih =>
    have hrun : findAt (name :: path) f ([], t) = none := rfl
    rw [places, List.filterMap_cons_none hrun, List.filterMap_append, filterMap_findAt_cons_map,
      ih, named]
    split <;> simp

/-- The runs with a path are those directly inside of the elements at its end. -/
theorem filterMap_places (path : List String) (c : Content) :
    c.places.filterMap (findAt path f) = (c.inside path).flatMap fun d => d.runs.filterMap f := by
  induction path generalizing c with
  | nil => rw [filterMap_places_nil, inside, List.flatMap_singleton]
  | cons name path ih =>
    rw [filterMap_places_cons, inside, List.flatMap_assoc]
    congr 1
    funext d
    exact ih d

end

/-! ### Plain groups -/

/-- Without character data, the characters of an element are those of its runs. -/
theorem characters_eq {c : Content} (h : c.hasCharacterData = false) :
    c.characters = c.runs.flatMap runValue := by
  induction c with
  | run t => simp [characters, runs]
  | passed t p rest ih =>
    cases p with
    | comment | instruction => simpa [characters, runs] using ih h
    | characterData => cases h
  | single t tag rest ih => simpa [characters, runs] using ih h
  | element t tag inner gap rest _ ih => simpa [characters, runs] using ih h

theorem filterMap_filter_isEmpty (l : List (List Piece)) :
    (l.filter fun run => !run.isEmpty).filterMap runGroup? = l.filterMap runGroup? := by
  induction l with
  | nil => rfl
  | cons run l ih =>
    cases run with
    | nil =>
      have hblank : runGroup? [] = none := rfl
      rw [List.filter_cons_of_neg (by simp), ih, List.filterMap_cons_none hblank]
    | cons p run =>
      rw [List.filter_cons_of_pos (by simp), List.filterMap_cons, ih, List.filterMap_cons]

theorem flatMap_filter_isEmpty (l : List (List Piece)) :
    (l.filter fun run => !run.isEmpty).flatMap runValue = l.flatMap runValue := by
  induction l with
  | nil => rfl
  | cons run l ih =>
    cases run with
    | nil => exact ih
    | cons p run => rw [List.filter_cons_of_pos (by simp), List.flatMap_cons, ih, List.flatMap_cons]

/-- In a plain group no more than one run is not blank. -/
theorem IsPlain.filterMap_runs {c : Content} (h : c.IsPlain) :
    c.runs.filterMap runGroup? = c.group?.toList := by
  obtain ⟨hone, hdata⟩ := h
  rw [group?, characters_eq hdata, ← filterMap_filter_isEmpty, ← flatMap_filter_isEmpty]
  generalize (c.runs.filter fun run => !run.isEmpty) = l at hone
  cases l with
  | nil => rfl
  | cons run l =>
    obtain rfl : l = [] := by simpa using hone
    rw [List.flatMap_singleton, List.filterMap_cons, List.filterMap_nil, runGroup?]
    cases trimmed? (runValue run) <;> rfl

/-- With plain groups at the end of a path, each of them is a run or blank. -/
theorem filterMap_places_eq_group? {path : List String} {c : Content}
    (h : ∀ g ∈ c.inside path, g.IsPlain) :
    c.places.filterMap (findAt path runGroup?) = (c.inside path).filterMap group? := by
  rw [filterMap_places, List.filterMap_eq_flatMap_toList]
  exact List.flatMap_congr fun g hg => (h g hg).filterMap_runs

end Content

end Markup

namespace BuildDescriptor

open Markup

/-! ### Runs of text in a descriptor -/

/-- The groups after a run of text that stands in elements of the given names, innermost first. -/
def placed (groups : BuildDescriptor) (names : List String) (run : List Piece) :
    BuildDescriptor where
  own := (Content.findAt ["groupId", "project"] Content.runGroup? (names, run)).or groups.own
  parent :=
    (Content.findAt ["groupId", "parent", "project"] Content.runGroup? (names, run)).or
      groups.parent

/-- The names of elements without what stands before the first colon. -/
def localNames (elements : List (List Char)) : List String :=
  elements.map fun name => String.ofList (localName name)

/-- A run of text has no reference that cannot be read, so it is placed. -/
theorem addText_runText (groups : BuildDescriptor) (elements : List (List Char))
    (run : List Piece) :
    addText groups elements (runText run) = .ok (placed groups (localNames elements) run) := by
  have hother : ["groupId", "parent", "project"] ≠ ["groupId", "project"] := by decide
  rw [addText, resolve?_runText, placed, localNames, Content.findAt, Content.findAt]
  dsimp only
  split
  case h_1 hnames =>
    rw [hnames, if_pos rfl, if_neg hother.symm, Option.none_or, Content.runGroup?,
      Content.trimmed?]
    split <;> rfl
  case h_2 hnames =>
    rw [hnames, if_neg hother, if_pos rfl, Option.none_or, Content.runGroup?, Content.trimmed?]
    split <;> rfl
  case h_3 hown hparent => rw [if_neg hown, if_neg hparent, Option.none_or, Option.none_or]

theorem localName_text (name : TagName) : localName name.text = name.localPart := by
  have hbefore {s : List Char} (h : s.all (fun c => isNameChar c && c != ':') = true) :
      ∀ c ∈ s, decide (c ≠ ':') = true :=
    fun c hc => decide_eq_true ((TagName.of_proper h).2 c hc)
  rw [TagName.text]
  split
  case h_1 =>
    have hnone : name.localPart.dropWhile (· ≠ ':') = [] :=
      List.dropWhile_eq_nil_iff.mpr (hbefore name.localPart_proper)
    rw [localName, hnone]
  case h_2 q hq =>
    have hsome : (q ++ ':' :: name.localPart).dropWhile (· ≠ ':') = ':' :: name.localPart := by
      rw [List.dropWhile_append_of_pos (hbefore (name.qualifier_proper hq))]
      rfl
    rw [localName, hsome]

/-- The groups after several runs of text, each with the names of its elements below some others,
which are given innermost first. -/
def placedAll (names : List String) (groups : BuildDescriptor)
    (places : List (List String × List Piece)) : BuildDescriptor :=
  places.foldl (fun groups place => placed groups (place.1.reverse ++ names) place.2) groups

theorem placedAll_cons (names : List String) (groups : BuildDescriptor)
    (place : List String × List Piece) (places : List (List String × List Piece)) :
    placedAll names groups (place :: places) =
      placedAll names (placed groups (place.1.reverse ++ names) place.2) places := by
  rw [placedAll, List.foldl_cons, ← placedAll]

theorem placedAll_append (names : List String) (groups : BuildDescriptor)
    (places more : List (List String × List Piece)) :
    placedAll names groups (places ++ more) =
      placedAll names (placedAll names groups places) more :=
  List.foldl_append

theorem placedAll_map (name : String) (names : List String) (groups : BuildDescriptor)
    (places : List (List String × List Piece)) :
    placedAll names groups (places.map (Prod.map (name :: ·) id)) =
      placedAll (name :: names) groups places := by
  simp [placedAll, List.foldl_map]

/-- A run without pieces gives no group. -/
theorem placed_nil (groups : BuildDescriptor) (names : List String) :
    placed groups names [] = groups := by
  have hblank : Content.runGroup? [] = none := rfl
  rw [placed, Content.findAt, Content.findAt, hblank, ite_self, ite_self, Option.none_or,
    Option.none_or]

/-! ### Reading content -/

theorem foldlM_step_append {r r' : Reading} {front : List Token}
    (h : front.foldlM Reading.step r = .ok r') (more : List Token) :
    (front ++ more).foldlM Reading.step r = more.foldlM Reading.step r' := by
  rw [List.foldlM_append, h]
  rfl

theorem foldlM_step_cons {r r' : Reading} {token : Token} (h : r.step token = .ok r')
    (more : List Token) :
    (token :: more).foldlM Reading.step r = more.foldlM Reading.step r' := by
  rw [List.foldlM_cons, h]
  rfl

/-- A run of text, empty or not, is placed in the open elements. -/
theorem foldlM_step_runTokens (r : Reading) (run : List Piece) :
    (Content.runTokens run).foldlM Reading.step r =
      .ok { r with groups := placed r.groups (localNames r.elements) run } := by
  rw [Content.runTokens, textToken]
  split
  case isTrue hempty =>
    have hvalue : runValue run = [] := by
      have hresolve := resolve?_runText run
      rw [List.isEmpty_iff, List.reverse_eq_nil_iff] at hempty
      rw [hempty] at hresolve
      exact (Option.some.inj hresolve).symm
    obtain rfl : run = [] := List.map_eq_nil_iff.mp hvalue
    rw [placed_nil]
    rfl
  case isFalse =>
    rw [List.reverse_reverse, List.foldlM_cons, Reading.step, addText_runText]
    rfl

theorem step_closing (name : List Char) (outer : List (List Char)) (groups : BuildDescriptor) :
    Reading.step { elements := name :: outer, groups := groups } (.closing name) =
      .ok { elements := outer, groups := groups } :=
  if_pos rfl

/-- What is read of content leaves the open elements as they are, and its runs are placed. -/
theorem foldlM_step_tokens (c : Content) (r : Reading) :
    c.tokens.foldlM Reading.step r =
      .ok { r with groups := placedAll (localNames r.elements) r.groups c.places } := by
  induction c generalizing r with
  | run t =>
    rw [Content.tokens, foldlM_step_runTokens, Content.places, placedAll_cons, List.reverse_nil,
      List.nil_append, placedAll, List.foldl_nil]
  | passed t p rest ih =>
    rw [Content.tokens, foldlM_step_append (foldlM_step_runTokens r t), foldlM_step_cons rfl, ih,
      Content.places, placedAll_cons, List.reverse_nil, List.nil_append]
  | single t tag rest ih =>
    rw [Content.tokens, foldlM_step_append (foldlM_step_runTokens r t), foldlM_step_cons rfl, ih,
      Content.places, placedAll_cons, placedAll_cons, placed_nil, List.reverse_nil,
      List.nil_append]
  | element t tag inner gap rest ihInner ih =>
    have hnames : localNames (tag.name.text :: r.elements) =
        tag.localName :: localNames r.elements := by
      rw [localNames, List.map_cons, localName_text, Tag.localName, ← localNames]
    rw [Content.tokens, foldlM_step_append (foldlM_step_runTokens r t), foldlM_step_cons rfl,
      foldlM_step_append (ihInner _), foldlM_step_cons (step_closing _ _ _), ih, Content.places,
      placedAll_cons, placedAll_append, placedAll_map, hnames, List.reverse_nil, List.nil_append]

/-- Text outside of all elements does not count. -/
theorem step_text_outside (groups : BuildDescriptor) (raw : List Char) :
    Reading.step { groups := groups } (.text raw) = .ok { groups := groups } :=
  rfl

/-- What stands before the first tag does not count. -/
theorem foldlM_step_scan_text (read rest : List Char) (groups : BuildDescriptor) :
    (scan (.text read) rest).foldlM Reading.step { groups := groups } =
      (scan (.text []) rest).foldlM Reading.step { groups := groups } := by
  have htoken (read : List Char) (more : List Token) : (textToken read ++ more).foldlM Reading.step
      { groups := groups } = more.foldlM Reading.step { groups := groups } := by
    rw [textToken]
    split
    · rfl
    · exact foldlM_step_cons (step_text_outside groups _) more
  -- The two scans differ in what they have read until they meet the same tag.
  induction rest generalizing read with
  | nil =>
    have hend := htoken read []
    rw [List.append_nil] at hend
    exact hend
  | cons c rest ih =>
    rw [scan, scan]
    split
    · rw [htoken, htoken]
    · rw [ih, ih [c]]

/-- A mark of byte order before a document does not count either. -/
theorem parse_eq (document : List Char) : parse (String.ofList document) = (do
    return (← (scan (.text []) document).foldlM Reading.step {}).groups) := by
  have htokens : (tokens (String.ofList document)).foldlM Reading.step {} =
      (scan (.text []) document).foldlM Reading.step {} := by
    rw [tokens, String.toList_ofList]
    cases document with
    | nil => rfl
    | cons c rest =>
      dsimp only
      split
      case isTrue hmark =>
        have hskip : scan (.text []) (c :: rest) = scan (.text [c]) rest := by
          rw [hmark]
          rfl
        rw [hskip, foldlM_step_scan_text [c]]
      case isFalse => rfl
  rw [parse, htokens]

/-! ### The groups that count -/

/-- The group of the project itself comes only from its own place, and the last one counts. -/
theorem own_placed (groups : BuildDescriptor) (path : List String) (run : List Piece) :
    (placed groups path.reverse run).own =
      (Content.findAt ["project", "groupId"] Content.runGroup? (path, run)).or groups.own := by
  rw [← Content.findAt_reverse]
  rfl

/-- The group of the parent comes only from the place inside it. -/
theorem parent_placed (groups : BuildDescriptor) (path : List String) (run : List Piece) :
    (placed groups path.reverse run).parent =
      (Content.findAt ["project", "parent", "groupId"] Content.runGroup? (path, run)).or
        groups.parent := by
  rw [← Content.findAt_reverse]
  rfl

/-- If each run sets a group or leaves it, the last one that sets it counts. -/
theorem placedAll_last {get : BuildDescriptor → Option String}
    {write : List String × List Piece → Option String}
    (h : ∀ groups path run,
      get (placed groups (List.reverse path) run) = (write (path, run)).or (get groups))
    (groups : BuildDescriptor) (places : List (List String × List Piece)) :
    get (placedAll [] groups places) = (places.filterMap write).getLast?.or (get groups) := by
  induction places generalizing groups with
  | nil => rfl
  | cons place places ih =>
    rw [placedAll_cons, ih, List.append_nil, h, List.filterMap_cons]
    cases hwrite : write place with
    | none => rw [Option.none_or]
    | some text =>
      rw [List.getLast?_cons, Option.some_or]
      cases (places.filterMap write).getLast? <;> rfl

/-- Each group is the last run in its place that is not blank. -/
theorem parse_text (doc : Content) : parse (String.ofList doc.text) = .ok
    { own := (doc.places.filterMap
        (Content.findAt ["project", "groupId"] Content.runGroup?)).getLast?
      parent := (doc.places.filterMap
        (Content.findAt ["project", "parent", "groupId"] Content.runGroup?)).getLast? } := by
  have hread := foldlM_step_tokens doc {}
  rw [parse_eq, doc.scan_text_eq_tokens, hread]
  have hown := placedAll_last own_placed {} doc.places
  have hparent := placedAll_last parent_placed {} doc.places
  rw [Option.or_none] at hown hparent
  rw [← hown, ← hparent]
  rfl

/-- The group of a descriptor is the last one of a project at the top that is not blank, and if
there is none, the last one of a parent in such a project. Nothing else that the descriptor holds
counts. -/
theorem parse_group_eq (doc : Content)
    (h : ∀ g ∈ doc.inside ["project", "groupId"] ++ doc.inside ["project", "parent", "groupId"],
      g.IsPlain) :
    (parse (String.ofList doc.text)).map group? =
      .ok (((doc.inside ["project", "groupId"]).filterMap Content.group?).getLast? <|>
        ((doc.inside ["project", "parent", "groupId"]).filterMap Content.group?).getLast?) := by
  obtain ⟨hown, hparent⟩ := List.forall_mem_append.mp h
  rw [parse_text, Content.filterMap_places_eq_group? hown,
    Content.filterMap_places_eq_group? hparent]
  rfl

/-- A run of the characters that can stand for themselves. -/
def plainRun (text : String) : List Piece :=
  text.toList.filterMap fun c => if h : c ≠ '<' ∧ c ≠ '&' then some (.plain c h) else none

/-- A tag with nothing but a name. -/
def bareTag (name : List Char)
    (h : name ≠ [] ∧ name.all (fun c => isNameChar c && c != ':') = true) : Tag where
  name := { qualifier := none, localPart := name, localPart_ne_nil := h.1, proper := h.2 }

def groupTag : Tag :=
  bareTag "groupId".toList (by decide)

/-- A group and what follows it. -/
def groupElement (run : List Piece) (rest : Content) : Content :=
  .element [] groupTag (.run run) ⟨[], rfl⟩ rest

/-- A project with a group of its own and one of its parent. There are more groups in a comment and
in a dependency, and an empty one at the end. -/
def inheritedProject : Content :=
  .passed [] (.comment "<groupId>com.old</groupId>".toList (by decide))
    (.element (plainRun "\n  ") (bareTag "parent".toList (by decide))
      (groupElement (plainRun "org.base") (.run []))
      ⟨[], rfl⟩
      (groupElement
        (.hexadecimal [(2, false), (0, false)] ' ' (by decide) ::
          (plainRun "com.tools" ++ [.named .amp]) ++ plainRun "more\n")
        (.element [] (bareTag "dependency".toList (by decide))
          (groupElement (plainRun "com.other") (.run []))
          ⟨[' '], rfl⟩
          (.single [] groupTag (.run [])))))

/-- The document of the project, whose name is qualified. -/
def inheritedDescriptor : Content :=
  .passed [] (.instruction "xml version=\"1.0\"".toList (by decide))
    (.element (plainRun "\n")
      { name :=
          { qualifier := some ['m'], localPart := "project".toList,
            localPart_ne_nil := by decide, proper := by decide }
        attributes :=
          [{ gap := ⟨[' '], rfl⟩, gap_ne_nil := by decide,
             name := "xmlns:m".toList, name_proper := by decide,
             before := ⟨[], rfl⟩, after := ⟨[], rfl⟩,
             quote := '"', quote_proper := .inl rfl,
             value := "urn:>".toList, value_proper := by decide }] }
      inheritedProject ⟨[], rfl⟩ (.run []))

theorem parse_group_eq_inheritedDescriptor :
    (∀ g ∈ inheritedDescriptor.inside ["project", "groupId"] ++
        inheritedDescriptor.inside ["project", "parent", "groupId"], g.IsPlain) ∧
      (parse (String.ofList inheritedDescriptor.text)).map group? =
        .ok (some "com.tools&more") := by
  have hplain : ∀ g ∈ inheritedDescriptor.inside ["project", "groupId"] ++
      inheritedDescriptor.inside ["project", "parent", "groupId"], g.IsPlain := by
    decide
  exact ⟨hplain, (parse_group_eq inheritedDescriptor hplain).trans (by decide)⟩

end BuildDescriptor

end CallForest
