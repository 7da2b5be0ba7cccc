import CallForest.Analysis
import CallForest.Proofs.Scheduling

/-!
# A walk comes to each path once

The entries of a directory have different names, and each name becomes a part of the paths below it.
So the paths below one entry differ from those below another, whatever the path is that the walk
starts from. A tree keeps its names apart when a file is put into it.

A scan of several workers has one outcome only if no path is listed twice below a root. On a
workspace that is always so.

## Main definitions

* `Path.IsName` — a text that can be the name of an entry;
* `Path.opening` — the parts of pieces that others stand behind;
* `FileTree.WellNamed` — the entries of all directories have different names, in order.

## Main results

* `Path.parts_join` — a name below a path is one part more;
* `Workspace.wellNamed_ofDirectory`, `Workspace.wellNamed_write` — the names of a workspace are in
  order at the start and stay so when files are put in;
* `FileTree.WellNamed.pairwise_filesBelow?` — the files below a path have different paths;
* `Analysis.walkedOnce_listRoot` — the listings of an analysis are walked once.
-/

namespace CallForest

/-! ### Names in paths -/

namespace Path

/-- A text that can be the name of an entry. -/
structure IsName (text : String) : Prop where
  ne_empty : text ≠ ""
  ne_here : text ≠ "."
  ne_parent : text ≠ ".."
  no_slash : '/' ∉ text.toList

instance (text : String) : Decidable (IsName text) :=
  decidable_of_iff (text ≠ "" ∧ text ≠ "." ∧ text ≠ ".." ∧ '/' ∉ text.toList)
    ⟨fun ⟨hempty, hhere, hparent, hslash⟩ => ⟨hempty, hhere, hparent, hslash⟩,
     fun h => ⟨h.ne_empty, h.ne_here, h.ne_parent, h.no_slash⟩⟩

theorem part?_name {text : String} (h : IsName text) : part? false text = some (.name text) := by
  rw [part?, if_neg h.ne_empty, if_neg h.ne_here, if_neg h.ne_parent]

/-- A slash ends one piece and starts the next. -/
theorem piecesFrom_append_slash (read before after : List Char) :
    piecesFrom read (before ++ '/' :: after) = piecesFrom read before ++ piecesFrom [] after := by
  induction before generalizing read with
  | nil => rfl
  | cons c before ih =>
    rw [List.cons_append, piecesFrom, piecesFrom]
    split
    · rw [ih, List.cons_append]
    · exact ih (c :: read)

/-- A text without slashes is one piece. -/
theorem piecesFrom_of_not_mem {text : List Char} (h : '/' ∉ text) (read : List Char) :
    piecesFrom read text = [String.ofList (read.reverse ++ text)] := by
  induction text generalizing read with
  | nil => rw [piecesFrom, List.append_nil]
  | cons c text ih =>
    rw [List.mem_cons, not_or] at h
    rw [piecesFrom, if_neg (Ne.symm h.1), ih h.2, List.reverse_cons, List.append_assoc]
    rfl

theorem piecesFrom_ne_nil (read text : List Char) : piecesFrom read text ≠ [] := by
  induction text generalizing read with
  | nil => exact List.cons_ne_nil _ _
  | cons c text ih =>
    rw [piecesFrom]
    split
    · exact List.cons_ne_nil _ _
    · exact ih (c :: read)

/-- No piece has a slash in it. -/
theorem slash_not_mem_of_mem_piecesFrom {read text : List Char} {piece : String}
    (hread : '/' ∉ read) (h : piece ∈ piecesFrom read text) : '/' ∉ piece.toList := by
  induction text generalizing read with
  | nil =>
    rw [List.mem_singleton.mp h, String.toList_ofList, List.mem_reverse]
    exact hread
  | cons c text ih =>
    rw [piecesFrom] at h
    split_ifs at h with hc
    · rcases List.mem_cons.mp h with rfl | hlater
      · rwa [String.toList_ofList, List.mem_reverse]
      · exact ih List.not_mem_nil hlater
    · refine ih ?_ h
      rw [List.mem_cons, not_or]
      exact ⟨Ne.symm hc, hread⟩

theorem slash_not_mem_of_mem_pieces {path piece : String} (h : piece ∈ pieces path) :
    '/' ∉ piece.toList :=
  slash_not_mem_of_mem_piecesFrom List.not_mem_nil h

/-- A last piece behind a slash. -/
theorem pieces_eq_concat {path last : String} {front : List Char}
    (hpath : path.toList = front ++ '/' :: last.toList) (hlast : '/' ∉ last.toList) :
    pieces path = piecesFrom [] front ++ [last] := by
  rw [pieces, hpath, piecesFrom_append_slash, piecesFrom_of_not_mem hlast, List.reverse_nil,
    List.nil_append, String.ofList_toList]

/-- No other text has the pieces of the empty one. -/
theorem eq_empty_of_pieces {path : String} (h : pieces path = [""]) : path = "" := by
  by_cases hslash : '/' ∈ path.toList
  · obtain ⟨before, after, hpath⟩ := List.append_of_mem hslash
    rw [pieces, hpath, piecesFrom_append_slash] at h
    have hbefore := List.length_pos_of_ne_nil (piecesFrom_ne_nil [] before)
    have hafter := List.length_pos_of_ne_nil (piecesFrom_ne_nil [] after)
    have hlength := congrArg List.length h
    rw [List.length_append, List.length_singleton] at hlength
    omega
  · rw [pieces, piecesFrom_of_not_mem hslash] at h
    simpa using h

/-- The parts of pieces, if others stand behind them. -/
def opening : List String → List Part
  | [] => []
  | first :: rest =>
    (if first = "" then [.root] else (part? true first).toList) ++ rest.filterMap (part? false)

/-- A last piece adds its part, if it has one. -/
theorem opening_concat {ps : List String} (hps : ps ≠ []) (last : String) :
    opening (ps ++ [last]) = opening ps ++ (part? false last).toList := by
  cases ps with
  | nil => exact absurd rfl hps
  | cons first rest =>
    rw [List.cons_append, opening, opening, List.filterMap_append, List.append_assoc]
    cases hpart : part? false last <;> simp [hpart]

/-- Only of the empty text it matters whether other pieces stand behind. -/
theorem parts_eq_opening {path : String} (h : path ≠ "") : parts path = opening (pieces path) := by
  have hpieces : pieces path ≠ [""] := fun heq => h (eq_empty_of_pieces heq)
  unfold parts
  split
  · rename_i rest heq
    rw [heq] at hpieces ⊢
    have hrest : rest.isEmpty = false := by
      cases rest with
      | nil => exact absurd rfl hpieces
      | cons => rfl
    simp [opening, hrest]
  · rename_i first rest hfirst heq
    rw [heq, opening, if_neg hfirst]
  · rename_i heq
    rw [heq, opening]

theorem endsWith_slash_iff {path : String} :
    path.endsWith "/" = true ↔ ∃ front, path.toList = front ++ ['/'] := by
  rw [← String.endsWith_toSlice, String.Slice.endsWith_string_iff, String.copy_toSlice]
  exact exists_congr fun front => eq_comm

theorem join_ne_empty {base name : String} (hname : IsName name) : join base name ≠ "" := by
  unfold join
  split_ifs <;> simp [hname.ne_empty]

/-- A name below a path is one part more. -/
theorem parts_join {base name : String} (hbase : base ≠ "") (hname : IsName name) :
    parts (join base name) = parts base ++ [.name name] := by
  have hstart : ¬ (name.startsWith "/" || base.isEmpty) = true := by
    rw [Bool.or_eq_true, String.startsWith_string_iff, String.isEmpty_iff]
    rintro (hslash | hempty)
    · exact hname.no_slash (hslash.subset List.mem_cons_self)
    · exact hbase hempty
  -- A slash is put between base and name unless the base ends in one, and then its last piece is
  -- empty and has no part.
  have hpieces : ∃ ps, ps ≠ [] ∧ pieces (join base name) = ps ++ [name] ∧
      opening (pieces base) = opening ps := by
    rw [join, if_neg hstart]
    split
    · rename_i hend
      obtain ⟨front, hfront⟩ := endsWith_slash_iff.mp hend
      refine ⟨piecesFrom [] front, piecesFrom_ne_nil [] front, ?_, ?_⟩
      · apply pieces_eq_concat _ hname.no_slash
        rw [String.toList_append, hfront, List.append_assoc, List.singleton_append]
      · have hlast : pieces base = piecesFrom [] front ++ [""] :=
          pieces_eq_concat hfront List.not_mem_nil
        rw [hlast, opening_concat (piecesFrom_ne_nil [] front)]
        exact List.append_nil _
    · refine ⟨pieces base, piecesFrom_ne_nil [] base.toList, ?_, rfl⟩
      apply pieces_eq_concat _ hname.no_slash
      simp
  obtain ⟨ps, hne, hjoin, hopening⟩ := hpieces
  rw [parts_eq_opening (join_ne_empty hname), parts_eq_opening hbase, hjoin, opening_concat hne,
    part?_name hname, hopening]
  rfl

end Path

/-! ### Trees with names in order -/

namespace FileTree

/-- The entries of all directories have different names, in order. -/
inductive WellNamed : FileTree → Prop
  | file (content : List UInt8) : WellNamed (.file content)
  | sink : WellNamed .sink
  | directory {entries : List (String × FileTree)} (names : ∀ e ∈ entries, Path.IsName e.1)
      (sorted : entries.Pairwise fun e e' => e.1 < e'.1) (below : ∀ e ∈ entries, WellNamed e.2) :
      WellNamed (.directory entries)

theorem wellNamed_empty : WellNamed empty :=
  .directory (List.forall_mem_nil _) .nil (List.forall_mem_nil _)

variable {tree new : FileTree} {entries : List (String × FileTree)} {name path : String}
  {names : List String} {paths : List String}

theorem mem_of_lookup {t : FileTree} (h : entries.lookup name = some t) : (name, t) ∈ entries := by
  induction entries with
  | nil => cases h
  | cons e rest ih =>
    obtain ⟨n, t'⟩ := e
    rw [List.lookup_cons] at h
    split at h
    · rename_i heq
      rw [eq_of_beq heq, Option.some.inj h]
      exact List.mem_cons_self
    · exact List.mem_cons_of_mem _ (ih h)

/-- All names on the way to a tree are names of entries, and the tree is as well named. -/
theorem WellNamed.get? (htree : tree.WellNamed) {found : FileTree}
    (h : tree.get? names = some found) : found.WellNamed ∧ ∀ n ∈ names, Path.IsName n := by
  induction names generalizing tree with
  | nil =>
    rw [FileTree.get?, Option.some.injEq] at h
    exact ⟨h ▸ htree, List.forall_mem_nil _⟩
  | cons name names ih =>
    cases htree with
    | file => cases h
    | sink => cases h
    | directory hnames _ hbelow =>
      rw [FileTree.get?] at h
      obtain ⟨t, hlookup, ht⟩ := Option.bind_eq_some_iff.mp h
      have hmem := mem_of_lookup hlookup
      obtain ⟨hfound, hrest⟩ := ih (hbelow _ hmem) ht
      exact ⟨hfound, List.forall_mem_cons.mpr ⟨hnames _ hmem, hrest⟩⟩

theorem mem_setEntry {e : String × FileTree} (h : e ∈ setEntry name new entries) :
    e = (name, new) ∨ e ∈ entries := by
  induction entries with
  | nil => exact .inl (List.mem_singleton.mp h)
  | cons first rest ih =>
    rw [setEntry] at h
    split_ifs at h with heq hlt
    · exact (List.mem_cons.mp h).imp_right (List.mem_cons_of_mem _)
    · exact List.mem_cons.mp h
    · rcases List.mem_cons.mp h with rfl | hrest
      · exact .inr List.mem_cons_self
      · exact (ih hrest).imp_right (List.mem_cons_of_mem _)

/-- Entries stay sorted by name. -/
theorem pairwise_setEntry (h : entries.Pairwise fun e e' => e.1 < e'.1) :
    (setEntry name new entries).Pairwise fun e e' => e.1 < e'.1 := by
  induction entries with
  | nil => exact List.pairwise_singleton _ _
  | cons first rest ih =>
    obtain ⟨hfirst, hrest⟩ := List.pairwise_cons.mp h
    rw [setEntry]
    split_ifs with heq hlt
    · exact List.pairwise_cons.mpr ⟨heq ▸ hfirst, hrest⟩
    · refine List.pairwise_cons.mpr ⟨List.forall_mem_cons.mpr ⟨hlt, ?_⟩, h⟩
      exact fun e he => lt_trans hlt (hfirst e he)
    · refine List.pairwise_cons.mpr ⟨fun e he => ?_, ih hrest⟩
      rcases mem_setEntry he with rfl | hmem
      · exact lt_of_le_of_ne (not_lt.mp hlt) (Ne.symm heq)
      · exact hfirst e hmem

/-- A well-named entry under a name keeps a directory well-named. -/
theorem WellNamed.setEntry (h : WellNamed (.directory entries)) (hnew : new.WellNamed)
    (hname : Path.IsName name) : WellNamed (.directory (FileTree.setEntry name new entries)) := by
  cases h with
  | directory hnames hsorted hbelow =>
    refine .directory (fun e he => ?_) (pairwise_setEntry hsorted) fun e he => ?_
    · rcases mem_setEntry he with rfl | hmem
      · exact hname
      · exact hnames e hmem
    · rcases mem_setEntry he with rfl | hmem
      · exact hnew
      · exact hbelow e hmem

/-- Putting a tree below proper names leaves all names in order. -/
theorem WellNamed.set (htree : tree.WellNamed) (hnew : new.WellNamed)
    (hnames : ∀ n ∈ names, Path.IsName n) : (tree.set new names).WellNamed := by
  induction names generalizing tree with
  | nil => exact hnew
  | cons name names ih =>
    obtain ⟨hname, hrest⟩ := List.forall_mem_cons.mp hnames
    have hentries (entries : List (String × FileTree)) (h : WellNamed (.directory entries)) :
        WellNamed (.directory (FileTree.setEntry name
          (((entries.lookup name).getD empty).set new names) entries)) := by
      refine h.setEntry (ih ?_ hrest) hname
      cases hlookup : entries.lookup name with
      | none => exact wellNamed_empty
      | some t =>
        cases h with
        | directory _ _ hbelow => exact hbelow _ (mem_of_lookup hlookup)
    cases htree with
    | file => exact hentries [] wellNamed_empty
    | sink => exact hentries [] wellNamed_empty
    | directory hnames hsorted hbelow => exact hentries _ (.directory hnames hsorted hbelow)

/-- A file is put only under a proper name, next to entries that are there. -/
theorem WellNamed.write? (htree : tree.WellNamed) {directory : List String}
    {content : List UInt8} {tree' : FileTree}
    (h : tree.write? directory path content = some tree') : tree'.WellNamed := by
  obtain ⟨name, hlast, h⟩ := Option.bind_eq_some_iff.mp h
  split at h
  · cases h
  rename_i hallowed
  obtain ⟨above, -, h⟩ := Option.bind_eq_some_iff.mp h
  split at h
  · rename_i entries hget
    have hname : Path.IsName name := by
      simp only [Bool.or_eq_true, List.contains_eq_mem, decide_eq_true_eq, List.mem_cons,
        List.not_mem_nil, or_false, not_or] at hallowed
      obtain ⟨-, hempty, hhere, hparent⟩ := hallowed
      exact ⟨hempty, hhere, hparent, Path.slash_not_mem_of_mem_pieces (List.mem_of_getLast? hlast)⟩
    split at h
    · cases h
    · exact Option.some.inj h ▸ htree
    · rw [← Option.some.inj h]
      refine htree.set (.file content) fun n hn => ?_
      rcases List.mem_cons.mp (List.mem_reverse.mp hn) with rfl | habove
      · exact hname
      · exact (htree.get? hget).2 n (List.mem_reverse.mpr habove)
  · cases h

/-! ### The walk -/

/-- Two different names behind the same parts begin different paths. -/
theorem eq_of_prefixes {α : Type} {front l : List α} {a b : α} (ha : front ++ [a] <+: l)
    (hb : front ++ [b] <+: l) : a = b := by
  have heq : front ++ [a] = front ++ [b] :=
    (List.prefix_of_prefix_length_le ha hb (by simp)).eq_of_length (by simp)
  simpa using heq

mutual

/-- The files of a tree have paths that begin with the path of the tree, and they are different. -/
theorem paths?_distinct {path : String} {paths : List String} (hpath : path ≠ "") :
    (tree : FileTree) → tree.WellNamed → tree.paths? path = some paths →
    (∀ p ∈ paths, Path.parts path <+: Path.parts p) ∧
      paths.Pairwise fun p q => Path.parts p ≠ Path.parts q
  | .file content, _, h => by
    rw [← Option.some.inj h]
    exact ⟨List.forall_mem_singleton.mpr List.prefix_rfl, List.pairwise_singleton _ _⟩
  | .sink, _, h => by
    rw [← Option.some.inj h]
    exact ⟨List.forall_mem_nil _, .nil⟩
  | .directory entries, htree, h => by
    rw [FileTree.paths?] at h
    split at h
    · cases h
    · obtain ⟨hbelow, hdistinct⟩ := entryPaths?_distinct hpath entries htree h
      refine ⟨fun p hp => ?_, hdistinct⟩
      obtain ⟨e, -, hprefix⟩ := hbelow p hp
      exact (List.prefix_append _ _).trans hprefix

/-- Behind the path of a directory comes the name of an entry, and another name for each entry. -/
theorem entryPaths?_distinct {path : String} {paths : List String} (hpath : path ≠ "") :
    (entries : List (String × FileTree)) → WellNamed (.directory entries) →
    entryPaths? path entries = some paths →
    (∀ p ∈ paths, ∃ e ∈ entries, Path.parts path ++ [.name e.1] <+: Path.parts p) ∧
      paths.Pairwise fun p q => Path.parts p ≠ Path.parts q
  | [], _, h => by
    rw [← Option.some.inj h]
    exact ⟨List.forall_mem_nil _, .nil⟩
  | (name, tree) :: rest, htree, h => by
    cases htree with
    | directory hnames hsorted hbelow =>
      have hname : Path.IsName name := hnames _ List.mem_cons_self
      rw [List.forall_mem_cons] at hnames
      obtain ⟨hfirst, hsorted⟩ := List.pairwise_cons.mp hsorted
      obtain ⟨htree, hbelow⟩ := List.forall_mem_cons.mp hbelow
      rw [entryPaths?] at h
      obtain ⟨here, hhere, h⟩ := Option.bind_eq_some_iff.mp h
      obtain ⟨later, hlater, h⟩ := Option.bind_eq_some_iff.mp h
      rw [← Option.some.inj h]
      obtain ⟨hherePaths, hhereDistinct⟩ :=
        paths?_distinct (Path.join_ne_empty hname) tree htree hhere
      obtain ⟨hlaterPaths, hlaterDistinct⟩ :=
        entryPaths?_distinct hpath rest (.directory hnames.2 hsorted hbelow) hlater
      rw [Path.parts_join hpath hname] at hherePaths
      refine ⟨List.forall_mem_append.mpr ⟨fun p hp => ?_, fun p hp => ?_⟩,
        List.pairwise_append.mpr ⟨hhereDistinct, hlaterDistinct, fun p hp q hq heq => ?_⟩⟩
      · exact ⟨_, List.mem_cons_self, hherePaths p hp⟩
      · obtain ⟨e, he, hprefix⟩ := hlaterPaths p hp
        exact ⟨e, List.mem_cons_of_mem _ he, hprefix⟩
      · obtain ⟨e, he, hprefix⟩ := hlaterPaths q hq
        have hsame := eq_of_prefixes (heq ▸ hherePaths p hp) hprefix
        exact (hfirst e he).ne (Path.Part.name.inj hsame)

end

/-- What is located has names that lead to it, and the empty path leads nowhere. -/
theorem exists_get?_of_locate {directory : List String} {found : FileTree}
    (h : tree.locate directory path = .ok found) :
    path ≠ "" ∧ ∃ names, tree.get? names = some found := by
  unfold locate at h
  split at h
  · cases h
  rename_i hallowed
  obtain ⟨-, -, h⟩ := bind_eq_ok_iff.mp h
  obtain ⟨names, -, h⟩ := bind_eq_ok_iff.mp h
  refine ⟨?_, names.reverse, ?_⟩
  · rintro rfl
    exact hallowed .missing (by simp [refusal?])
  · split at h
    · rename_i hget
      rw [hget, Except.ok.inj h]
    · cases h

/-- The files below a path have different paths. -/
theorem WellNamed.pairwise_filesBelow? (htree : tree.WellNamed) {directory : List String}
    (h : tree.filesBelow? directory path = some paths) :
    paths.Pairwise fun p q => ¬ Path.same p q := by
  rw [filesBelow?] at h
  cases hlocate : tree.locate directory path with
  | error problem =>
    rw [hlocate] at h
    cases h
  | ok found =>
  rw [hlocate] at h
  obtain ⟨hpath, names, hget⟩ := exists_get?_of_locate hlocate
  refine (paths?_distinct hpath found (htree.get? hget).1 h).2.imp fun hne hsame => ?_
  exact hne (of_decide_eq_true hsame)

end FileTree

/-! ### Listings on a workspace -/

namespace Workspace

/-- A workspace made of a directory has names in order if the directory does. -/
theorem wellNamed_ofDirectory {tree : FileTree} (htree : tree.WellNamed)
    (reply : Option ToolReply) : (ofDirectory tree reply).files.WellNamed := by
  have hdevice : FileTree.WellNamed (.directory [("null", .sink)]) :=
    FileTree.wellNamed_empty.setEntry .sink (by decide)
  have hwork : FileTree.WellNamed (.directory [("work", tree)]) :=
    FileTree.wellNamed_empty.setEntry htree (by decide)
  have hnames : Path.IsName "dev" ∧ Path.IsName "tmp" ∧ "dev" < "tmp" := by decide
  refine .directory ?_ (List.pairwise_pair.mpr hnames.2.2) ?_
  · exact List.forall_mem_cons.mpr ⟨hnames.1, List.forall_mem_singleton.mpr hnames.2.1⟩
  · exact List.forall_mem_cons.mpr ⟨hdevice, List.forall_mem_singleton.mpr hwork⟩

/-- Whatever is written, the names stay in order. -/
theorem wellNamed_write {w : Workspace} (h : w.files.WellNamed) (path : String)
    (content : List UInt8) :
    ((Host.write path content : StateM Workspace Bool) w).2.files.WellNamed := by
  have hget : (get : StateM Workspace Workspace) w = (w, w) := rfl
  simp only [Host.write, Bind.bind, StateT.bind, hget]
  cases hwrite : w.files.write? w.directory path content with
  | none => exact h
  | some files => exact h.write? hwrite

end Workspace

namespace Analysis

theorem readText_run (path : String) (w : Workspace) :
    ∃ text, (Host.readText path : StateM Workspace (Except ReadProblem String)) w = (text, w) := by
  have hread : (Host.read path : StateM Workspace _) w = (w.read path, w) := rfl
  simp only [Host.readText, Bind.bind, StateT.bind, hread]
  cases w.read path with
  | error problem => exact ⟨.error problem, rfl⟩
  | ok content =>
    cases hdecode : Text.Utf8.decode? content with
    | none => exact ⟨.error .notText, by simp only [hdecode]; rfl⟩
    | some text => exact ⟨.ok text, by simp only [hdecode]; rfl⟩

/-- Reading files gives the content of each and changes nothing. -/
theorem mapM_read_run (paths : List String) (w : Workspace) :
    (paths.mapM fun path => do
      return { path, content := ← Host.read path : Artifact } : StateM Workspace _) w =
      (paths.map fun path => { path, content := w.read path }, w) := by
  induction paths with
  | nil => rfl
  | cons path rest ih =>
    rw [List.mapM_cons]
    exact congrArg (fun r : List Artifact × Workspace =>
      (({ path, content := w.read path } : Artifact) :: r.1, r.2)) ih

/-- A root is listed without a change to the workspace, with the artifacts among the files below
it. -/
theorem listRoot_run (settings : Settings) (root : String) (w : Workspace) :
    ∃ listing, (listRoot settings root : StateM Workspace RootListing) w = (listing, w) ∧
      listing.artifacts = (w.files.filesBelow? w.directory root).map fun paths =>
        (paths.filter (isArtifact settings)).map fun path => { path, content := w.read path } := by
  obtain ⟨text, htext⟩ := readText_run (Path.join root settings.buildDescriptor) w
  have hbelow : (Host.filesBelow root : StateM Workspace _) w =
      (w.files.filesBelow? w.directory root, w) := rfl
  rw [listRoot]
  simp only [Bind.bind, StateT.bind, htext, hbelow]
  cases w.files.filesBelow? w.directory root with
  | none => exact ⟨_, rfl, rfl⟩
  | some paths =>
    let listing (artifacts : List Artifact) : RootListing :=
      { root, package := text.toOption.bind BuildDescriptor.namespace?,
        artifacts := some artifacts }
    refine ⟨listing ((paths.filter (isArtifact settings)).map _), ?_, rfl⟩
    exact congrArg (fun r : List Artifact × Workspace => (listing r.1, r.2))
      (mapM_read_run (paths.filter (isArtifact settings)) w)

/-- Listing the roots changes nothing, so each is listed as if it were alone. -/
theorem mapM_listRoot_run (settings : Settings) (roots : List String) (w : Workspace) :
    ∃ listings, (roots.mapM (listRoot settings) : StateM Workspace (List RootListing)) w =
        (listings, w) ∧
      ∀ listing ∈ listings, ∃ root,
        (listRoot settings root : StateM Workspace RootListing) w = (listing, w) := by
  induction roots with
  | nil => exact ⟨[], rfl, List.forall_mem_nil _⟩
  | cons root rest ih =>
    obtain ⟨listing, hlisting, -⟩ := listRoot_run settings root w
    obtain ⟨listings, hlistings, hroots⟩ := ih
    refine ⟨listing :: listings, ?_, List.forall_mem_cons.mpr ⟨⟨root, hlisting⟩, hroots⟩⟩
    rw [List.mapM_cons]
    simp only [Bind.bind, StateT.bind, hlisting, hlistings]
    rfl

/-- The roots of an analysis are listed so that a walk comes to each path below a root only once. -/
theorem walkedOnce_listRoot (settings : Settings) (roots : List String) {w : Workspace}
    (hfiles : w.files.WellNamed) :
    WalkedOnce ((roots.mapM (listRoot settings) : StateM Workspace (List RootListing)) w).1 := by
  obtain ⟨listings, hrun, hroots⟩ := mapM_listRoot_run settings roots w
  rw [hrun]
  intro listing hmem
  obtain ⟨root, hlisting⟩ := hroots listing hmem
  obtain ⟨listing', hlisting', hartifacts⟩ := listRoot_run settings root w
  obtain ⟨rfl, -⟩ := Prod.mk.inj (hlisting.symm.trans hlisting')
  rw [hartifacts]
  cases hbelow : w.files.filesBelow? w.directory root with
  | none => exact .nil
  | some paths =>
    rw [Option.map_some, Option.getD_some, List.pairwise_map]
    exact (hfiles.pairwise_filesBelow? hbelow).filter _

end Analysis

end CallForest
