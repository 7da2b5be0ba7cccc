import CallForest.Proofs.Places
import CallForest.Report.Drawing

/-!
# Drawings show the forest

A drawing numbers the nodes of a forest as it comes to them and passes the number of a node down to
the nodes below it. The numbers turn out to be the positions of the nodes in a depth-first visit of
all trees, and the arrows to be the edges of the trees, once each.

What a drawing shows is what can be read off its lines. The readers know nothing of the forest: a
label is read up to the first quote that is not escaped, and fails at a line break. That they find
the labels of the forest says that the escaped form of a label can be undone, whatever its
characters are.

## Main definitions

* `EntryForest.places` — the places of a forest in the order of a depth-first visit;
* `Drawing.readNode?`, `Drawing.readEdge?` — what a line of a drawing says;
* `Drawing.Shows` — the lines of a drawing that shows a forest.

## Main results

* `Drawing.forestLines_eq` — each place has the lines of its node;
* `Drawing.readNode?_nodeLine`, `Drawing.readEdge?_edgeLine` — lines are read back;
* `EntryForest.shows_toDrawing` — the drawing of a forest shows it.
-/

namespace CallForest

/-! ### What is to be shown -/

namespace EntryForest

/-- The trees of a forest, web requests first. -/
def roots (f : EntryForest) : List CallTree :=
  f.http ++ f.rpc

/-- The places of a forest in the order of a depth-first visit. -/
def places (f : EntryForest) : List (List Nat) :=
  CallTree.placesFrom 0 f.roots

/-- The subtree at a place. -/
def at? (f : EntryForest) (place : List Nat) : Option CallTree :=
  CallTree.atIn? f.roots place

/-- The kind of the tree in which a place lies. -/
def kindAt (f : EntryForest) (place : List Nat) : EntryKind :=
  if place.headD 0 < f.http.length then .http else .rpc

/-- The label of the node at a place: its signature, with more before it at a root. -/
def labelAt (f : EntryForest) (place : List Nat) : String :=
  match f.at? place with
  | none => ""
  | some t =>
    if place.length = 1 then Drawing.rootLabel (f.kindAt place) t.root else t.root.signature

/-- The looks of the node at a place. -/
def looksAt (f : EntryForest) (place : List Nat) : Drawing.Looks :=
  match f.at? place with
  | none => Drawing.rootLooks (f.kindAt place)
  | some t =>
    if place.length = 1 then Drawing.rootLooks (f.kindAt place) else Drawing.childLooks t.root

/-- The number of the node at a place: how many nodes a depth-first visit comes to before it. -/
def idAt (f : EntryForest) (place : List Nat) : Nat :=
  f.places.idxOf place

/-! ### The places of a forest -/

/-- The places of a forest are those at which it has a subtree. -/
theorem mem_places (f : EntryForest) (place : List Nat) :
    place ∈ f.places ↔ (f.at? place).isSome := by
  rw [places, CallTree.mem_placesFrom, at?]
  constructor
  · rintro ⟨k, path, rfl, hsome⟩
    rwa [Nat.zero_add]
  · intro hsome
    cases place with
    | nil => cases hsome
    | cons k path => exact ⟨k, path, by rw [Nat.zero_add], hsome⟩

/-- There are as many places of one number as trees. -/
theorem countP_places (f : EntryForest) :
    f.places.countP (fun place => place.length = 1) = f.size := by
  rw [places, CallTree.countP_placesFrom, roots, List.length_append, size]

/-- No place is visited twice. -/
theorem nodup_places (f : EntryForest) : f.places.Nodup :=
  CallTree.nodup_placesFrom 0 f.roots

theorem at?_child {f : EntryForest} {place : List Nat} {t : CallTree} (hat : f.at? place = some t)
    (k : Nat) : f.at? (place ++ [k]) = t.children[k]? := by
  rw [at?, CallTree.atIn?_append hat, CallTree.at?_singleton]

theorem getElem?_trees (f : EntryForest) (i : Nat) :
    f.trees[i]? = f.roots[i]?.map fun t => (f.kindAt [i], t) := by
  rw [trees, roots, List.getElem?_append, List.getElem?_append, List.length_map]
  by_cases hi : i < f.http.length
  · simp [kindAt, hi]
  · simp [kindAt, hi]

end EntryForest

namespace Drawing

open EntryForest

/-- The lines for the node at a place: a blank line before a root, and an arrow after any other
node, from the node above it. -/
def linesAt (f : EntryForest) (place : List Nat) : List String :=
  let line := nodeLine (f.idAt place) (f.labelAt place) (f.looksAt place)
  if place.length = 1 then ["", line] else [line, edgeLine (f.idAt place.dropLast) (f.idAt place)]

/-! ### Reading a drawing -/

/-- What follows the given text. -/
def expect? (text : String) (cs : List Char) : Option (List Char) :=
  if text.toList.isPrefixOf cs then some (cs.drop text.toList.length) else none

/-- Reads the number behind the given text, and what follows it. -/
def readNumber? (text : String) (cs : List Char) : Option (Nat × List Char) := do
  let rest ← expect? text cs
  let digits := rest.takeWhile Char.isDigit
  if digits = [] then none
  else return (Nat.ofDigitChars 10 digits 0, rest.dropWhile Char.isDigit)

/-- The character that stands behind a backslash. -/
def unescape? (c : Char) : Option Char :=
  if c = '\\' ∨ c = '"' then some c
  else if c = 'n' then some '\n'
  else none

/-- Reads the rest of a label up to the first quote that is not escaped, and what follows the quote.
A line break cannot stand in a label. -/
def readLabel? : List Char → Option (List Char × List Char)
  | [] => none
  | c :: rest =>
    if c = '"' then some ([], rest)
    else if c = '\n' then none
    else if c = '\\' then
      match rest with
      | [] => none
      | d :: rest' => do
        let e ← unescape? d
        let read ← readLabel? rest'
        return (e :: read.1, read.2)
    else do
      let read ← readLabel? rest
      return (c :: read.1, read.2)

/-- The number and the label of the node that a line draws. -/
def readNode? (line : String) : Option (Nat × String) := do
  let id ← readNumber? "    n" line.toList
  let label ← readLabel? (← expect? " [label=\"" id.2)
  let _ ← expect? ", style=\"" label.2
  return (id.1, String.ofList label.1)

/-- The numbers of the nodes between which a line draws an arrow. -/
def readEdge? (line : String) : Option (Nat × Nat) := do
  let parent ← readNumber? "    n" line.toList
  let child ← readNumber? " -> n" parent.2
  if child.2 = [';'] then return (parent.1, child.1) else none

/-- The lines are those of a drawing that shows the forest, with its nodes numbered in the order of
a depth-first visit. -/
structure Shows (lines : List String) (f : EntryForest) : Prop where
  /-- There are a header, the lines of each place, and a closing brace. -/
  lines_eq : lines = header ++ f.places.flatMap (linesAt f) ++ ["\x7d"]
  /-- There is one blank line for each root. -/
  count_blank : lines.count "" = f.size
  /-- The nodes are numbered one after the other, each with its label. -/
  nodes_read : lines.filterMap readNode? = f.places.mapIdx fun id place => (id, f.labelAt place)
  /-- The arrows lead to all nodes but the roots, each from the node above. -/
  edges_read : lines.filterMap readEdge? =
    (f.places.filter (fun place => place.length ≠ 1)).map fun place =>
      (f.idAt place.dropLast, f.idAt place)
  length_nodes : (lines.filterMap readNode?).length = CallTree.sizeAll f.roots
  length_edges : (lines.filterMap readEdge?).length = CallTree.sizeAll f.roots - f.size

/-! ### The number of a place -/

section Window

variable {α : Type} {order front back : List α} {i : Nat}

/-- The first place of a window that starts at `i` has the number `i`. -/
theorem window_cons [BEq α] [LawfulBEq α] (hnodup : order.Nodup) {a : α}
    (hwindow : a :: back <+: order.drop i) :
    order.idxOf a = i ∧ back <+: order.drop (i + 1) := by
  obtain ⟨rest, hrest⟩ := hwindow
  have hget : order[i]? = some a := by
    rw [← List.head?_drop, ← hrest]
    rfl
  obtain ⟨hi, rfl⟩ := List.getElem?_eq_some_iff.mp hget
  refine ⟨hnodup.idxOf_getElem i hi, rest, ?_⟩
  rw [← List.tail_drop, ← hrest]
  rfl

/-- A window falls into two, of which the second starts where the first ends. -/
theorem window_append (hwindow : front ++ back <+: order.drop i) :
    front <+: order.drop i ∧ back <+: order.drop (i + front.length) := by
  obtain ⟨rest, hrest⟩ := hwindow
  rw [← List.drop_drop, ← hrest, List.append_assoc, List.drop_left]
  exact ⟨List.prefix_append _ _, List.prefix_append _ _⟩

end Window

section Lines

variable {f : EntryForest} {place above : List Nat} {id : Nat}

/-- A root is drawn as a blank line and a node, without an edge. -/
theorem linesAt_root {kind : EntryKind} {t : CallTree} {i : Nat} (hid : f.idAt [i] = id)
    (hkind : f.kindAt [i] = kind) (hat : f.at? [i] = some t) :
    linesAt f [i] = ["", nodeLine id (rootLabel kind t.root) (rootLooks kind)] := by
  simp only [linesAt, labelAt, looksAt, hat, hid, hkind, List.length_singleton, if_true]

/-- A node below another one is drawn as a node and the edge that leads to it. -/
theorem linesAt_below {t : CallTree} {parent : Nat} (hid : f.idAt place = id)
    (hparent : f.idAt place.dropLast = parent) (hlength : 1 < place.length)
    (hat : f.at? place = some t) :
    linesAt f place =
      [nodeLine id t.root.signature (childLooks t.root), edgeLine parent id] := by
  simp only [linesAt, labelAt, looksAt, hat, hid, hparent, if_neg (Nat.ne_of_gt hlength)]

mutual

/-- The lines of a subtree are those of its places. The subtree has the number `id` if that is where
its places begin in the visit of the whole forest. -/
theorem subtreeLines_eq (f : EntryForest) (place : List Nat) (parent id : Nat)
    (hparent : f.idAt place.dropLast = parent) (hlength : 1 < place.length) : (t : CallTree) →
    f.at? place = some t → t.paths.map (place ++ ·) <+: f.places.drop id →
    subtreeLines parent id t = (t.paths.map (place ++ ·)).flatMap (linesAt f)
  | .node root children, hat, hwindow => by
    rw [CallTree.paths, List.map_cons, List.append_nil] at hwindow ⊢
    -- The top is the first of the window, and what is below it takes the numbers after it.
    obtain ⟨hid, hrest⟩ := window_cons f.nodup_places hwindow
    have hchildren := childLines_eq f place id (id + 1) 0 hid (by omega) children
      (fun k => by rw [Nat.zero_add]; exact at?_child hat k) hrest
    rw [List.flatMap_cons, linesAt_below hid hparent hlength hat, subtreeLines, hchildren]
    rfl

/-- The same for the trees below a place, of which the first is child number `i`. -/
theorem childLines_eq (f : EntryForest) (above : List Nat) (parent id i : Nat)
    (hparent : f.idAt above = parent) (hlength : 0 < above.length) : (ts : List CallTree) →
    (∀ k, f.at? (above ++ [i + k]) = ts[k]?) →
    (CallTree.placesFrom i ts).map (above ++ ·) <+: f.places.drop id →
    childLines parent id ts = ((CallTree.placesFrom i ts).map (above ++ ·)).flatMap (linesAt f)
  | [], _, _ => rfl
  | t :: rest, hat, hwindow => by
    have hfront :
        (t.paths.map (i :: ·)).map (above ++ ·) = t.paths.map ((above ++ [i]) ++ ·) := by
      simp
    rw [CallTree.placesFrom, List.map_append, hfront] at hwindow ⊢
    obtain ⟨htree, hrest⟩ := window_append hwindow
    rw [List.length_map, CallTree.length_paths] at hrest
    have hsubtree := subtreeLines_eq f (above ++ [i]) parent id
      (by rw [List.dropLast_concat, hparent]) (by simpa using hlength) t (hat 0) htree
    have hothers := childLines_eq f above parent (id + t.size) (i + 1) hparent hlength rest
      (fun k => by rw [Nat.add_right_comm, Nat.add_assoc]; exact hat (k + 1)) hrest
    rw [childLines, hsubtree, hothers, List.flatMap_append]

end

/-- The lines of a tree are those of its places, where the place of its root is one number. -/
theorem treeLines_eq {kind : EntryKind} {t : CallTree} {i : Nat} (hkind : f.kindAt [i] = kind)
    (hat : f.at? [i] = some t) (hwindow : t.paths.map ([i] ++ ·) <+: f.places.drop id) :
    "" :: treeLines kind id t = (t.paths.map ([i] ++ ·)).flatMap (linesAt f) := by
  obtain ⟨root, children⟩ := t
  rw [CallTree.paths, List.map_cons, List.append_nil] at hwindow ⊢
  obtain ⟨hid, hrest⟩ := window_cons f.nodup_places hwindow
  have hchildren := childLines_eq f [i] id (id + 1) 0 hid Nat.zero_lt_one children
    (fun k => by rw [Nat.zero_add]; exact at?_child hat k) hrest
  rw [List.flatMap_cons, linesAt_root hid hkind hat, treeLines, CallTree.children, hchildren]
  rfl

/-- The lines of a forest are those of its places. -/
theorem forestLines_eq (f : EntryForest) :
    forestLines 0 f.trees = f.places.flatMap (linesAt f) := by
  -- The induction is on the trees that are left, of which the first has the number `i`.
  have hfrom (entries : List (EntryKind × CallTree)) (i id : Nat)
      (hentries : ∀ k, f.trees[i + k]? = entries[k]?)
      (hwindow : CallTree.placesFrom i (entries.map (·.2)) <+: f.places.drop id) :
      forestLines id entries =
        (CallTree.placesFrom i (entries.map (·.2))).flatMap (linesAt f) := by
    induction entries generalizing i id with
    | nil => rfl
    | cons entry entries ih =>
      obtain ⟨kind, t⟩ := entry
      have hentry := hentries 0
      rw [Nat.add_zero, getElem?_trees, List.getElem?_cons_zero, Option.map_eq_some_iff] at hentry
      obtain ⟨root, hroot, heq⟩ := hentry
      cases heq
      have hat : f.at? [i] = some t := by
        rw [at?, CallTree.atIn?, hroot]
        rfl
      rw [List.map_cons, CallTree.placesFrom] at hwindow ⊢
      obtain ⟨htree, hrest⟩ := window_append hwindow
      rw [List.length_map, CallTree.length_paths] at hrest
      have hothers := ih (i + 1) (id + t.size)
        (fun k => by rw [Nat.add_right_comm, Nat.add_assoc]; exact hentries (k + 1)) hrest
      rw [forestLines, treeLines_eq rfl hat htree, hothers, List.flatMap_append]
      rfl
  have hroots : f.trees.map (·.2) = f.roots := by
    simp [trees, roots, Function.comp_def]
  rw [hfrom f.trees 0 0 (fun k => by rw [Nat.zero_add]) (by rw [hroots]; exact List.prefix_refl _),
    hroots, places]

end Lines

/-! ### Lines are read back -/

section Readers

variable {rest : List Char}

/-- A text that stands at the front is read off. -/
@[simp]
theorem expect?_append (text : String) (rest : List Char) :
    expect? text (text.toList ++ rest) = some rest := by
  have hbegins : text.toList.isPrefixOf (text.toList ++ rest) = true :=
    List.isPrefixOf_iff_prefix.mpr (List.prefix_append _ _)
  rw [expect?, if_pos hbegins, List.drop_left]

/-- A number is read up to the first character that is no digit. -/
theorem readNumber?_toDigits (text : String) (n : Nat) (hrest : ∀ c ∈ rest.head?, ¬ c.isDigit) :
    readNumber? text (text.toList ++ (Nat.toDigits 10 n ++ rest)) = some (n, rest) := by
  have hdigits : ∀ d ∈ Nat.toDigits 10 n, d.isDigit = true := fun d hd =>
    Nat.isDigit_of_mem_toDigits (by decide) (by decide) hd
  have hnone : rest.takeWhile Char.isDigit = [] ∧ rest.dropWhile Char.isDigit = rest := by
    cases rest with
    | nil => exact ⟨rfl, rfl⟩
    | cons c rest =>
      rw [List.takeWhile_cons, List.dropWhile_cons, if_neg (hrest c rfl), if_neg (hrest c rfl)]
      exact ⟨rfl, rfl⟩
  simp only [readNumber?, expect?_append, Option.bind_eq_bind, Option.bind_some,
    List.takeWhile_append_of_pos hdigits, List.dropWhile_append_of_pos hdigits, hnone,
    List.append_nil, Nat.ofDigitChars_ten_toDigits]
  exact if_neg Nat.toDigits_ne_nil

/-- The form of a character between quotes is read as the character. -/
theorem readLabel?_escapeChar (c : Char) (rest : List Char) :
    readLabel? (escapeChar c ++ rest) =
      (readLabel? rest).map fun read => (c :: read.1, read.2) := by
  have hbind {e : Char} : (do
      let read ← readLabel? rest
      return (e :: read.1, read.2)) = (readLabel? rest).map fun read => (e :: read.1, read.2) := by
    cases readLabel? rest <;> rfl
  by_cases hslash : c = '\\'
  · subst hslash
    exact hbind
  by_cases hquote : c = '"'
  · subst hquote
    exact hbind
  by_cases hbreak : c = '\n'
  · subst hbreak
    exact hbind
  · rw [escapeChar, if_neg hslash, if_neg hquote, if_neg hbreak, List.singleton_append,
      readLabel?.eq_def]
    simp only [if_neg hquote, if_neg hbreak, if_neg hslash]
    exact hbind

/-- A label is read up to the quote that ends it. -/
theorem readLabel?_escape (label : String) (rest : List Char) :
    readLabel? ((escape label).toList ++ '"' :: rest) = some (label.toList, rest) := by
  rw [escape, String.toList_ofList]
  induction label.toList with
  | nil =>
    rw [List.flatMap_nil, List.nil_append, readLabel?.eq_def]
    rfl
  | cons c cs ih =>
    rw [List.flatMap_cons, List.append_assoc, readLabel?_escapeChar, ih, Option.map_some]

theorem toList_nodeName (id : Nat) : (nodeName id).toList = 'n' :: Nat.toDigits 10 id := by
  rw [nodeName, String.toList_append, Nat.toString_eq_ofList_toDigits]
  exact congrArg ('n' :: ·) String.toList_ofList

theorem toList_foldl_append (text : String) (pieces : List String) :
    (pieces.foldl (· ++ ·) text).toList = text.toList ++ pieces.flatMap String.toList := by
  induction pieces generalizing text with
  | nil => exact (List.append_nil _).symm
  | cons piece pieces ih =>
    rw [List.foldl_cons, ih, String.toList_append, List.append_assoc, List.flatMap_cons]

theorem nodeLine_eq_foldl (id : Nat) (label : String) (looks : Looks) :
    nodeLine id label looks = [nodeName id, " [label=\"", escape label, "\", style=\"", looks.style,
      "\", fillcolor=\"", looks.fill, "\", color=\"", looks.border, "\"];"].foldl (· ++ ·) "    " :=
  rfl

theorem edgeLine_eq_foldl (parent child : Nat) :
    edgeLine parent child =
      [nodeName parent, " -> ", nodeName child, ";"].foldl (· ++ ·) "    " :=
  rfl

theorem toList_nodeLine (id : Nat) (label : String) (looks : Looks) :
    (nodeLine id label looks).toList = "    n".toList ++ (Nat.toDigits 10 id ++
      (" [label=\"".toList ++ ((escape label).toList ++ '"' :: (", style=\"".toList ++
        [looks.style, "\", fillcolor=\"", looks.fill, "\", color=\"", looks.border,
          "\"];"].flatMap String.toList)))) := by
  rw [nodeLine_eq_foldl, toList_foldl_append, List.flatMap_cons, toList_nodeName]
  rfl

theorem toList_edgeLine (parent child : Nat) :
    (edgeLine parent child).toList = "    n".toList ++ (Nat.toDigits 10 parent ++
      (" -> n".toList ++ (Nat.toDigits 10 child ++ [';']))) := by
  rw [edgeLine_eq_foldl, toList_foldl_append, List.flatMap_cons, List.flatMap_cons,
    List.flatMap_cons, toList_nodeName, toList_nodeName]
  rfl

/-- The line of a node gives back its number and its label, whatever the label is. -/
theorem readNode?_nodeLine (id : Nat) (label : String) (looks : Looks) :
    readNode? (nodeLine id label looks) = some (id, label) := by
  rw [readNode?, toList_nodeLine, readNumber?_toDigits _ _ (by simp)]
  simp only [expect?_append, readLabel?_escape, Option.bind_eq_bind, Option.bind_some,
    String.ofList_toList]
  rfl

/-- The line of an edge is not read as one of a node. -/
theorem readNode?_edgeLine (parent child : Nat) : readNode? (edgeLine parent child) = none := by
  rw [readNode?, toList_edgeLine, readNumber?_toDigits _ _ (by simp)]
  rfl

/-- The line of an edge gives back its two ends. -/
theorem readEdge?_edgeLine (parent child : Nat) :
    readEdge? (edgeLine parent child) = some (parent, child) := by
  rw [readEdge?, toList_edgeLine, readNumber?_toDigits _ _ (by simp)]
  simp only [Option.bind_eq_bind, Option.bind_some]
  rw [readNumber?_toDigits _ _ (by simp)]
  rfl

/-- The line of a node is not read as one of an edge. -/
theorem readEdge?_nodeLine (id : Nat) (label : String) (looks : Looks) :
    readEdge? (nodeLine id label looks) = none := by
  rw [readEdge?, toList_nodeLine, readNumber?_toDigits _ _ (by simp)]
  rfl

end Readers

/-! ### Lines are not broken -/

/-- There is no line break in the text. -/
def OneLine (text : String) : Prop := '\n' ∉ text.toList

instance (text : String) : Decidable (OneLine text) :=
  inferInstanceAs (Decidable ('\n' ∉ text.toList))

theorem oneLine_foldl_append {text : String} {pieces : List String} (htext : OneLine text)
    (hpieces : ∀ piece ∈ pieces, OneLine piece) : OneLine (pieces.foldl (· ++ ·) text) := by
  rw [OneLine, toList_foldl_append, List.mem_append, List.mem_flatMap]
  rintro (hmem | ⟨piece, hpiece, hmem⟩)
  · exact htext hmem
  · exact hpieces piece hpiece hmem

theorem oneLine_nodeName (id : Nat) : OneLine (nodeName id) := by
  rw [OneLine, toList_nodeName, List.mem_cons, not_or]
  refine ⟨by decide, fun hmem => ?_⟩
  have hdigit := Nat.isDigit_of_mem_toDigits (by decide) (by decide) hmem
  exact absurd hdigit (by decide)

/-- A line break in a label is written as two other characters. -/
theorem oneLine_escape (label : String) : OneLine (escape label) := by
  rw [OneLine, escape, String.toList_ofList, List.mem_flatMap]
  rintro ⟨c, -, hmem⟩
  unfold escapeChar at hmem
  split at hmem
  · exact absurd hmem (by decide)
  split at hmem
  · exact absurd hmem (by decide)
  split at hmem
  · exact absurd hmem (by decide)
  · rename_i hbreak
    exact hbreak (List.mem_singleton.mp hmem).symm

/-- There is no line break in the looks of a node. -/
def Looks.IsPlain (looks : Looks) : Prop :=
  OneLine looks.style ∧ OneLine looks.fill ∧ OneLine looks.border

theorem isPlain_rootLooks (kind : EntryKind) : (rootLooks kind).IsPlain := by
  unfold Looks.IsPlain
  cases kind <;> decide

theorem isPlain_childLooks (n : CallNode) : (childLooks n).IsPlain := by
  unfold Looks.IsPlain childLooks
  split <;> decide

theorem isPlain_looksAt (f : EntryForest) (place : List Nat) : (f.looksAt place).IsPlain := by
  unfold looksAt
  split
  · exact isPlain_rootLooks _
  split
  · exact isPlain_rootLooks _
  · exact isPlain_childLooks _

theorem oneLine_edgeLine (parent child : Nat) : OneLine (edgeLine parent child) := by
  rw [edgeLine_eq_foldl]
  apply oneLine_foldl_append (by decide)
  simp only [List.forall_mem_cons]
  exact ⟨oneLine_nodeName parent, by decide, oneLine_nodeName child, by decide, by simp⟩

/-- No label breaks the line that it stands in. -/
theorem oneLine_nodeLine (id : Nat) (label : String) {looks : Looks} (hlooks : looks.IsPlain) :
    OneLine (nodeLine id label looks) := by
  obtain ⟨hstyle, hfill, hborder⟩ := hlooks
  rw [nodeLine_eq_foldl]
  apply oneLine_foldl_append (by decide)
  simp only [List.forall_mem_cons]
  exact ⟨oneLine_nodeName id, by decide, oneLine_escape label, by decide, hstyle, by decide, hfill,
    by decide, hborder, by decide, by simp⟩

theorem oneLine_of_mem_linesAt {f : EntryForest} {place : List Nat} {line : String}
    (hline : line ∈ linesAt f place) : OneLine line := by
  have hnode := oneLine_nodeLine (f.idAt place) (f.labelAt place) (isPlain_looksAt f place)
  simp only [linesAt] at hline
  split at hline
  · simp only [List.mem_cons, List.not_mem_nil, or_false] at hline
    rcases hline with rfl | rfl
    · decide
    · exact hnode
  · simp only [List.mem_cons, List.not_mem_nil, or_false] at hline
    rcases hline with rfl | rfl
    · exact hnode
    · exact oneLine_edgeLine _ _

/-- A drawing falls into its lines at the line breaks. -/
theorem splitOn_toDrawing (f : EntryForest) :
    (f.toDrawing.toList.splitOn '\n').map String.ofList = lines f := by
  have hlines : ∀ cs ∈ (lines f).map String.toList, '\n' ∉ cs := by
    rw [List.forall_mem_map]
    intro line hline
    rw [lines, forestLines_eq, List.mem_append, List.mem_append, List.mem_flatMap] at hline
    rcases hline with (hheader | ⟨place, -, hline⟩) | hclosing
    · have hall : ∀ line ∈ header, OneLine line := by decide
      exact hall line hheader
    · exact oneLine_of_mem_linesAt hline
    · rw [List.mem_singleton] at hclosing
      subst hclosing
      decide
  have hne : (lines f).map String.toList ≠ [] := by simp [lines]
  have hbreak : "\n".toList = ['\n'] := rfl
  rw [toDrawing, String.toList_intercalate, hbreak, List.splitOn_intercalate '\n' hlines hne,
    List.map_map]
  simp [Function.comp_def]

/-! ### What the lines say -/

/-- Each place has one node, with its number and label. -/
theorem filterMap_readNode?_linesAt (f : EntryForest) (place : List Nat) :
    (linesAt f place).filterMap readNode? = [(f.idAt place, f.labelAt place)] := by
  have hblank : readNode? "" = none := rfl
  simp only [linesAt]
  split
  · simp [hblank, readNode?_nodeLine]
  · simp [readNode?_nodeLine, readNode?_edgeLine]

/-- Each place has one edge, from the place above it, except that a root has none. -/
theorem filterMap_readEdge?_linesAt (f : EntryForest) (place : List Nat) :
    (linesAt f place).filterMap readEdge? =
      if place.length = 1 then [] else [(f.idAt place.dropLast, f.idAt place)] := by
  have hblank : readEdge? "" = none := rfl
  simp only [linesAt]
  split
  · simp [hblank, readEdge?_nodeLine]
  · simp [readEdge?_nodeLine, readEdge?_edgeLine]

/-- Only roots have a blank line, since a blank line says nothing. -/
theorem count_blank_linesAt (f : EntryForest) (place : List Nat) :
    (linesAt f place).count "" = if place.length = 1 then 1 else 0 := by
  have hnode (id : Nat) (label : String) (looks : Looks) : nodeLine id label looks ≠ "" := by
    intro heq
    have hread := readNode?_nodeLine id label looks
    rw [heq] at hread
    cases hread
  have hedge (parent child : Nat) : edgeLine parent child ≠ "" := by
    intro heq
    have hread := readEdge?_edgeLine parent child
    rw [heq] at hread
    cases hread
  simp only [linesAt]
  split
  · simp [hnode]
  · simp [hnode, hedge]

/-- The nodes are numbered in the order of the visit. -/
theorem map_idAt (f : EntryForest) :
    (f.places.map fun place => (f.idAt place, f.labelAt place)) =
      f.places.mapIdx fun id place => (id, f.labelAt place) := by
  refine List.ext_getElem (by simp) fun i hi hi' => ?_
  rw [List.length_map] at hi
  rw [List.getElem_map, List.getElem_mapIdx, idAt, f.nodup_places.idxOf_getElem i hi]

/-- The nodes of a drawing are numbered in the order of the visit. -/
theorem filterMap_readNode?_lines (f : EntryForest) :
    (lines f).filterMap readNode? = f.places.mapIdx fun id place => (id, f.labelAt place) := by
  have hheader : header.filterMap readNode? = [] := by decide
  have hclosing : ["\x7d"].filterMap readNode? = [] := by decide
  rw [lines, forestLines_eq, List.filterMap_append, List.filterMap_append, hheader, hclosing,
    List.append_nil, List.nil_append, List.filterMap_flatMap]
  simp only [filterMap_readNode?_linesAt]
  rw [← map_idAt, List.map_eq_flatMap]

/-- The edges of a drawing are those between a place and the one above it. -/
theorem filterMap_readEdge?_lines (f : EntryForest) :
    (lines f).filterMap readEdge? =
      (f.places.filter (fun place => place.length ≠ 1)).map fun place =>
        (f.idAt place.dropLast, f.idAt place) := by
  have hheader : header.filterMap readEdge? = [] := by decide
  have hclosing : ["\x7d"].filterMap readEdge? = [] := by decide
  rw [lines, forestLines_eq, List.filterMap_append, List.filterMap_append, hheader, hclosing,
    List.append_nil, List.nil_append, List.filterMap_flatMap]
  simp only [filterMap_readEdge?_linesAt]
  generalize f.idAt = number
  induction f.places with
  | nil => rfl
  | cons place places ih =>
    rw [List.flatMap_cons, ih, List.filter_cons]
    by_cases hroot : place.length = 1
    · simp [hroot]
    · simp [hroot]

/-- There is one blank line for each tree. -/
theorem count_blank_lines (f : EntryForest) : (lines f).count "" = f.size := by
  have hheader : header.count "" = 0 := by decide
  have hclosing : ["\x7d"].count "" = 0 := by decide
  have hplaces (places : List (List Nat)) : (places.flatMap (linesAt f)).count "" =
      places.countP (fun place => place.length = 1) := by
    induction places with
    | nil => rfl
    | cons place places ih =>
      rw [List.flatMap_cons, List.count_append, ih, count_blank_linesAt, List.countP_cons,
        Nat.add_comm]
      simp
  rw [lines, forestLines_eq, List.count_append, List.count_append, hheader, hclosing, hplaces,
    countP_places]
  omega

end Drawing

open Drawing in
/-- The drawing of a forest shows it: the nodes in the order of a depth-first visit, with their
labels, and an arrow for each edge of a tree. -/
theorem EntryForest.shows_toDrawing (f : EntryForest) :
    f.places.Pairwise (· < ·) ∧ (∀ place, place ∈ f.places ↔ (f.at? place).isSome) ∧
      Shows ((f.toDrawing.toList.splitOn '\n').map String.ofList) f := by
  have hlength : f.places.length = CallTree.sizeAll f.roots := CallTree.length_placesFrom 0 f.roots
  have hnodes := filterMap_readNode?_lines f
  have hedges := filterMap_readEdge?_lines f
  refine ⟨CallTree.pairwise_placesFrom 0 f.roots, f.mem_places, ?_⟩
  rw [splitOn_toDrawing]
  refine ⟨?_, count_blank_lines f, hnodes, hedges, ?_, ?_⟩
  · rw [lines, forestLines_eq]
  · rw [hnodes, List.length_mapIdx, hlength]
  · have hsplit := f.places.length_eq_countP_add_countP (fun place => place.length = 1)
    rw [countP_places, hlength] at hsplit
    rw [hedges, List.length_map, ← List.countP_eq_length_filter, hsplit, Nat.add_sub_cancel_left]
    simp

end CallForest
