import CallForest.Report.Drawing
import Mathlib.Data.List.Basic

/-!
# Drawings made step by step

A drawing can be made by going through the trees once. A sketch keeps the lines so far and the
number of the next node. Each node takes that number, and the nodes below it take theirs before the
next neighbour does. So the number of a node is that of its neighbour to the left, moved on by the
size of the tree there, and the lines come out the same as when the numbers are worked out from the
sizes of the trees.

The form of a label can be made step by step, too. Its backslashes are doubled first, so that those
which stand for quotes and line breaks afterwards are not doubled with them.

## Main definitions

* `Drawing.Sketch` — a drawing in the making;
* `Drawing.Sketch.addTree`, `Drawing.Sketch.addForest` — a sketch with a tree more, or with trees;
* `Drawing.replaced` — a text with a form in the place of a character.

## Main results

* `Drawing.lines_eq_sketch` — the lines of a drawing are those of a sketch of all trees;
* `Drawing.escape_eq_replaced` — the form of a label is made by three replacements.
-/

namespace CallForest.Drawing

/-! ### Numbers handed on -/

/-- A drawing in the making: the lines so far, and the number of the next node. -/
structure Sketch where
  lines : List String
  next : Nat

namespace Sketch

/-- The sketch with a node more, and with an arrow to it if it hangs below another node. -/
def addNode (kind : EntryKind) (parent? : Option Nat) (n : CallNode) (s : Sketch) : Sketch where
  lines := s.lines ++
    match parent? with
    | none => [nodeLine s.next (rootLabel kind n) (rootLooks kind)]
    | some parent => [nodeLine s.next n.signature (childLooks n), edgeLine parent s.next]
  next := s.next + 1

mutual

/-- The sketch with a tree more. -/
def addTree (kind : EntryKind) (parent? : Option Nat) : CallTree → Sketch → Sketch
  | .node root children, s => addChildren kind s.next children (s.addNode kind parent? root)

/-- The sketch with the trees below a node, one after the other. -/
def addChildren (kind : EntryKind) (parent : Nat) : List CallTree → Sketch → Sketch
  | [], s => s
  | t :: rest, s => addChildren kind parent rest (addTree kind (some parent) t s)

end

/-- The sketch with several trees more, a blank line before each. -/
def addForest (s : Sketch) (trees : List (EntryKind × CallTree)) : Sketch :=
  trees.foldl (fun s entry => addTree entry.1 none entry.2 { s with lines := s.lines ++ [""] }) s

mutual

/-- A tree below a node takes as many numbers as it has nodes. -/
theorem addTree_some (kind : EntryKind) (parent : Nat) : (t : CallTree) → (s : Sketch) →
    addTree kind (some parent) t s =
      ⟨s.lines ++ subtreeLines parent s.next t, s.next + t.size⟩
  | .node root children, s => by
    rw [addTree, addChildren_eq, addNode, subtreeLines, CallTree.size, List.append_assoc,
      ← Nat.add_assoc]
    rfl

/-- Neighbours take their numbers from the left to the right. -/
theorem addChildren_eq (kind : EntryKind) (parent : Nat) : (ts : List CallTree) → (s : Sketch) →
    addChildren kind parent ts s =
      ⟨s.lines ++ childLines parent s.next ts, s.next + CallTree.sizeAll ts⟩
  | [], s => by rw [addChildren, childLines, List.append_nil, CallTree.sizeAll, Nat.add_zero]
  | t :: rest, s => by
    rw [addChildren, addTree_some, addChildren_eq, childLines, CallTree.sizeAll, List.append_assoc,
      Nat.add_assoc]

end

/-- A tree without a parent adds its lines and moves the counter by its size. -/
theorem addTree_none (kind : EntryKind) (t : CallTree) (s : Sketch) :
    addTree kind none t s = ⟨s.lines ++ treeLines kind s.next t, s.next + t.size⟩ := by
  cases t with
  | node root children =>
    rw [addTree, addChildren_eq, addNode, treeLines, CallTree.size, List.append_assoc,
      ← Nat.add_assoc]
    rfl

theorem lines_addForest (trees : List (EntryKind × CallTree)) (s : Sketch) :
    (s.addForest trees).lines = s.lines ++ forestLines s.next trees := by
  induction trees generalizing s with
  | nil => exact (List.append_nil _).symm
  | cons entry rest ih =>
    rw [addForest, List.foldl_cons, ← addForest, ih, addTree_none, forestLines]
    simp only [List.append_assoc, List.cons_append, List.nil_append]

end Sketch

/-- The lines of a drawing are those of one pass over its trees, in which every node takes the next
number. -/
theorem lines_eq_sketch (f : EntryForest) :
    lines f = (Sketch.addForest ⟨header, 0⟩ f.trees).lines ++ ["\x7d"] := by
  rw [Sketch.lines_addForest, lines]

/-! ### The form of a label -/

/-- The text with a form in the place of a character. -/
def replaced (c : Char) (form text : List Char) : List Char :=
  text.flatMap fun d => if d = c then form else [d]

/-- The form of a label is made by three replacements, one after the other. -/
theorem escape_eq_replaced (label : String) : (escape label).toList =
    replaced '\n' ['\\', 'n'] (replaced '"' ['\\', '"']
      (replaced '\\' ['\\', '\\'] label.toList)) := by
  rw [escape, String.toList_ofList, replaced, replaced, replaced, List.flatMap_assoc,
    List.flatMap_assoc]
  apply List.flatMap_congr
  intro c _
  unfold escapeChar
  by_cases hslash : c = '\\'
  · subst hslash
    decide
  by_cases hquote : c = '"'
  · subst hquote
    decide
  by_cases hbreak : c = '\n'
  · subst hbreak
    decide
  simp [hslash, hquote, hbreak]

end CallForest.Drawing
