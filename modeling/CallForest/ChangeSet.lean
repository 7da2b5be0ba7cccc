import Std.Data.TreeSet
import CallForest.CallTree
import CallForest.Text.Blank
import CallForest.Text.Search

/-!
# Change sets and impact

A change set names the classes that a change touches, in internal form. Classes are added by name
or by the path of a source or class file. A change to a class touches the classes nested in it too.
The impact of a change on a forest is the trees with a touched class in them.

## Main definitions

* `ChangeSet` — the classes of a change;
* `ChangeSet.classOfPath?` — the class that a file belongs to;
* `ChangeSet.touches` — whether a class is touched;
* `EntryForest.impacted` — the trees that a change reaches.
-/

namespace CallForest

/-- The classes of a change, by internal name. -/
structure ChangeSet where
  names : Std.TreeSet String := ∅

namespace ChangeSet

/-- The classes in the order of their names. -/
def classes (c : ChangeSet) : List String :=
  c.names.toList

/-- The change set with one more class, which may be written with dots. -/
def addClass (c : ChangeSet) (name : String) : ChangeSet :=
  let internal := Text.replaceChar '.' '/' (Text.trim name)
  if internal.isEmpty then c else ⟨c.names.insert internal⟩

/-- The directories that sources stand in, in the order in which they are looked for. -/
def sourceRoots : List String :=
  ["src/main/java/", "src/main/kotlin/", "src/main/scala/"]

/-- The endings of the files that belong to classes. -/
def extensions : List String :=
  [".java", ".kt", ".scala", ".class"]

/-- The directory that compiled classes stand in. -/
def outputRoot : String := "classes/"

/-- The class that a file belongs to: the part of its path below the first source root, else below
the first output directory, else all of it, without the ending. -/
def classOfPath? (path : String) : Option String := do
  let normal := (Text.replaceChar '\\' '/' (Text.trim path)).toList
  let stem ← extensions.findSome? fun ext => Text.dropEnd? ext.toList normal
  let relative := ((sourceRoots ++ [outputRoot]).findSome? fun root =>
    Text.after? root.toList stem).getD stem
  let name := relative.dropWhile (· = '/')
  if name.isEmpty then none else some (String.ofList name)

/-- The change set with the class that a file belongs to, if any. -/
def addPath (c : ChangeSet) (path : String) : ChangeSet :=
  match classOfPath? path with
  | some name => ⟨c.names.insert name⟩
  | none => c

/-- The classes that the given files belong to. -/
def ofPaths (paths : List String) : ChangeSet :=
  paths.foldl addPath {}

/-- The classes of the files in a listing, one path per line. -/
def ofListing (listing : String) : ChangeSet :=
  ofPaths (((Text.lines listing).map Text.trim).filter (· ≠ ""))

/-- The class that a class is nested in: what stands before the first `$`. -/
def outermost (name : String) : String :=
  String.ofList (name.toList.takeWhile (· ≠ '$'))

/-- Whether a class or the class that it is nested in is in the set. -/
def touches (c : ChangeSet) (name : String) : Bool :=
  c.names.contains name || c.names.contains (outermost name)

end ChangeSet

/-- Whether some node of the tree belongs to a touched class. -/
def CallTree.reaches (t : CallTree) (changes : ChangeSet) : Bool :=
  t.nodes.any fun n => changes.touches n.className

/-- The trees that a change reaches. -/
def EntryForest.impacted (f : EntryForest) (changes : ChangeSet) : EntryForest :=
  f.filter (·.reaches changes)

end CallForest
