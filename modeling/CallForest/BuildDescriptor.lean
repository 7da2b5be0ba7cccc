import CallForest.Markup.Reference
import CallForest.Markup.Token
import CallForest.Text.Search

/-!
# Build descriptors

A build descriptor names the group that a project belongs to, and a project without a group of its
own belongs to that of its parent. The group, with its parts separated as in class names, is the
package below which the project's own classes lie.

## Main definitions

* `BuildDescriptor` — the groups that a descriptor names;
* `BuildDescriptor.parse` — reads a descriptor;
* `BuildDescriptor.namespace?` — the package of a project.
-/

namespace CallForest

/-- The groups that a descriptor names. -/
structure BuildDescriptor where
  /-- The group of the project itself. -/
  own : Option String := none
  /-- The group of the parent of the project. -/
  parent : Option String := none
deriving DecidableEq, Repr

namespace BuildDescriptor

/-- Why a descriptor cannot be read. -/
inductive Problem where
  /-- Tags are not closed, or not in the order in which they were opened. -/
  | markup
  /-- A group holds a reference to no character. -/
  | reference
deriving DecidableEq, Repr

/-- What has been read of a descriptor: the names of the open elements, innermost first, and the
groups. -/
structure Reading where
  elements : List (List Char) := []
  groups : BuildDescriptor := {}

/-- The name of an element without what stands before its first colon. -/
def localName (name : List Char) : List Char :=
  match name.dropWhile (· ≠ ':') with
  | _ :: rest => rest
  | [] => name

/-- The groups after a run of text that stands in the given elements, innermost first. The text
counts in the group of the project or of its parent, unless it is blank. -/
def addText (groups : BuildDescriptor) (elements : List (List Char)) (raw : List Char) :
    Except Problem BuildDescriptor :=
  let put (set : String → BuildDescriptor) : Except Problem BuildDescriptor :=
    match Markup.resolve? raw with
    | some text =>
      let text := Text.trim (String.ofList text)
      .ok (if text.isEmpty then groups else set text)
    | none => .error .reference
  match elements.map fun name => String.ofList (localName name) with
  | ["groupId", "project"] => put fun text => { groups with own := some text }
  | ["groupId", "parent", "project"] => put fun text => { groups with parent := some text }
  | _ => .ok groups

/-- What has been read after one more token. -/
def Reading.step (r : Reading) : Markup.Token → Except Problem Reading
  | .text raw => do return { r with groups := ← addText r.groups r.elements raw }
  | .opening name => .ok { r with elements := name :: r.elements }
  | .closing name =>
    match r.elements with
    | innermost :: outer =>
      if name = innermost then .ok { r with elements := outer } else .error .markup
    | [] => .error .markup
  | .single _ | .skipped => .ok r
  | .broken => .error .markup

/-- Reads a descriptor. Elements may stay open at its end. -/
def parse (document : String) : Except Problem BuildDescriptor := do
  return (← (Markup.tokens document).foldlM Reading.step {}).groups

/-- The group that counts: the project's own one, else that of its parent. -/
def group? (d : BuildDescriptor) : Option String :=
  d.own <|> d.parent

/-- The package of a project, from the text of its descriptor. -/
def namespace? (document : String) : Option String := do
  let descriptor ← (parse document).toOption
  return Text.replaceChar '.' '/' (← descriptor.group?)

end BuildDescriptor

end CallForest
