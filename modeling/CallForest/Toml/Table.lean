/-!
# TOML tables

The values of a TOML document, and how tables grow by its lines. Only the kinds of values that
settings use are there. A table may be given once: it cannot be opened by two headers, nor by a
header when its members stand in dotted keys, and a member cannot be given twice.

## Main definitions

* `Toml.Value` — a value;
* `Toml.Members` — the members of a table;
* `Toml.Members.openTable?` — a header;
* `Toml.Members.put?` — a key with a value.
-/

namespace CallForest.Toml

/-- What brought a table about. -/
inductive Origin where
  /-- A header of its own. -/
  | header
  /-- The header of a table inside of it. -/
  | implied
  /-- A dotted key. -/
  | dotted
deriving DecidableEq, Repr

/-- A value. -/
inductive Value where
  | text (content : String)
  | integer (n : Int)
  | array (items : List Value)
  /-- A table between braces, which cannot grow. -/
  | inline (members : List (String × Value))
  | table (origin : Origin) (members : List (String × Value))
deriving Inhabited

/-- The members of a table. -/
abbrev Members := List (String × Value)

namespace Members

/-- The members with one of them set. -/
def set (key : String) (value : Value) : Members → Members
  | [] => [(key, value)]
  | (k, v) :: rest => if k = key then (k, value) :: rest else (k, v) :: set key value rest

/-- Changes the members of the table at a path. A table that is not there comes about by `origin`,
and only tables that `mayEnter` admits are entered. -/
def update? (origin : Origin) (mayEnter : Origin → Bool) (change : Members → Option Members) :
    List String → Members → Option Members
  | [], members => change members
  | key :: path, members =>
    match members.lookup key with
    | none => do
      return set key (.table origin (← update? origin mayEnter change path [])) members
    | some (.table existing inner) =>
      if mayEnter existing then do
        return set key (.table existing (← update? origin mayEnter change path inner)) members
      else none
    | some _ => none

/-- Opens the table that a header names. -/
def openTable? (path : List String) (members : Members) : Option Members :=
  match path.getLast? with
  | none => none
  | some key =>
    let change (inner : Members) : Option Members :=
      match inner.lookup key with
      | none => some (set key (.table .header []) inner)
      | some (.table .implied content) => some (set key (.table .header content) inner)
      | some _ => none
    update? .implied (fun _ => true) change path.dropLast members

/-- Gives a value to a dotted key in the table at a path. -/
def put? (table path : List String) (value : Value) (members : Members) : Option Members :=
  match path.getLast? with
  | none => none
  | some key =>
    let add (inner : Members) : Option Members :=
      if (inner.lookup key).isSome then none else some (set key value inner)
    update? .implied (fun _ => true) (update? .dotted (· = .dotted) add path.dropLast) table members

end Members

end CallForest.Toml
