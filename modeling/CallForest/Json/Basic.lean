/-!
# JSON values

A JSON text as a tree. Objects keep their members in the order of the text, repetitions included,
so that a reader can tell a repeated key from a single one.

## Main definitions

* `Json` — a JSON value;
* `Json.strings` — a list of texts as an array.
-/

namespace CallForest

/-- A JSON value. A number keeps its literal. -/
inductive Json where
  | null
  | bool (value : Bool)
  | number (literal : String)
  | string (text : String)
  /-- A well-formed value with a string in it that is no text, because an escape names half of a
  surrogate pair: it can be passed over but not read. -/
  | unreadable
  | array (items : List Json)
  | object (members : List (String × Json))
deriving Inhabited

/-- A list of texts as an array of strings. -/
def Json.strings (texts : List String) : Json :=
  .array (texts.map .string)

end CallForest
