import CallForest.Json.Basic

/-!
# Writing JSON

Two forms of the same value: the compact form has no blank space, the indented form has one item
or member per line and two spaces per level. In a string the quote, the backslash and the control
characters below U+0020 are escaped, and every other character stands for itself.

## Main definitions

* `Json.quoted` — a text as a JSON string;
* `Json.compact` — the form without blank space;
* `Json.pretty` — the indented form.
-/

namespace CallForest.Json

/-- The form of one character in a JSON string. -/
def escapeChar (c : Char) : List Char :=
  if c = '"' then ['\\', '"']
  else if c = '\\' then ['\\', '\\']
  else if c = '\n' then ['\\', 'n']
  else if c = '\r' then ['\\', 'r']
  else if c = '\t' then ['\\', 't']
  else if c.toNat = 8 then ['\\', 'b']
  else if c.toNat = 12 then ['\\', 'f']
  else if c.toNat < 0x20 then
    ['\\', 'u', '0', '0', Nat.digitChar (c.toNat / 16), Nat.digitChar (c.toNat % 16)]
  else [c]

/-- A text between quotes, with the escapes it needs. -/
def quoted (text : String) : List Char :=
  '"' :: (text.toList.flatMap escapeChar ++ ['"'])

/-! ### The compact form -/

mutual

/-- The characters of the compact form. -/
def compactChars : Json → List Char
  | .null | .unreadable => "null".toList
  | .bool b => (if b then "true" else "false").toList
  | .number literal => literal.toList
  | .string text => quoted text
  | .array items => '[' :: (compactItems items ++ [']'])
  | .object members => '\x7b' :: (compactMembers members ++ ['\x7d'])

/-- The items of an array, separated by commas. -/
def compactItems : List Json → List Char
  | [] => []
  | [item] => compactChars item
  | item :: rest => compactChars item ++ ',' :: compactItems rest

/-- The members of an object, separated by commas. -/
def compactMembers : List (String × Json) → List Char
  | [] => []
  | [(key, value)] => quoted key ++ ':' :: compactChars value
  | (key, value) :: rest => quoted key ++ ':' :: (compactChars value ++ ',' :: compactMembers rest)

end

/-- The text without blank space. -/
def compact (json : Json) : String :=
  String.ofList json.compactChars

theorem compactItems_cons_cons (first second : Json) (rest : List Json) :
    compactItems (first :: second :: rest) =
      first.compactChars ++ ',' :: compactItems (second :: rest) := by
  rw [compactItems]
  simp

theorem compactItems_append_singleton (items : List Json) (item : Json) (h : items ≠ []) :
    compactItems (items ++ [item]) =
      compactItems items ++ ',' :: item.compactChars := by
  induction items with
  | nil => exact absurd rfl h
  | cons first rest ih =>
    cases rest with
    | nil => simp [compactItems]
    | cons second rest =>
      have tail := ih (by simp)
      rw [List.cons_append] at tail
      simp only [List.cons_append, compactItems_cons_cons, tail, List.append_assoc]

/-! ### The indented form

The form of a value is written in front of what comes after it, so that a deep value takes no longer
than its text is long. -/

/-- A new line that starts at the given level. -/
def newLine (level : Nat) (after : List Char) : List Char :=
  '\n' :: (List.replicate (2 * level) ' ' ++ after)

mutual

/-- The characters of the indented form of a value that stands at the given level. -/
def prettyChars (level : Nat) : Json → (after : List Char) → List Char
  | .null, after | .unreadable, after => "null".toList ++ after
  | .bool b, after => (if b then "true" else "false").toList ++ after
  | .number literal, after => literal.toList ++ after
  | .string text, after => quoted text ++ after
  | .array [], after => '[' :: ']' :: after
  | .array items, after => '[' :: prettyItems (level + 1) items (newLine level (']' :: after))
  | .object [], after => '\x7b' :: '\x7d' :: after
  | .object members, after =>
    '\x7b' :: prettyMembers (level + 1) members (newLine level ('\x7d' :: after))

/-- The items of an array, each on a line of its own. -/
def prettyItems (level : Nat) : List Json → (after : List Char) → List Char
  | [], after => after
  | [item], after => newLine level (prettyChars level item after)
  | item :: rest, after =>
    newLine level (prettyChars level item (',' :: prettyItems level rest after))

/-- The members of an object, each on a line of its own. -/
def prettyMembers (level : Nat) : List (String × Json) → (after : List Char) → List Char
  | [], after => after
  | [(key, value)], after =>
    newLine level (quoted key ++ ':' :: ' ' :: prettyChars level value after)
  | (key, value) :: rest, after =>
    newLine level (quoted key ++
      ':' :: ' ' :: prettyChars level value (',' :: prettyMembers level rest after))

end

theorem prettyItems_cons_cons (level : Nat) (first second : Json) (rest : List Json)
    (after : List Char) :
    prettyItems level (first :: second :: rest) after =
      newLine level
        (prettyChars level first (',' :: prettyItems level (second :: rest) after)) := by
  rw [prettyItems]
  simp

theorem prettyMembers_cons_cons (level : Nat) (key : String) (value : Json)
    (next : String × Json) (rest : List (String × Json)) (after : List Char) :
    prettyMembers level ((key, value) :: next :: rest) after =
      newLine level (quoted key ++ ':' :: ' ' ::
        prettyChars level value (',' :: prettyMembers level (next :: rest) after)) := by
  rw [prettyMembers]
  simp

/-- The text with one item or member per line. -/
def pretty (json : Json) : String :=
  String.ofList (json.prettyChars 0 [])

end CallForest.Json
