import CallForest.Text.Digit

/-!
# Character references

In a run of text a character may be given by its name or number, between an ampersand and a
semicolon.

## Main definitions

* `Markup.reference?` — the character of a name or number;
* `Markup.resolve?` — a text with its references replaced.
-/

namespace CallForest.Markup

/-- The character with a code other than zero. -/
def characterOf? (code : Nat) : Option Char :=
  if code = 0 then none else Text.charOf? code

/-- The character that a name or number stands for. -/
def reference? : List Char → Option Char
  | '#' :: 'x' :: digits => do characterOf? (← Text.number? 16 digits)
  | '#' :: digits => do characterOf? (← Text.number? 10 digits)
  | ['l', 't'] => some '<'
  | ['g', 't'] => some '>'
  | ['a', 'm', 'p'] => some '&'
  | ['a', 'p', 'o', 's'] => some '\x27'
  | ['q', 'u', 'o', 't'] => some '"'
  | _ => none

/-- The rest of a text with its references replaced. Inside of a reference, the characters of its
name so far are given last first. -/
def resolveFrom : (name : Option (List Char)) → List Char → Option (List Char)
  | none, [] => some []
  | some _, [] => none
  | none, c :: rest =>
    if c = '&' then resolveFrom (some []) rest
    else do return c :: (← resolveFrom none rest)
  | some name, c :: rest =>
    if c = ';' then do
      let found ← reference? name.reverse
      return found :: (← resolveFrom none rest)
    else if c = '&' then none
    else resolveFrom (some (c :: name)) rest

/-- A text with its references replaced. -/
def resolve? (text : List Char) : Option (List Char) :=
  resolveFrom none text

end CallForest.Markup
