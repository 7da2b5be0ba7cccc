/-!
# Searching and cutting text

Substring search over lists of characters, and the cuts that are phrased by it: what follows the
first occurrence of a pattern, a text without a given beginning or ending, and lines.

## Main definitions

* `Text.after?` — what follows the first occurrence of a pattern;
* `Text.occursIn` — whether a pattern occurs at all;
* `Text.dropStart?`, `Text.dropEnd?` — a text without a required beginning or ending;
* `Text.lines` — the lines of a text, each without its line end.

## Main results

* `Text.occursIn_iff` — a pattern occurs when it is a run of consecutive characters;
* `Text.occursIn_reverse` — it does not matter from which end a text is searched.
-/

namespace CallForest.Text

/-- What is left of `text` when it starts with `pattern`. -/
def dropStart? {α : Type} [BEq α] (pattern text : List α) : Option (List α) :=
  if pattern.isPrefixOf text then some (text.drop pattern.length) else none

/-- What stands before `pattern` when `text` ends with it. -/
def dropEnd? {α : Type} [BEq α] (pattern text : List α) : Option (List α) :=
  if pattern.isSuffixOf text then some (text.take (text.length - pattern.length)) else none

/-- What follows the first occurrence of `pattern`. -/
def after? {α : Type} [BEq α] (pattern : List α) : List α → Option (List α)
  | [] => dropStart? pattern []
  | c :: cs => (dropStart? pattern (c :: cs)).or (after? pattern cs)

/-- Whether a text begins with `pattern`. -/
def beginsWith : (pattern text : List Char) → Bool
  | [], _ => true
  | _ :: _, [] => false
  | p :: pattern, c :: text => p == c && beginsWith pattern text

/-- Whether `pattern` occurs in the text, the empty pattern everywhere. -/
def occursIn (pattern : List Char) : (text : List Char) → Bool
  | [] => pattern.isEmpty
  | c :: cs => beginsWith pattern (c :: cs) || occursIn pattern cs

/-- Every `old` character replaced by `new`. -/
def replaceChar (old new : Char) (s : String) : String :=
  String.ofList (s.toList.map fun c => if c = old then new else c)

/-- The text cut at every line feed, a carriage return before the line feed left out, and no line
for an empty rest after the last line feed. A carriage return anywhere else stays in its line. -/
def lines (s : String) : List String :=
  go [] s.toList
where
  /-- `line` holds the current line, last character first. -/
  go (line : List Char) : List Char → List String
    | [] => if line.isEmpty then [] else [String.ofList line.reverse]
    | '\n' :: cs =>
      let body := match line with
        | '\r' :: before => before
        | whole => whole
      String.ofList body.reverse :: go [] cs
    | c :: cs => go (c :: line) cs

/-! ### Small facts -/

theorem beginsWith_iff {pattern text : List Char} :
    beginsWith pattern text = true ↔ pattern <+: text := by
  induction pattern generalizing text with
  | nil => simp [beginsWith]
  | cons p pattern ih =>
    cases text with
    | nil => simp [beginsWith]
    | cons c text => simp [beginsWith, ih, List.cons_prefix_cons]

theorem occursIn_iff {pattern text : List Char} :
    occursIn pattern text = true ↔ pattern <:+: text := by
  induction text with
  | nil => simp [occursIn]
  | cons c text ih => rw [List.infix_cons_iff, occursIn, Bool.or_eq_true, beginsWith_iff, ih]

theorem occursIn_reverse (pattern text : List Char) :
    occursIn pattern.reverse text.reverse = occursIn pattern text := by
  rw [Bool.eq_iff_iff, occursIn_iff, occursIn_iff, List.reverse_infix]

end CallForest.Text
