/-!
# Blank characters and trimming

A character is blank when Unicode gives it the `White_Space` property. Trimming removes blank
characters from the ends of a text and leaves the inside alone.

## Main definitions

* `Text.isBlank` — the property, as a test on code points;
* `Text.dropEndWhile` — removes the longest final run that satisfies a test;
* `Text.trim` — removes blank characters from both ends.

## Main results

* `Text.dropEndWhile_append` — only the final run is removed, nothing else is lost.
-/

namespace CallForest.Text

/-- A character with the Unicode property `White_Space`. -/
def isBlank (c : Char) : Bool :=
  let n := c.toNat
  (9 ≤ n && n ≤ 13) || n == 0x20 || n == 0x85 || n == 0xa0 || n == 0x1680 ||
    (0x2000 ≤ n && n ≤ 0x200a) || n == 0x2028 || n == 0x2029 || n == 0x202f || n == 0x205f ||
    n == 0x3000

/-- The list without its longest final run of members that satisfy `p`. -/
def dropEndWhile {α : Type} (p : α → Bool) (xs : List α) : List α :=
  (xs.reverse.dropWhile p).reverse

/-- The text without the blank characters at either end. -/
def trim (s : String) : String :=
  String.ofList (dropEndWhile isBlank (s.toList.dropWhile isBlank))

/-- A text with nothing but blank characters in it. -/
def isBlankText (s : String) : Bool :=
  s.toList.all isBlank

theorem dropEndWhile_append {α : Type} (p : α → Bool) (xs : List α) :
    dropEndWhile p xs ++ (xs.reverse.takeWhile p).reverse = xs := by
  rw [dropEndWhile, ← List.reverse_append, List.takeWhile_append_dropWhile, List.reverse_reverse]

end CallForest.Text
