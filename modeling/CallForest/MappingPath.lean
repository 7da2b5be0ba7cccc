import CallForest.Text.Blank

/-!
# Request paths

A request path is made of the path of a class and the path of a method. They are joined by exactly
one `/`, whatever blanks and separators stand at the seam, and the result starts with `/` unless
there is nothing to join.

## Main definitions

* `MappingPath.join` — the request path of a method in a class.
-/

namespace CallForest.MappingPath

/-- The path of a class as it stands before the seam: trimmed, without final separators. -/
def head (base : String) : List Char :=
  Text.dropEndWhile (· = '/') (Text.trim base).toList

/-- The path of a method as it stands after the seam: trimmed, without initial separators. -/
def tail (path : String) : List Char :=
  (Text.trim path).toList.dropWhile (· = '/')

/-- A path with the separator that it has to start with. -/
def rooted (cs : List Char) : List Char :=
  if cs.head? = some '/' then cs else '/' :: cs

/-- The request path of a method in a class. When both parts come down to nothing it is a single
separator if either had one, and else empty. -/
def join (base path : String) : String :=
  let before := head base
  let after := tail path
  if before.isEmpty && after.isEmpty then
    if '/' ∈ base.toList ∨ '/' ∈ path.toList then "/" else ""
  else if before.isEmpty then String.ofList (rooted after)
  else if after.isEmpty then String.ofList (rooted before)
  else String.ofList (rooted (before ++ '/' :: after))

end CallForest.MappingPath
