import CallForest.Text.Digit

/-!
# Tokens of TOML documents

A document is cut into words, quoted texts, marks and ends of lines. Blanks between them and
comments are dropped.

## Main definitions

* `Toml.Token` — a token;
* `Toml.Quoting` — the four ways to quote a text;
* `Toml.tokens?` — the tokens of a document, if every character in it is allowed in its place.
-/

namespace CallForest.Toml

/-- A token of a document. -/
inductive Token where
  /-- A key without quotes, or a number. -/
  | word (chars : List Char)
  /-- A text quoted on one line. -/
  | text (content : String)
  /-- A text quoted over lines. -/
  | block (content : String)
  | mark (c : Char)
  | newline
deriving DecidableEq, Repr

/-- How a text is quoted: with which quotes, and whether on one line or over lines. Escapes have a
meaning between double quotes. -/
structure Quoting where
  quote : Char
  isBlock : Bool
deriving DecidableEq, Repr

/-- Where in an escape a character stands. -/
inductive Escape where
  /-- In none. -/
  | outside
  /-- After the backslash. -/
  | started
  /-- Before so many more digits of a code with the given value so far. -/
  | code (left value : Nat)
  /-- Between a backslash and the end of its line. -/
  | toLineEnd
  /-- In the blanks and ends of lines that follow a backslash at the end of a line. -/
  | skipping
deriving DecidableEq, Repr

/-- A blank within a line. -/
def isGap (c : Char) : Bool :=
  c = ' ' || c = '\t'

/-- A character of a word. -/
def isWordChar (c : Char) : Bool :=
  c.isAlphanum || c = '_' || c = '-' || c = '+'

/-- A character with a meaning of its own between words. -/
def isMark (c : Char) : Bool :=
  c = '[' || c = ']' || c = '\x7b' || c = '\x7d' || c = '=' || c = ',' || c = '.'

/-- A character that may stand in comments and quoted texts: no control character but the
tabulator. -/
def isAllowed (c : Char) : Bool :=
  c = '\t' || (0x20 ≤ c.toNat && c.toNat ≠ 0x7f)

/-- The character that a letter after a backslash stands for. -/
def shortEscape? : Char → Option Char
  | 'b' => some '\x08'
  | 't' => some '\t'
  | 'n' => some '\n'
  | 'f' => some '\x0c'
  | 'r' => some '\r'
  | '"' => some '"'
  | '\\' => some '\\'
  | _ => none

/-- The tokens with the word before them, whose characters are given last first. -/
def withWord (word : List Char) (tokens : List Token) : List Token :=
  if word.isEmpty then tokens else .word word.reverse :: tokens

/-- The token of a quoted text, whose characters are given last first. -/
def quotedToken (q : Quoting) (read : List Char) : Token :=
  let content := String.ofList read.reverse
  if q.isBlock then .block content else .text content

/-- A text without the end of line at its beginning. -/
def dropNewline : List Char → List Char
  | '\n' :: rest => rest
  | text => text

theorem length_dropNewline_le (text : List Char) : (dropNewline text).length ≤ text.length := by
  unfold dropNewline
  split <;> simp

mutual

/-- The tokens of the rest of a document after the characters of a word, given last first. -/
def scan (word : List Char) : List Char → Option (List Token)
  | [] => some (withWord word [])
  | c :: rest =>
    if isWordChar c then scan (c :: word) rest
    else if isGap c then do return withWord word (← scan [] rest)
    else if c = '\n' then do return withWord word (.newline :: (← scan [] rest))
    else if c = '#' then do return withWord word (← scanComment rest)
    else if c = '"' || c = '\x27' then do
      let isBlock := [c, c].isPrefixOf rest
      let content := if isBlock then dropNewline (rest.drop 2) else rest
      return withWord word (← scanQuoted ⟨c, isBlock⟩ [] .outside content)
    else if isMark c then do return withWord word (.mark c :: (← scan [] rest))
    else none
termination_by text => text.length
decreasing_by
  all_goals try exact Nat.lt_succ_self rest.length
  have hdrop := length_dropNewline_le (rest.drop 2)
  rw [List.length_drop] at hdrop
  rw [List.length_cons]
  split <;> omega

/-- The tokens of the rest of a document from inside a comment. -/
def scanComment : List Char → Option (List Token)
  | [] => some []
  | c :: rest =>
    if c = '\n' then do return .newline :: (← scan [] rest)
    else if isAllowed c then scanComment rest
    else none
termination_by text => text.length
decreasing_by all_goals exact Nat.lt_succ_self rest.length

/-- The tokens of the rest of a document from inside a quoted text, whose characters so far are
given last first. Up to two quotes may stand in a text over lines, also right before its end. -/
def scanQuoted (q : Quoting) (read : List Char) (escape : Escape) :
    List Char → Option (List Token)
  | [] => none
  | c :: rest =>
    match escape with
    | .started =>
      match shortEscape? c with
      | some found => scanQuoted q (found :: read) .outside rest
      | none =>
        if c = 'u' then scanQuoted q read (.code 4 0) rest
        else if c = 'U' then scanQuoted q read (.code 8 0) rest
        else if q.isBlock && isGap c then scanQuoted q read .toLineEnd rest
        else if q.isBlock && c = '\n' then scanQuoted q read .skipping rest
        else none
    | .code left value =>
      match Text.digitValue? c with
      | none => none
      | some digit =>
        if left ≤ 1 then
          match Text.charOf? (value * 16 + digit) with
          | some found => scanQuoted q (found :: read) .outside rest
          | none => none
        else scanQuoted q read (.code (left - 1) (value * 16 + digit)) rest
    | .toLineEnd =>
      if isGap c then scanQuoted q read .toLineEnd rest
      else if c = '\n' then scanQuoted q read .skipping rest
      else none
    | .outside | .skipping =>
      if escape = .skipping && (isGap c || c = '\n') then scanQuoted q read .skipping rest
      else if c = q.quote then
        if q.isBlock then
          let more := min 4 (rest.takeWhile (· = q.quote)).length
          if more < 2 then scanQuoted q (c :: read) .outside rest
          else do
            let content := List.replicate (more - 2) c ++ read
            return quotedToken q content :: (← scan [] (rest.drop more))
        else do return quotedToken q read :: (← scan [] rest)
      else if c = '\\' && q.quote = '"' then scanQuoted q read .started rest
      else if isAllowed c || (q.isBlock && c = '\n') then scanQuoted q (c :: read) .outside rest
      else none
termination_by text => text.length
decreasing_by
  all_goals try exact Nat.lt_succ_self rest.length
  rw [List.length_drop, List.length_cons]
  omega

end

/-- The text with every end of line written as a single character. -/
def unifyLineEnds : List Char → List Char
  | '\r' :: '\n' :: rest => '\n' :: unifyLineEnds rest
  | c :: rest => c :: unifyLineEnds rest
  | [] => []

/-- The tokens of a document. A mark of byte order may stand before it. -/
def tokens? (document : String) : Option (List Token) :=
  match document.toList with
  | '\ufeff' :: rest => scan [] (unifyLineEnds rest)
  | text => scan [] (unifyLineEnds text)

end CallForest.Toml
