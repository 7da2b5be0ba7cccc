import CallForest.Text.Blank

/-!
# Markup tokens

A document is cut into runs of text and tags. What is neither, that is comments, instructions,
character data and the document type, is passed over but has to be closed. The text is read one
character at a time, and `Place` says what surrounds the next one.

## Main definitions

* `Markup.Token` — a run of text, a tag, something passed over, or the place where the document
  breaks off;
* `Markup.Place` — what surrounds a character;
* `Markup.scan` — the tokens from a place on;
* `Markup.tokens` — the tokens of a document.
-/

namespace CallForest.Markup

/-- A token of a document. -/
inductive Token where
  | text (raw : List Char)
  | opening (name : List Char)
  | closing (name : List Char)
  /-- A tag that opens and closes an element. -/
  | single (name : List Char)
  | skipped
  /-- Markup that is not closed or has no proper form; it ends the document. -/
  | broken
deriving DecidableEq, Repr

/-- What surrounds a character. The characters that belong to it so far are given last first. -/
inductive Place where
  | text (read : List Char)
  /-- Inside a tag and, if so, between quotes. -/
  | tag (read : List Char) (quote : Option Char)
  | instruction (read : List Char)
  /-- After the exclamation mark of a declaration. -/
  | declaration
  | comment (read : List Char)
  | characterData (read : List Char)
  /-- Inside a document type with so many open brackets in it. -/
  | documentType (read : List Char) (depth : Nat)
deriving DecidableEq, Repr

/-- Whether a character separates the parts of a tag. -/
def isGap (c : Char) : Bool :=
  c = ' ' || c = '\t' || c = '\r' || c = '\n'

/-- Whether a text begins with a word of capital letters, in either case. -/
def beginsWith : (word text : List Char) → Bool
  | [], _ => true
  | _ :: _, [] => false
  | w :: word, c :: text => c.toUpper = w && beginsWith word text

/-- A run of text, unless it is empty. -/
def textToken (read : List Char) : List Token :=
  if read.isEmpty then [] else [.text read.reverse]

/-- The name in a closing tag: what follows the slash, without gaps at the end unless there is
nothing else. -/
def closingName (content : List Char) : List Char :=
  let trimmed := Text.dropEndWhile isGap content
  if trimmed.isEmpty then content else trimmed

/-- The token of a tag with the given content. -/
def tagToken (content : List Char) : Token :=
  match content with
  | '/' :: rest => .closing (closingName rest)
  | _ =>
    if content.getLast? = some '/' then .single (content.dropLast.takeWhile fun c => !isGap c)
    else .opening (content.takeWhile fun c => !isGap c)

/-- Something passed over if it has the proper form. -/
def skippedIf (proper : Bool) (rest : List Token) : List Token :=
  if proper then .skipped :: rest else [.broken]

/-- The quote that is open after one more character. -/
def quoteAfter (quote : Option Char) (c : Char) : Option Char :=
  match quote with
  | some q => if c = q then none else some q
  | none => if c = '"' || c = '\x27' then some c else none

/-- The tokens of the rest of a document. -/
def scan : Place → List Char → List Token
  | .text read, [] => textToken read
  | _, [] => [.broken]
  | .text read, c :: rest =>
    if c = '<' then textToken read ++ scan (.tag [] none) rest
    else scan (.text (c :: read)) rest
  | .tag read quote, c :: rest =>
    if read.isEmpty && c = '!' then scan .declaration rest
    else if read.isEmpty && c = '?' then scan (.instruction []) rest
    else if quote.isNone && c = '>' then tagToken read.reverse :: scan (.text []) rest
    else scan (.tag (c :: read) (quoteAfter quote c)) rest
  | .instruction read, c :: rest =>
    match read, c with
    | [], '>' => [.broken]
    | '?' :: _, '>' => .skipped :: scan (.text []) rest
    | _, _ => scan (.instruction (c :: read)) rest
  | .declaration, c :: rest =>
    if c = '[' then scan (.characterData [c]) rest
    else if c = '-' then scan (.comment [c]) rest
    else if c = 'D' || c = 'd' then scan (.documentType [c] 0) rest
    else [.broken]
  | .comment read, c :: rest =>
    if c = '>' && ['-', '-'].isPrefixOf read && 4 ≤ read.length then
      skippedIf (['-', '-'].isPrefixOf read.reverse) (scan (.text []) rest)
    else scan (.comment (c :: read)) rest
  | .characterData read, c :: rest =>
    if c = '>' && [']', ']'].isPrefixOf read then
      skippedIf ("[CDATA[".toList.isPrefixOf read.reverse) (scan (.text []) rest)
    else scan (.characterData (c :: read)) rest
  | .documentType read depth, c :: rest =>
    if c = '>' && depth = 0 then
      let content := read.reverse
      skippedIf (beginsWith "DOCTYPE".toList content && (content.drop 7).any fun c => !isGap c)
        (scan (.text []) rest)
    else
      let inner := if c = '<' then depth + 1 else if c = '>' then depth - 1 else depth
      scan (.documentType (c :: read) inner) rest

/-- The mark of byte order that may stand before a document. -/
def byteOrderMark : Char := '\ufeff'

/-- The tokens of a document. -/
def tokens (document : String) : List Token :=
  match document.toList with
  | c :: rest => scan (.text []) (if c = byteOrderMark then rest else c :: rest)
  | [] => []

end CallForest.Markup
