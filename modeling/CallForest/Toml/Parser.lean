import CallForest.Toml.Table
import CallForest.Toml.Token

/-!
# Reading TOML documents

A document is a list of lines. A line is blank, opens a table, or gives a value to a key.

## Main definitions

* `Toml.integer?` — the number that a word writes;
* `Toml.parse?` — the members of the table that a document describes.
-/

namespace CallForest.Toml

/-! ### Numbers -/

/-- The number that digits of a base write. Single underscores may stand between digits. -/
def digits? (base : Nat) : (value : Nat) → (mayPause : Bool) → List Char → Option Nat
  | value, mayPause, [] => if mayPause then some value else none
  | value, mayPause, c :: rest =>
    if c = '_' then if mayPause then digits? base value false rest else none
    else
      match Text.digitValue? c with
      | some d => if d < base then digits? base (value * base + d) true rest else none
      | none => none

/-- The number that decimal digits write, without zeros at the beginning. -/
def decimal? : List Char → Option Nat
  | ['0'] => some 0
  | '0' :: _ => none
  | chars => digits? 10 0 false chars

/-- The number that a word writes, if it fits into 64 bits. -/
def integer? (word : List Char) : Option Int := do
  let n : Int ← match word with
    | '0' :: 'x' :: rest => (digits? 16 0 false rest).map Int.ofNat
    | '0' :: 'o' :: rest => (digits? 8 0 false rest).map Int.ofNat
    | '0' :: 'b' :: rest => (digits? 2 0 false rest).map Int.ofNat
    | '-' :: rest => (decimal? rest).map fun n => -Int.ofNat n
    | '+' :: rest => (decimal? rest).map Int.ofNat
    | _ => (decimal? word).map Int.ofNat
  if Int64.minValue.toInt ≤ n ∧ n ≤ Int64.maxValue.toInt then some n else none

/-! ### Keys -/

/-- One part of a key. -/
def keyPart? : Token → Option String
  | .word chars => if chars.contains '+' then none else some (String.ofList chars)
  | .text content => some content
  | _ => none

/-- A dotted key, and the tokens after it. -/
def key? : List Token → Option (List String × List Token)
  | part :: .mark '.' :: rest => do
    let (path, rest) ← key? rest
    return ((← keyPart? part) :: path, rest)
  | part :: rest => do return ([← keyPart? part], rest)
  | [] => none

/-! ### Values -/

/-- The tokens without ends of lines at the beginning. -/
def dropNewlines : List Token → List Token
  | .newline :: rest => dropNewlines rest
  | tokens => tokens

mutual

/-- A value that nests at most `depth` deep, and the tokens after it. -/
def value? : (depth : Nat) → List Token → Option (Value × List Token)
  | 0, _ => none
  | depth + 1, tokens =>
    match tokens with
    | .word chars :: rest => do return (.integer (← integer? chars), rest)
    | .text content :: rest | .block content :: rest => some (.text content, rest)
    | .mark '[' :: rest => do
      let (items, rest) ← items? depth rest
      return (.array items, rest)
    | .mark '\x7b' :: .mark '\x7d' :: rest => some (.inline [], rest)
    | .mark '\x7b' :: rest => do
      let (members, rest) ← members? depth [] rest
      return (.inline members, rest)
    | _ => none

/-- The items of an array up to its end. -/
def items? : (depth : Nat) → List Token → Option (List Value × List Token)
  | 0, _ => none
  | depth + 1, tokens =>
    match dropNewlines tokens with
    | .mark ']' :: rest => some ([], rest)
    | tokens => do
      let (item, rest) ← value? depth tokens
      match dropNewlines rest with
      | .mark ',' :: rest => do
        let (items, rest) ← items? depth rest
        return (item :: items, rest)
      | .mark ']' :: rest => some ([item], rest)
      | _ => none

/-- The members of a table between braces up to its end, after those already read. -/
def members? : (depth : Nat) → Members → List Token → Option (Members × List Token)
  | 0, _, _ => none
  | depth + 1, read, tokens => do
    let (path, rest) ← key? tokens
    match rest with
    | .mark '=' :: rest =>
      let (value, rest) ← value? depth rest
      let read ← read.put? [] path value
      match rest with
      | .mark ',' :: rest => members? depth read rest
      | .mark '\x7d' :: rest => some (read, rest)
      | _ => none
    | _ => none

end

/-! ### Lines -/

/-- The tokens after the end of a line. -/
def lineEnd? : List Token → Option (List Token)
  | [] => some []
  | .newline :: rest => some rest
  | _ => none

/-- Reads up to `count` lines below the header `table` into the members. -/
def lines? : (count : Nat) → (table : List String) → Members → List Token → Option Members
  | 0, _, members, tokens => if tokens.isEmpty then some members else none
  | count + 1, table, members, tokens =>
    match tokens with
    | [] => some members
    | .newline :: rest => lines? count table members rest
    | .mark '[' :: rest => do
      let (path, rest) ← key? rest
      match rest with
      | .mark ']' :: rest =>
        lines? count path (← members.openTable? path) (← lineEnd? rest)
      | _ => none
    | tokens => do
      let (path, rest) ← key? tokens
      match rest with
      | .mark '=' :: rest =>
        let (value, rest) ← value? (2 * tokens.length) rest
        lines? count table (← members.put? table path value) (← lineEnd? rest)
      | _ => none

/-- The members of the table that a document describes. -/
def parse? (document : String) : Option Members := do
  let tokens ← tokens? document
  lines? tokens.length [] [] tokens

end CallForest.Toml
