/-!
# Method descriptors and signatures

A method descriptor such as `(ILjava/lang/String;[[J)V` lists the parameter types between
parentheses and the return type after them. A method is identified by its owner, its name and the
part of its descriptor up to the closing parenthesis, so that the return type does not count.

Parameter types are cut off one character at a time: a run of `[` followed by one character, or by
`L` and everything up to the next `;`. A descriptor is not checked against the grammar. Whatever
is left at the end is the last piece, and only a non-ASCII character in the place of a type letter
makes the cut impossible.

## Main definitions

* `Descriptor.identifying` — the part of a descriptor that counts for identity;
* `Descriptor.inner` — the text between the parentheses;
* `Descriptor.parameters?` — the parameter types;
* `methodSignature` — the identity of a method.
-/

namespace CallForest

namespace Descriptor

/-- The characters up to and including the first closing parenthesis, when there is an opening one
at the start, and else all of them. -/
def identifyingChars (cs : List Char) : List Char :=
  if cs.head? = some '(' ∧ ')' ∈ cs then cs.takeWhile (· ≠ ')') ++ [')'] else cs

/-- The part of a descriptor that counts for identity. -/
def identifying (descriptor : String) : String :=
  String.ofList (identifyingChars descriptor.toList)

/-- The characters between the parentheses, none when they are not both there. -/
def inner : List Char → List Char
  | '(' :: rest => if ')' ∈ rest then rest.takeWhile (· ≠ ')') else []
  | _ => []

/-- Cuts a text into parameter types. `piece` is the current type so far, last character first,
and `named` says that it is a class name that goes on to the next `;`. -/
def pieces? (piece : List Char) (named : Bool) : List Char → Option (List (List Char))
  | [] => some (if piece.isEmpty then [] else [piece.reverse])
  | c :: cs =>
    if named then
      if c = ';' then (pieces? [] false cs).map ((c :: piece).reverse :: ·)
      else pieces? (c :: piece) true cs
    else if c = '[' then pieces? (c :: piece) false cs
    else if c = 'L' then pieces? (c :: piece) true cs
    else if c.toNat < 0x80 then (pieces? [] false cs).map ((c :: piece).reverse :: ·)
    else none

/-- The parameter types of a descriptor, and nothing when a non-ASCII character stands where a
type letter should. -/
def parameters? (descriptor : String) : Option (List String) :=
  (pieces? [] false (inner descriptor.toList)).map (·.map String.ofList)

/-- The number of variables that parameters of the given types take: two for `J` and `D`. -/
def slots (parameters : List String) : Nat :=
  parameters.foldl (fun n p => n + if p = "J" ∨ p = "D" then 2 else 1) 0

end Descriptor

/-- The identity of a method: owner, name and the counting part of the descriptor. -/
def methodSignature (owner name descriptor : String) : String :=
  owner ++ "#" ++ name ++ Descriptor.identifying descriptor

end CallForest
