import CallForest.Proofs.Json.Quoting

/-!
# Reading JSON undoes writing it

The indented form of a value is read back as the value, wherever it stands and whatever follows it.
Between the brackets there are only line breaks and spaces, which the reader passes over. The reader
carries fuel, of which the number of characters is always enough.

Numbers are left out. Where the literal of a number ends depends on what follows it, while every
other value shows by itself where it ends.

## Main definitions

* `Json.Legible` — a value without numbers in which every string is text;
* `Json.weight` — the fuel that reading a value takes.

## Main results

* `Json.weight_le` — there is a character for every unit of fuel;
* `Json.readValue?_prettyChars` — a value is read back from its indented form;
* `Json.parse?_pretty` — so is a whole text.
-/

namespace CallForest.Json

/-! ### Blank space and keys -/

theorem dropWhile_newLine (level : Nat) (rest : List Char) :
    (newLine level rest).dropWhile isSpace = rest.dropWhile isSpace := by
  have hline : isSpace '\n' = true := by decide
  have hspaces (n : Nat) :
      (List.replicate n ' ' ++ rest).dropWhile isSpace = rest.dropWhile isSpace := by
    induction n with
    | zero => rfl
    | succ n ih =>
      rw [List.replicate_succ, List.cons_append, List.dropWhile_cons_of_pos (by decide), ih]
  rw [newLine, List.dropWhile_cons_of_pos hline, hspaces]

theorem readKey?_quoted (level : Nat) (key : String) (rest : List Char) :
    readKey? (newLine level (quoted key ++ ':' :: rest)) = some (some key, rest) := by
  rw [readKey?, dropWhile_newLine, quoted_append, List.dropWhile_cons_of_neg (by decide)]
  simp only [codes?_form]
  simp [isSpace, textOf?_toNat]

/-! ### Values -/

mutual

/-- The value has no numbers, and every string in it is text. -/
def Legible : Json → Prop
  | .null | .bool _ | .string _ => True
  | .number _ | .unreadable => False
  | .array items => AllLegible items
  | .object members => MembersLegible members

/-- All values are legible. -/
def AllLegible : List Json → Prop
  | [] => True
  | item :: rest => Legible item ∧ AllLegible rest

/-- The values of all members are legible. -/
def MembersLegible : List (String × Json) → Prop
  | [] => True
  | (_, value) :: rest => Legible value ∧ MembersLegible rest

end

mutual

/-- The fuel that reading a value takes: one unit for the value and one for each item or member. -/
def weight : Json → Nat
  | .array items => 1 + itemsWeight items
  | .object members => 1 + membersWeight members
  | _ => 1

/-- The fuel that reading items takes. -/
def itemsWeight : List Json → Nat
  | [] => 0
  | item :: rest => 1 + weight item + itemsWeight rest

/-- The fuel that reading members takes. -/
def membersWeight : List (String × Json) → Nat
  | [] => 0
  | (_, value) :: rest => 1 + weight value + membersWeight rest

end

theorem weight_pos (json : Json) : 0 < json.weight := by
  cases json <;> simp only [weight] <;> omega

mutual

/-- Every unit of fuel is a character of the text. -/
theorem weight_le (level : Nat) : ∀ (json : Json) (after : List Char), json.Legible →
    json.weight + after.length ≤ (json.prettyChars level after).length
  | .null, after, _ | .bool true, after, _ | .bool false, after, _ => by
    simp [weight, prettyChars]
    omega
  | .string text, after, _ => by
    simp [weight, prettyChars, quoted]
    omega
  | .array [], after, _ | .object [], after, _ => by
    simp [weight, itemsWeight, membersWeight, prettyChars]
    omega
  | .array (item :: rest), after, h => by
    have hitems := itemsWeight_le (level + 1) (item :: rest) (newLine level (']' :: after)) h
    simp [weight, prettyChars, newLine] at hitems ⊢
    omega
  | .object (member :: rest), after, h => by
    have hmembers := membersWeight_le (level + 1) (member :: rest)
      (newLine level ('\x7d' :: after)) h
    simp [weight, prettyChars, newLine] at hmembers ⊢
    omega

/-- The same for the items of a list. -/
theorem itemsWeight_le (level : Nat) : ∀ (items : List Json) (after : List Char),
    AllLegible items → itemsWeight items + after.length ≤ (prettyItems level items after).length
  | [], after, _ => by simp [itemsWeight, prettyItems]
  | [item], after, h => by
    have hitem := weight_le level item after h.1
    simp [itemsWeight, prettyItems, newLine]
    omega
  | item :: next :: rest, after, h => by
    have hrest := itemsWeight_le level (next :: rest) after h.2
    have hitem := weight_le level item (',' :: prettyItems level (next :: rest) after) h.1
    rw [itemsWeight, prettyItems_cons_cons]
    simp [newLine] at hitem ⊢
    omega

/-- The same for the members of an object. -/
theorem membersWeight_le (level : Nat) : ∀ (members : List (String × Json)) (after : List Char),
    MembersLegible members →
      membersWeight members + after.length ≤ (prettyMembers level members after).length
  | [], after, _ => by simp [membersWeight, prettyMembers]
  | [(key, value)], after, h => by
    have hvalue := weight_le level value after h.1
    simp [membersWeight, prettyMembers, newLine]
    omega
  | (key, value) :: next :: rest, after, h => by
    have hrest := membersWeight_le level (next :: rest) after h.2
    have hvalue := weight_le level value (',' :: prettyMembers level (next :: rest) after) h.1
    rw [membersWeight, prettyMembers_cons_cons]
    simp [newLine] at hvalue ⊢
    omega

end

/-! ### Reading values -/

section Reading

variable {fuel level : Nat} {cs rest : List Char}

/-- Blank space in front of a value does not matter. -/
theorem readValue?_congr {cs' : List Char} (h : cs.dropWhile isSpace = cs'.dropWhile isSpace) :
    readValue? fuel cs = readValue? fuel cs' := by
  cases fuel with
  | zero => rfl
  | succ fuel => rw [readValue?, readValue?, h]

/-- No value starts with a closing bracket. -/
theorem readValue?_closing (h : cs.dropWhile isSpace = ']' :: rest) :
    readValue? fuel cs = none := by
  cases fuel with
  | zero => rfl
  | succ fuel =>
    rw [readValue?, h]
    simp [numberLiteral?, wholePart?, digits?]

/-- No item starts with a closing bracket. -/
theorem readItems?_closing (h : cs.dropWhile isSpace = ']' :: rest) :
    readItems? fuel cs = none := by
  cases fuel with
  | zero => rfl
  | succ fuel => rw [readItems?, readValue?_closing h]; rfl

/-- No member starts with a closing brace. -/
theorem readMembers?_closing (h : cs.dropWhile isSpace = '\x7d' :: rest) :
    readMembers? fuel cs = none := by
  cases fuel with
  | zero => rfl
  | succ fuel => rw [readMembers?, readKey?, h]; rfl

theorem readValue?_array {items : List Json} (h : readItems? fuel cs = some (items, rest)) :
    readValue? (fuel + 1) ('[' :: cs) = some (.array items, rest) := by
  rw [readValue?, List.dropWhile_cons_of_neg (by decide)]
  simp only [h]
  split
  · rename_i hclosing
    rw [readItems?_closing hclosing] at h
    cases h
  · rfl

/-- Members whose keys are all text are those of an object. -/
theorem ofMembers_eq (members : List (String × Json)) :
    ofMembers (members.map fun m => (some m.1, m.2)) = .object members := by
  have hkeys {f : Option String × Json → Option (String × Json)}
      (hf : ∀ m : String × Json, f (some m.1, m.2) = some m) :
      (members.map fun m => (some m.1, m.2)).mapM f = some members := by
    induction members with
    | nil => rfl
    | cons member rest ih => simp [hf, ih]
  rw [ofMembers, hkeys fun _ => rfl]

theorem readValue?_object {members : List (String × Json)}
    (h : readMembers? fuel cs = some (members.map fun m => (some m.1, m.2), rest)) :
    readValue? (fuel + 1) ('\x7b' :: cs) = some (.object members, rest) := by
  rw [readValue?, List.dropWhile_cons_of_neg (by decide)]
  simp only [h]
  split
  · rename_i hclosing
    rw [readMembers?_closing hclosing] at h
    cases h
  · rw [Option.map_some, ofMembers_eq]

end Reading

mutual

/-- A value is read back from its indented form. -/
theorem readValue?_prettyChars (level : Nat) : ∀ (json : Json) (after : List Char) (fuel : Nat),
    json.Legible → json.weight ≤ fuel + 1 →
      readValue? (fuel + 1) (json.prettyChars level after) = some (json, after)
  | .null, after, fuel, _, _ | .bool true, after, fuel, _, _ | .bool false, after, fuel, _, _
  | .array [], after, fuel, _, _ | .object [], after, fuel, _, _ => by
    simp [prettyChars, readValue?, isSpace]
  | .string text, after, fuel, _, _ => by
    rw [prettyChars, quoted_append, readValue?, List.dropWhile_cons_of_neg (by decide)]
    simp [codes?_form, textOf?_toNat]
  | .array (item :: rest), after, fuel, h, hfuel => by
    rw [weight, Nat.add_comm, Nat.add_le_add_iff_right] at hfuel
    have hne := List.cons_ne_nil item rest
    rw [prettyChars]
    · exact readValue?_array (readItems?_prettyItems _ level _ after fuel hne h hfuel)
    · exact hne
  | .object (member :: rest), after, fuel, h, hfuel => by
    rw [weight, Nat.add_comm, Nat.add_le_add_iff_right] at hfuel
    have hne := List.cons_ne_nil member rest
    rw [prettyChars]
    · exact readValue?_object (readMembers?_prettyMembers _ level _ after fuel hne h hfuel)
    · exact hne

/-- Items are read back up to the closing bracket. -/
theorem readItems?_prettyItems (level outer : Nat) : ∀ (items : List Json) (after : List Char)
    (fuel : Nat), items ≠ [] → AllLegible items → itemsWeight items ≤ fuel →
      readItems? fuel (prettyItems level items (newLine outer (']' :: after))) =
        some (items, after)
  | [], _, _, hne, _, _ => absurd rfl hne
  | item :: rest, after, fuel, _, h, hfuel => by
    have hpos := weight_pos item
    rw [itemsWeight] at hfuel
    -- One unit of fuel is for the item and one at least for the value.
    obtain ⟨fuel, rfl⟩ : ∃ k, fuel = k + 2 := ⟨fuel - 2, by omega⟩
    have hitem (after : List Char) :=
      readValue?_prettyChars level item after fuel h.1 (by omega)
    have hrest := readItems?_prettyItems level outer rest after (fuel + 1)
    cases rest with
    | nil =>
      rw [prettyItems, readItems?, readValue?_congr (dropWhile_newLine level _), hitem]
      simp [dropWhile_newLine, isSpace]
    | cons next rest =>
      have hread := hrest (List.cons_ne_nil next rest) h.2 (by omega)
      rw [prettyItems_cons_cons, readItems?, readValue?_congr (dropWhile_newLine level _), hitem]
      simp [isSpace, hread]

/-- Members are read back up to the closing brace. -/
theorem readMembers?_prettyMembers (level outer : Nat) : ∀ (members : List (String × Json))
    (after : List Char) (fuel : Nat), members ≠ [] → MembersLegible members →
      membersWeight members ≤ fuel →
      readMembers? fuel (prettyMembers level members (newLine outer ('\x7d' :: after))) =
        some (members.map fun m => (some m.1, m.2), after)
  | [], _, _, hne, _, _ => absurd rfl hne
  | (key, value) :: rest, after, fuel, _, h, hfuel => by
    have hpos := weight_pos value
    rw [membersWeight] at hfuel
    obtain ⟨fuel, rfl⟩ : ∃ k, fuel = k + 2 := ⟨fuel - 2, by omega⟩
    have hvalue (after : List Char) :
        readValue? (fuel + 1) (' ' :: value.prettyChars level after) = some (value, after) := by
      rw [readValue?_congr (List.dropWhile_cons_of_pos (by decide))]
      exact readValue?_prettyChars level value after fuel h.1 (by omega)
    have hrest := readMembers?_prettyMembers level outer rest after (fuel + 1)
    cases rest with
    | nil =>
      rw [prettyMembers, readMembers?, readKey?_quoted]
      simp [hvalue, dropWhile_newLine, isSpace]
    | cons next rest =>
      have hread := hrest (List.cons_ne_nil next rest) h.2 (by omega)
      rw [prettyMembers_cons_cons, readMembers?, readKey?_quoted]
      simp [hvalue, isSpace, hread]

end

/-- A legible value is read back from its text. -/
theorem parse?_pretty {json : Json} (h : json.Legible) : parse? json.pretty = some json := by
  have hfuel := weight_le 0 json [] h
  rw [List.length_nil, Nat.add_zero] at hfuel
  rw [parse?, pretty, String.toList_ofList,
    readValue?_prettyChars 0 json [] (2 * (json.prettyChars 0 []).length + 1) h (by omega)]
  simp

end CallForest.Json
