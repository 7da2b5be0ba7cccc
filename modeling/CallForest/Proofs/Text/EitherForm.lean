import CallForest.Proofs.Text.Encoding

/-!
# Text in the modified and in the standard form

The reader of class files is given bytes in the modified form, of any sequence of units, or in the
standard form, and it is not told which. It tries the standard form on the bytes as a whole. That
is right in both cases: a unit that is a character other than NUL is written alike in both forms,
and the bytes of NUL and of a surrogate are not well-formed in the standard one. So where the
standard form reads the modified bytes at all, it reads the same characters.

What a sequence of units says is a relation with a rule for characters and a rule for surrogates
without a partner. The function that reads units computes it.

## Main definitions

* `Utf16.Denotes` — the characters of a sequence of units.

## Main results

* `Utf16.denotes_iff` — the units are read as what they denote;
* `ModifiedUtf8.decode_encode` — the modified form of any units is read as the units are;
* `ModifiedUtf8.decode_either_form` — text is read correctly in either form.
-/

namespace CallForest.Text

namespace Utf16

/-- The unit is one of a pair, or ought to be. -/
def isSurrogate (u : Nat) : Bool := isHigh u || isLow u

/-- The characters of a sequence of units. A surrogate that does not form a pair with the next unit
stands for U+FFFD. -/
inductive Denotes : List Nat → List Char → Prop
  | nil : Denotes [] []
  | char (c : Char) {rest : List Nat} {cs : List Char} (hrest : Denotes rest cs) :
      Denotes (encodeChar c ++ rest) (c :: cs)
  | unpaired {u : Nat} {rest : List Nat} {cs : List Char} (hu : isSurrogate u = true)
      (hpair : isHigh u = true → ∀ v ∈ rest.head?, isLow v = false) (hrest : Denotes rest cs) :
      Denotes (u :: rest) (Utf8.replacement :: cs)

theorem isHigh_iff {u : Nat} : isHigh u = true ↔ 0xd800 ≤ u ∧ u < 0xdc00 := by
  rw [isHigh, Bool.and_eq_true, decide_eq_true_eq, decide_eq_true_eq]

theorem isLow_iff {u : Nat} : isLow u = true ↔ 0xdc00 ≤ u ∧ u < 0xe000 := by
  rw [isLow, Bool.and_eq_true, decide_eq_true_eq, decide_eq_true_eq]

theorem isSurrogate_iff {u : Nat} : isSurrogate u = true ↔ 0xd800 ≤ u ∧ u < 0xe000 := by
  rw [isSurrogate, Bool.or_eq_true, isHigh_iff, isLow_iff]
  omega

theorem toNat_ofNat_of_valid {n : Nat} (hn : n < 0xd800 ∨ (0xdfff < n ∧ n < 0x110000)) :
    (Char.ofNat n).toNat = n := by
  rw [Char.ofNat, dif_pos hn]
  rfl

/-- A unit that is no surrogate is a character. -/
theorem toNat_ofNat_unit {u : Nat} (hu : u < 0x10000) (hsurrogate : isSurrogate u = false) :
    (Char.ofNat u).toNat = u := by
  rw [← Bool.not_eq_true, isSurrogate_iff] at hsurrogate
  exact toNat_ofNat_of_valid (by omega)

theorem encodeChar_ofNat {u : Nat} (hu : u < 0x10000) (hsurrogate : isSurrogate u = false) :
    encodeChar (Char.ofNat u) = [u] := by
  simp only [encodeChar, toNat_ofNat_unit hu hsurrogate]
  rw [if_pos hu]

/-- The units of the character of a pair are the pair. -/
theorem encodeChar_pair {u v : Nat} (hu : isHigh u = true) (hv : isLow v = true) :
    encodeChar (pair u v) = [u, v] := by
  rw [isHigh_iff] at hu
  rw [isLow_iff] at hv
  have hnat : (pair u v).toNat = 0x10000 + (u - 0xd800) * 0x400 + (v - 0xdc00) :=
    toNat_ofNat_of_valid (by omega)
  have hhigh : 0xd800 + ((pair u v).toNat - 0x10000) / 0x400 = u := by omega
  have hlow : 0xdc00 + ((pair u v).toNat - 0x10000) % 0x400 = v := by omega
  simp only [encodeChar]
  rw [if_neg (by omega), hhigh, hlow]

/-- The units of a character are read as that character, whatever follows. -/
theorem decodeUnits_encodeChar (c : Char) (rest : List Nat) :
    decodeUnits (encodeChar c ++ rest) = c :: decodeUnits rest := by
  have hvalid := Utf8.toNat_valid c
  have hchar : Char.ofNat c.toNat = c := Char.ofNat_toNat c
  by_cases hone : c.toNat < 0x10000
  · have hhigh : ¬ isHigh c.toNat = true := by
      rw [isHigh_iff]
      omega
    have hlow : ¬ isLow c.toNat = true := by
      rw [isLow_iff]
      omega
    simp only [encodeChar, if_pos hone, List.singleton_append]
    rw [decodeUnits.eq_def]
    simp only [if_neg hhigh, if_neg hlow, hchar]
  · have hhigh : isHigh (0xd800 + (c.toNat - 0x10000) / 0x400) = true := by
      rw [isHigh_iff]
      omega
    have hlow : isLow (0xdc00 + (c.toNat - 0x10000) % 0x400) = true := by
      rw [isLow_iff]
      omega
    have hpair : pair (0xd800 + (c.toNat - 0x10000) / 0x400)
        (0xdc00 + (c.toNat - 0x10000) % 0x400) = c := by
      have hnat : 0x10000 + (0xd800 + (c.toNat - 0x10000) / 0x400 - 0xd800) * 0x400 +
          (0xdc00 + (c.toNat - 0x10000) % 0x400 - 0xdc00) = c.toNat := by omega
      rw [pair, hnat, hchar]
    simp only [encodeChar, if_neg hone, List.cons_append, List.nil_append]
    rw [decodeUnits.eq_def]
    simp only [if_pos hhigh, if_pos hlow, hpair]

/-- A surrogate without its partner is replaced, and reading goes on behind it. -/
theorem decodeUnits_unpaired {u : Nat} {rest : List Nat} (hu : isSurrogate u = true)
    (hpair : isHigh u = true → ∀ v ∈ rest.head?, isLow v = false) :
    decodeUnits (u :: rest) = Utf8.replacement :: decodeUnits rest := by
  rw [decodeUnits.eq_def]
  by_cases hhigh : isHigh u = true
  · simp only [if_pos hhigh]
    cases rest with
    | nil => simp only [decodeUnits]
    | cons v rest =>
      have hlow := hpair hhigh v rfl
      simp only [hlow, Bool.false_eq_true, if_false]
  · have hlow : isLow u = true := by
      rw [isSurrogate, Bool.or_eq_true] at hu
      exact hu.resolve_left hhigh
    simp only [if_neg hhigh, if_pos hlow]

/-- Whatever the units are, what they are read as is what they denote. -/
theorem denotes_decodeUnits {units : List Nat} (hunits : ∀ u ∈ units, u < 0x10000) :
    Denotes units (decodeUnits units) := by
  fun_induction decodeUnits units with
  | case1 => exact .nil
  | case2 u hhigh => exact .unpaired (by rw [isSurrogate, hhigh]; rfl) (by simp) .nil
  | case3 u hhigh v rest hlow ih =>
    have hrest := ih fun w hw => hunits w (by simp [hw])
    have hchar := Denotes.char (pair u v) hrest
    rwa [encodeChar_pair hhigh hlow] at hchar
  | case4 u hhigh v rest hlow ih =>
    refine .unpaired (by rw [isSurrogate, hhigh]; rfl) ?_ (ih fun w hw => hunits w (by simp_all))
    simpa using fun _ => hlow
  | case5 u rest hhigh hlow ih =>
    refine .unpaired (by rw [isSurrogate, hlow, Bool.or_true]) (fun h => absurd h hhigh) ?_
    exact ih fun w hw => hunits w (by simp [hw])
  | case6 u rest hhigh hlow ih =>
    have hsurrogate : isSurrogate u = false := by
      rw [isSurrogate, Bool.eq_false_iff.mpr hhigh, Bool.eq_false_iff.mpr hlow]
      rfl
    have hrest := ih fun w hw => hunits w (by simp [hw])
    have hchar := Denotes.char (Char.ofNat u) hrest
    rwa [encodeChar_ofNat (hunits u (by simp)) hsurrogate] at hchar

/-- The units are read as what they denote, and they denote nothing else. -/
theorem denotes_iff {units : List Nat} (hunits : ∀ u ∈ units, u < 0x10000) (cs : List Char) :
    Denotes units cs ↔ decodeUnits units = cs := by
  constructor
  · intro hdenotes
    clear hunits
    induction hdenotes with
    | nil => rw [decodeUnits]
    | char c hrest ih => rw [decodeUnits_encodeChar, ih]
    | unpaired hu hpair hrest ih => rw [decodeUnits_unpaired hu hpair, ih]
  · rintro rfl
    exact denotes_decodeUnits hunits

end Utf16

/-! ### The standard form -/

theorem Utf8.encodeChar_eq_utf8EncodeChar (c : Char) :
    Utf8.encodeChar c = String.utf8EncodeChar c := by
  have hvalid := Utf8.toNat_valid c
  have hval : c.val.toNat = c.toNat := rfl
  simp only [Utf8.encodeChar, String.utf8EncodeChar, hval]
  by_cases hone : c.toNat < 0x80
  · rw [if_pos hone, if_pos (by omega)]
  by_cases htwo : c.toNat < 0x800
  · have hlead : 0xc0 + c.toNat / 0x40 = c.toNat / 64 % 32 + 192 := by omega
    rw [if_neg hone, if_pos htwo, if_neg (by omega), if_pos (by omega), hlead, Nat.add_comm 0x80]
  by_cases hthree : c.toNat < 0x10000
  · have hlead : 0xe0 + c.toNat / 0x1000 = c.toNat / 4096 % 16 + 224 := by omega
    rw [if_neg hone, if_neg htwo, if_pos hthree, if_neg (by omega), if_neg (by omega),
      if_pos (by omega), hlead, Nat.add_comm 0x80, Nat.add_comm 0x80]
  · have hlead : 0xf0 + c.toNat / 0x40000 = c.toNat / 262144 % 8 + 240 := by omega
    rw [if_neg hone, if_neg htwo, if_neg hthree, if_neg (by omega), if_neg (by omega),
      if_neg (by omega), hlead, Nat.add_comm 0x80, Nat.add_comm 0x80, Nat.add_comm 0x80]

theorem Utf8.encode_eq_toUTF8 (s : String) : (Utf8.encode s).toByteArray = s.toUTF8 := by
  have hchar : Utf8.encodeChar = String.utf8EncodeChar := funext Utf8.encodeChar_eq_utf8EncodeChar
  rw [Utf8.encode, hchar]
  exact String.utf8Encode_toList

namespace ModifiedUtf8

open Utf16

/-! ### One unit -/

/-- A unit is read back, whatever follows. -/
theorem units_encodeUnit {u : Nat} (hu : u < 0x10000) (rest : List UInt8) :
    units (encodeUnit u ++ rest) = u :: units rest := by
  unfold encodeUnit
  by_cases hone : 0 < u ∧ u < 0x80
  · rw [if_pos hone, List.singleton_append, units.eq_def]
    simp only [Utf8.toNat_ofNat_of_lt (by omega : u < 256)]
    rw [if_pos hone.2]
  rw [if_neg hone]
  by_cases htwo : u < 0x800
  · have hbits : (0xc0 + u / 0x40) % 0x20 * 0x40 + (0x80 + u % 0x40) % 0x40 = u := by omega
    rw [if_pos htwo, List.cons_append, List.singleton_append, units.eq_def]
    simp only [Utf8.toNat_ofNat_of_lt (by omega : 0xc0 + u / 0x40 < 256),
      Utf8.toNat_ofNat_of_lt (by omega : 0x80 + u % 0x40 < 256)]
    rw [if_neg (by omega), if_pos (by omega), hbits]
  · have hbits : (0xe0 + u / 0x1000) % 0x10 * 0x1000 + (0x80 + u / 0x40 % 0x40) % 0x40 * 0x40 +
        (0x80 + u % 0x40) % 0x40 = u := by omega
    rw [if_neg htwo, List.cons_append, List.cons_append, List.singleton_append, units.eq_def]
    simp only [Utf8.toNat_ofNat_of_lt (by omega : 0xe0 + u / 0x1000 < 256),
      Utf8.toNat_ofNat_of_lt (by omega : 0x80 + u / 0x40 % 0x40 < 256),
      Utf8.toNat_ofNat_of_lt (by omega : 0x80 + u % 0x40 < 256)]
    rw [if_neg (by omega), if_neg (by omega), if_pos (by omega), hbits]

/-- A character other than NUL that takes one unit is written alike in both forms. -/
theorem encodeUnit_eq_encodeChar {c : Char} (hpos : 0 < c.toNat) (hone : c.toNat < 0x10000) :
    encodeUnit c.toNat = Utf8.encodeChar c := by
  by_cases hascii : c.toNat < 0x80
  · simp only [encodeUnit, Utf8.encodeChar, if_pos hascii, if_pos (And.intro hpos hascii)]
  · have hnot : ¬ (0 < c.toNat ∧ c.toNat < 0x80) := fun h => hascii h.2
    simp only [encodeUnit, Utf8.encodeChar, if_neg hascii, if_neg hnot, if_pos hone]

/-- The bytes of NUL and of surrogates do not occur in the standard form. -/
theorem decodeFrom?_encodeUnit {u : Nat} (hu : u = 0 ∨ isSurrogate u = true) (rest : List UInt8) :
    Utf8.decodeFrom? none (encodeUnit u ++ rest) = none := by
  rcases hu with rfl | hu
  · rfl
  · rw [isSurrogate_iff] at hu
    have hfirst : 0xe0 + u / 0x1000 = 0xed := by omega
    have hlead : Utf8.lead (.ofNat 0xed) = .opens ⟨0xd, 1, 0x80, 0x9f⟩ := rfl
    -- After this first byte the range of the next one leaves the surrogates out.
    have hnext : Utf8.Pending.next? ⟨0xd, 1, 0x80, 0x9f⟩ (.ofNat (0x80 + u / 0x40 % 0x40)) =
        none := by
      simp only [Utf8.Pending.next?,
        Utf8.toNat_ofNat_of_lt (by omega : 0x80 + u / 0x40 % 0x40 < 256)]
      rw [if_neg (by omega)]
    rw [encodeUnit, if_neg (by omega), if_neg (by omega), hfirst]
    simp only [List.cons_append, Utf8.decodeFrom?, hlead, hnext]

/-! ### Sequences of units -/

/-- The units of a text can be read back from its bytes. -/
theorem units_encode {us : List Nat} (hus : ∀ u ∈ us, u < 0x10000) : units (encode us) = us := by
  induction us with
  | nil => rfl
  | cons u us ih =>
    rw [List.forall_mem_cons] at hus
    rw [encode, List.flatMap_cons, units_encodeUnit hus.1]
    exact congrArg (u :: ·) (ih hus.2)

/-- Where the standard form reads the modified bytes, it reads the characters of the units. -/
theorem decodeUnits_of_decodeFrom? {us : List Nat} (hus : ∀ u ∈ us, u < 0x10000) {cs : List Char}
    (hread : Utf8.decodeFrom? none (encode us) = some cs) : decodeUnits us = cs := by
  induction us generalizing cs with
  | nil => cases hread; rfl
  | cons u us ih =>
    rw [List.forall_mem_cons] at hus
    rw [encode, List.flatMap_cons] at hread
    by_cases hu : u = 0 ∨ isSurrogate u = true
    · rw [decodeFrom?_encodeUnit hu] at hread
      cases hread
    · obtain ⟨hpos, hsurrogate⟩ := not_or.mp hu
      rw [Bool.not_eq_true] at hsurrogate
      have hnat := toNat_ofNat_unit hus.1 hsurrogate
      have hunit : encodeUnit u = Utf8.encodeChar (Char.ofNat u) := by
        rw [← encodeUnit_eq_encodeChar (by omega) (by omega), hnat]
      rw [hunit, Utf8.decodeFrom?_encodeChar, Option.map_eq_some_iff] at hread
      obtain ⟨rest, hrest, rfl⟩ := hread
      have hdecode := decodeUnits_encodeChar (Char.ofNat u) us
      rw [encodeChar_ofNat hus.1 hsurrogate, List.singleton_append, ih hus.2 hrest] at hdecode
      exact hdecode

/-- The modified form of any units is read as the units are. -/
theorem decode_encode {us : List Nat} (hus : ∀ u ∈ us, u < 0x10000) :
    decode (encode us) = decodeLossy us := by
  unfold decode
  -- The bytes may happen to be well-formed in the standard form.
  cases hread : Utf8.decode? (encode us) with
  | none => rw [units_encode hus]
  | some text =>
    rw [Utf8.decode?, Option.map_eq_some_iff] at hread
    obtain ⟨cs, hcs, rfl⟩ := hread
    exact congrArg String.ofList (decodeUnits_of_decodeFrom? hus hcs).symm

/-- Text is read correctly in either form. The modified form of any sequence of units is read as
what the units denote, and the standard form of any text as the text. -/
theorem decode_either_form (us : List UInt16) (s : String) :
    decode (encode (us.map UInt16.toNat)) = decodeLossy (us.map UInt16.toNat) ∧
      (∀ cs, Denotes (us.map UInt16.toNat) cs ↔
        (decode (encode (us.map UInt16.toNat))).toList = cs) ∧
      (Utf8.encode s).toByteArray = s.toUTF8 ∧ decode (Utf8.encode s) = s := by
  have hus : ∀ u ∈ us.map UInt16.toNat, u < 0x10000 := by
    rw [List.forall_mem_map]
    exact fun u _ => u.toNat_lt
  have hread := decode_encode hus
  refine ⟨hread, fun cs => ?_, Utf8.encode_eq_toUTF8 s, decode_encode_standard s⟩
  rw [hread, decodeLossy, String.toList_ofList]
  exact denotes_iff hus cs

end ModifiedUtf8

end CallForest.Text
