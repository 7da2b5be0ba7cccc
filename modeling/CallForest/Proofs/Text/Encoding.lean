import CallForest.Text.ModifiedUtf8

/-!
# Text survives its encoding

Standard UTF-8 is read back as the text it was written from. The decoder remembers how many bytes
of a character are still to come and in which range the next one lies, so each width of character
is followed byte by byte.

## Main results

* `Utf8.decodeFrom?_encodeChar` — the bytes of one character;
* `Utf8.decode?_encode` — standard UTF-8 is read back;
* `Utf8.length_encode` — the number of bytes of a text;
* `ModifiedUtf8.decode_encode_standard` — also where the modified form is expected.
-/

namespace CallForest.Text

namespace Utf8

theorem toNat_ofNat_of_lt {n : Nat} (h : n < 256) : (UInt8.ofNat n).toNat = n := by
  rw [UInt8.toNat_ofNat', Nat.mod_eq_of_lt h]

/-- The code point of a character is no surrogate and at most U+10FFFF. -/
theorem toNat_valid (c : Char) :
    c.toNat < 0xd800 ∨ (0xdfff < c.toNat ∧ c.toNat < 0x110000) :=
  c.valid

theorem lead_ascii {n : Nat} (h : n < 0x80) : lead (.ofNat n) = .whole (Char.ofNat n) := by
  simp only [lead, toNat_ofNat_of_lt (by omega : n < 256)]
  rw [if_pos h]

/-- A further byte that lies in the range and is the last one completes the character. -/
theorem next?_last {bits lo hi low : Nat} (hlow : low < 0x40) (hlo : lo ≤ 0x80 + low)
    (hhi : 0x80 + low ≤ hi) :
    Pending.next? ⟨bits, 0, lo, hi⟩ (.ofNat (0x80 + low)) =
      some (.inl (Char.ofNat (bits * 0x40 + low))) := by
  simp only [Pending.next?, toNat_ofNat_of_lt (by omega : 0x80 + low < 256)]
  rw [if_pos ⟨hlo, hhi⟩, Nat.add_sub_cancel_left]

/-- A further byte that lies in the range adds its bits when more are to come. -/
theorem next?_more {bits more lo hi low : Nat} (hlow : low < 0x40) (hlo : lo ≤ 0x80 + low)
    (hhi : 0x80 + low ≤ hi) :
    Pending.next? ⟨bits, more + 1, lo, hi⟩ (.ofNat (0x80 + low)) =
      some (.inr ⟨bits * 0x40 + low, more, 0x80, 0xbf⟩) := by
  simp only [Pending.next?, toNat_ofNat_of_lt (by omega : 0x80 + low < 256)]
  rw [if_pos ⟨hlo, hhi⟩, Nat.add_sub_cancel_left]

theorem decodeFrom?_two {n : Nat} (hlow : 0x80 ≤ n) (hhigh : n < 0x800) (rest : List UInt8) :
    decodeFrom? none (.ofNat (0xc0 + n / 0x40) :: .ofNat (0x80 + n % 0x40) :: rest) =
      (decodeFrom? none rest).map (Char.ofNat n :: ·) := by
  have hlead : lead (.ofNat (0xc0 + n / 0x40)) = .opens ⟨n / 0x40, 0, 0x80, 0xbf⟩ := by
    simp only [lead, toNat_ofNat_of_lt (by omega : 0xc0 + n / 0x40 < 256)]
    rw [if_neg (by omega), if_neg (by omega), if_pos (by omega), Nat.add_sub_cancel_left]
  have hbits : n / 0x40 * 0x40 + n % 0x40 = n := by omega
  simp only [decodeFrom?, hlead]
  rw [next?_last (by omega) (by omega) (by omega), hbits]

theorem decodeFrom?_three {n : Nat} (hlow : 0x800 ≤ n) (hhigh : n < 0x10000)
    (hvalid : n < 0xd800 ∨ 0xdfff < n) (rest : List UInt8) :
    decodeFrom? none (.ofNat (0xe0 + n / 0x1000) :: .ofNat (0x80 + n / 0x40 % 0x40) ::
        .ofNat (0x80 + n % 0x40) :: rest) =
      (decodeFrom? none rest).map (Char.ofNat n :: ·) := by
  have hlead : lead (.ofNat (0xe0 + n / 0x1000)) =
      .opens ⟨n / 0x1000, 1, if 0xe0 + n / 0x1000 = 0xe0 then 0xa0 else 0x80,
        if 0xe0 + n / 0x1000 = 0xed then 0x9f else 0xbf⟩ := by
    simp only [lead, toNat_ofNat_of_lt (by omega : 0xe0 + n / 0x1000 < 256)]
    rw [if_neg (by omega), if_neg (by omega), if_neg (by omega), if_pos (by omega),
      Nat.add_sub_cancel_left]
  have hbits : (n / 0x1000 * 0x40 + n / 0x40 % 0x40) * 0x40 + n % 0x40 = n := by omega
  simp only [decodeFrom?, hlead]
  rw [next?_more (by omega) (by split <;> omega) (by split <;> omega)]
  simp only
  rw [next?_last (by omega) (by omega) (by omega), hbits]

theorem decodeFrom?_four {n : Nat} (hlow : 0x10000 ≤ n) (hhigh : n < 0x110000)
    (rest : List UInt8) :
    decodeFrom? none (.ofNat (0xf0 + n / 0x40000) :: .ofNat (0x80 + n / 0x1000 % 0x40) ::
        .ofNat (0x80 + n / 0x40 % 0x40) :: .ofNat (0x80 + n % 0x40) :: rest) =
      (decodeFrom? none rest).map (Char.ofNat n :: ·) := by
  have hlead : lead (.ofNat (0xf0 + n / 0x40000)) =
      .opens ⟨n / 0x40000, 2, if 0xf0 + n / 0x40000 = 0xf0 then 0x90 else 0x80,
        if 0xf0 + n / 0x40000 = 0xf4 then 0x8f else 0xbf⟩ := by
    simp only [lead, toNat_ofNat_of_lt (by omega : 0xf0 + n / 0x40000 < 256)]
    rw [if_neg (by omega), if_neg (by omega), if_neg (by omega), if_neg (by omega),
      if_pos (by omega), Nat.add_sub_cancel_left]
  have hbits : ((n / 0x40000 * 0x40 + n / 0x1000 % 0x40) * 0x40 + n / 0x40 % 0x40) * 0x40 +
      n % 0x40 = n := by omega
  simp only [decodeFrom?, hlead]
  rw [next?_more (by omega) (by split <;> omega) (by split <;> omega)]
  simp only
  rw [next?_more (by omega) (by omega) (by omega)]
  simp only
  rw [next?_last (by omega) (by omega) (by omega), hbits]

/-- The bytes of a character are read as that character, whatever follows. -/
theorem decodeFrom?_encodeChar (c : Char) (rest : List UInt8) :
    decodeFrom? none (encodeChar c ++ rest) = (decodeFrom? none rest).map (c :: ·) := by
  have hvalid := toNat_valid c
  have hchar : Char.ofNat c.toNat = c := Char.ofNat_toNat c
  unfold encodeChar
  simp only
  split
  · rename_i hone
    simp only [List.cons_append, List.nil_append, decodeFrom?, lead_ascii hone, hchar]
  split
  · rename_i hone htwo
    have hread := decodeFrom?_two (by omega) htwo rest
    rwa [hchar] at hread
  split
  · rename_i hone htwo hthree
    have hread := decodeFrom?_three (by omega) hthree (by omega) rest
    rwa [hchar] at hread
  · rename_i hone htwo hthree
    have hread := decodeFrom?_four (by omega : 0x10000 ≤ c.toNat) (by omega) rest
    rwa [hchar] at hread

/-- Standard UTF-8 is read back. -/
theorem decode?_encode (s : String) : decode? (encode s) = some s := by
  have hchars (cs : List Char) : decodeFrom? none (cs.flatMap encodeChar) = some cs := by
    induction cs with
    | nil => rfl
    | cons c cs ih => rw [List.flatMap_cons, decodeFrom?_encodeChar, ih, Option.map_some]
  rw [decode?, encode, hchars, Option.map_some, String.ofList_toList]

theorem length_encodeChar (c : Char) : (encodeChar c).length = c.utf8Size := by
  have hle (n : UInt32) : c.val ≤ n ↔ c.toNat ≤ n.toNat := UInt32.le_iff_toNat_le
  simp only [encodeChar, Char.utf8Size, hle, UInt32.toNat_ofNatLT]
  split
  · rw [if_pos (by omega)]
    rfl
  split
  · rw [if_neg (by omega), if_pos (by omega)]
    rfl
  split
  · rw [if_neg (by omega), if_neg (by omega), if_pos (by omega)]
    rfl
  · rw [if_neg (by omega), if_neg (by omega), if_neg (by omega)]
    rfl

/-- A text takes as many bytes as its size says. -/
theorem length_encode (s : String) : (encode s).length = s.utf8ByteSize := by
  have hchars (cs : List Char) :
      (cs.flatMap encodeChar).length = (String.ofList cs).utf8ByteSize := by
    induction cs with
    | nil => rfl
    | cons c cs ih =>
      rw [List.flatMap_cons, List.length_append, length_encodeChar, ih, ← List.singleton_append,
        String.ofList_append, String.utf8ByteSize_append, ← String.singleton_eq_ofList,
        String.utf8ByteSize_singleton]
  rw [encode, hchars, String.ofList_toList]

end Utf8

/-- Text in standard UTF-8 is read as such where the modified form is expected. -/
theorem ModifiedUtf8.decode_encode_standard (s : String) : decode (Utf8.encode s) = s := by
  rw [decode, Utf8.decode?_encode]

end CallForest.Text
