import CallForest.Json.Parser
import CallForest.Json.Printer

/-!
# Strings between quotes

A character of a JSON string is written as it is, or as a letter after a backslash, or by the four
digits of its code value. Whichever form it has, it is read as its code value. No code value of a
character is half of a surrogate pair, so the code values of a text are put together to the same
text again, whatever characters it has.

## Main definitions

* `Json.form` — a text as it stands between the quotes of a JSON string.

## Main results

* `Json.escapeChar_forms` — the three forms of a character;
* `Json.codes?_form` — the form of a text is read as its code values;
* `Json.textOf?_toNat` — the code values of a text are those of no other text.
-/

namespace CallForest.Json

/-- A text as it stands between the quotes of a JSON string. -/
def form (text : String) : List Char :=
  text.toList.flatMap escapeChar

theorem quoted_append (text : String) (rest : List Char) :
    quoted text ++ rest = '"' :: (form text ++ '"' :: rest) := by
  simp [quoted, form]

/-! ### Forms of characters -/

/-- A character that is no quote, backslash or control character stands for itself. -/
theorem escapeChar_eq_self {c : Char} (hquote : c ≠ '"') (hslash : c ≠ '\\')
    (hcontrol : 0x20 ≤ c.toNat) : escapeChar c = [c] := by
  have hline : c ≠ '\n' := by
    rintro rfl
    exact absurd hcontrol (by decide)
  have hreturn : c ≠ '\r' := by
    rintro rfl
    exact absurd hcontrol (by decide)
  have htab : c ≠ '\t' := by
    rintro rfl
    exact absurd hcontrol (by decide)
  have hbackspace : c.toNat ≠ 8 := by omega
  have hfeed : c.toNat ≠ 12 := by omega
  simp only [escapeChar, hquote, hslash, hline, hreturn, htab, hbackspace, hfeed, if_false,
    Nat.not_lt.mpr hcontrol]

/-- A character is written as it is, or as a letter after a backslash, or by the digits of its
code value. -/
theorem escapeChar_forms (c : Char) :
    (c ≠ '"' ∧ c ≠ '\\' ∧ 0x20 ≤ c.toNat ∧ escapeChar c = [c]) ∨
      (∃ letter, shortEscape? letter = some c.toNat ∧ escapeChar c = ['\\', letter]) ∨
      c.toNat < 0x20 ∧ escapeChar c =
        ['\\', 'u', '0', '0', Nat.digitChar (c.toNat / 16), Nat.digitChar (c.toNat % 16)] := by
  by_cases hcontrol : 0x20 ≤ c.toNat
  · by_cases hquote : c = '"'
    · subst hquote
      exact .inr (.inl ⟨'"', by decide⟩)
    by_cases hslash : c = '\\'
    · subst hslash
      exact .inr (.inl ⟨'\\', by decide⟩)
    exact .inl ⟨hquote, hslash, hcontrol, escapeChar_eq_self hquote hslash hcontrol⟩
  · -- There are few enough control characters to look at each of them. If there is a letter, it is
    -- the last character of the form.
    have hall : ∀ n < 0x20,
        (shortEscape? ((escapeChar (Char.ofNat n)).getLastD '\\') = some n ∧
          escapeChar (Char.ofNat n) = ['\\', (escapeChar (Char.ofNat n)).getLastD '\\']) ∨
        escapeChar (Char.ofNat n) =
          ['\\', 'u', '0', '0', Nat.digitChar (n / 16), Nat.digitChar (n % 16)] := by
      decide
    have hlt := Nat.lt_of_not_le hcontrol
    have hc := hall c.toNat hlt
    rw [Char.ofNat_toNat] at hc
    rcases hc with hletter | hdigits
    · exact .inr (.inl ⟨_, hletter⟩)
    · exact .inr (.inr ⟨hlt, hdigits⟩)

/-! ### Reading forms -/

/-- The two digits of a byte, after two zeros, are read as the byte. -/
theorem hex4?_digitChar {n : Nat} (hn : n < 256) :
    hex4? '0' '0' (Nat.digitChar (n / 16)) (Nat.digitChar (n % 16)) = some n := by
  have hhigh : n / 16 < 16 := Nat.div_lt_of_lt_mul hn
  have hlow : n % 16 < 16 := Nat.mod_lt n (by decide)
  have hzero : Text.digitValue? '0' = some 0 := by decide
  simp [hex4?, Text.number?, hzero, Text.digitValue?_digitChar hhigh,
    Text.digitValue?_digitChar hlow, hhigh, hlow, Nat.div_add_mod']

/-- The form of a character is read as its code value. -/
theorem codes?_escapeChar (c : Char) (rest : List Char) :
    codes? (escapeChar c ++ rest) = (codes? rest).map fun (codes, after) =>
      (c.toNat :: codes, after) := by
  rcases escapeChar_forms c with ⟨hquote, hslash, hcontrol, hform⟩ | ⟨letter, hletter, hform⟩ |
    ⟨hcontrol, hform⟩
  · have hstop : ¬ (c = '\\' ∨ c.toNat < 0x20) := by
      rintro (h | h)
      · exact hslash h
      · exact Nat.not_lt.mpr hcontrol h
    rw [hform, List.singleton_append, codes?]
    · rw [if_neg hstop]
      cases codes? rest <;> rfl
    · exact hquote
    · rintro _ _ _ _ _ h
      exact absurd h hslash
    · rintro _ _ h
      exact absurd h hslash
  · have hu : letter ≠ 'u' := by
      rintro rfl
      cases hletter
    rw [hform]
    simp only [List.cons_append, List.nil_append]
    rw [codes?]
    · simp only [hletter]
      cases codes? rest <;> rfl
    · rintro _ _ _ _ _ h
      exact absurd h hu
  · have hfour := hex4?_digitChar (n := c.toNat) (by omega)
    rw [hform]
    simp only [List.cons_append, List.nil_append, codes?, hfour]
    cases codes? rest <;> rfl

/-- Reading a quoted text up to the closing quote gives back its code values. -/
theorem codes?_form (text : String) (rest : List Char) :
    codes? (form text ++ '"' :: rest) = some (text.toList.map Char.toNat, rest) := by
  rw [form]
  induction text.toList with
  | nil => rfl
  | cons c cs ih =>
    rw [List.flatMap_cons, List.append_assoc, codes?_escapeChar, ih]
    rfl

/-- The code value of a character is no half of a surrogate pair. -/
theorem textOf?_toNat (cs : List Char) : textOf? (cs.map Char.toNat) = some cs := by
  induction cs with
  | nil => rfl
  | cons c cs ih =>
    have hvalid : c.toNat.isValidChar := c.valid
    simp only [Nat.isValidChar] at hvalid
    rw [List.map_cons]
    unfold textOf?
    rw [if_neg (by omega), if_neg (by omega), ih, Char.ofNat_toNat, Option.map_some]

end CallForest.Json
