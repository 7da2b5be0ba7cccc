/-!
# Digits and codes

How digits write numbers, and which numbers are codes of characters.

## Main definitions

* `Text.digitValue?` — the value of a digit up to base sixteen;
* `Text.number?` — the number that digits write;
* `Text.charOf?` — the character with a code.

## Main results

* `Text.digitValue?_digitChar` — every value below sixteen is that of its digit;
* `Text.charOf?_toNat` — every character is that of its code.
-/

namespace CallForest.Text

/-- The value of a digit up to base sixteen, in either case. -/
def digitValue? (c : Char) : Option Nat :=
  if '0' ≤ c ∧ c ≤ '9' then some (c.toNat - '0'.toNat)
  else if 'a' ≤ c ∧ c ≤ 'f' then some (c.toNat - 'a'.toNat + 10)
  else if 'A' ≤ c ∧ c ≤ 'F' then some (c.toNat - 'A'.toNat + 10)
  else none

/-- The number that at least one digit of a base writes. -/
def number? (base : Nat) (digits : List Char) : Option Nat :=
  if digits.isEmpty then none
  else digits.foldlM (fun n c => do
    let d ← digitValue? c
    if d < base then some (n * base + d) else none) 0

/-- The character with a code. -/
def charOf? (code : Nat) : Option Char :=
  if h : code.isValidChar then some (Char.ofNatAux code h) else none

/-! ### Small facts -/

theorem digitValue?_digitChar {n : Nat} (h : n < 16) : digitValue? (Nat.digitChar n) = some n := by
  have all : ∀ i : Fin 16, digitValue? (Nat.digitChar i) = some i.val := by decide
  exact all ⟨n, h⟩

theorem charOf?_toNat (c : Char) : charOf? c.toNat = some c := by
  have valid : c.toNat.isValidChar := c.valid
  have same : Char.ofNatAux c.toNat valid = c := Char.ext (UInt32.toNat_inj.mp rfl)
  rw [charOf?, dif_pos valid, same]

end CallForest.Text
