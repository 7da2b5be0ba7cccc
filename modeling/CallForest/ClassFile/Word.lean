/-!
# Big-endian words

Numbers in class files are unsigned or two's complement words of one, two, four or eight bytes,
most significant byte first.

## Main definitions

* `Word.encode` — the bytes of a number, which is cut to the width of the word;
* `Word.decode` — the number that bytes stand for;
* `Word.signed`, `Word.unsigned` — two's complement and back;
* `Word.Fits`, `Word.FitsInt` — the numbers and the integers that a word can stand for.

## Main results

* `Word.length_encode` — a word has as many bytes as its width says;
* `Word.decode_encode` — decoding undoes encoding up to the width;
* `Word.signed_unsigned` — two's complement undoes itself.
-/

namespace CallForest.ClassFile.Word

/-- The number of words of `width` bytes. -/
def count (width : Nat) : Nat :=
  1 <<< (8 * width)

/-- The `width` low bytes of a number, most significant first. -/
def encode : (width : Nat) → Nat → List UInt8
  | 0, _ => []
  | width + 1, n => .ofNat (n / count width) :: encode width n

/-- The number that bytes stand for, with the most significant byte first. -/
def decode (bytes : List UInt8) : Nat :=
  bytes.foldl (fun n b => n * 256 + b.toNat) 0

/-- The two's complement meaning of an unsigned word of the given width in bits. -/
def signed (bits n : Nat) : Int :=
  if n < 1 <<< (bits - 1) then n else n - (1 <<< bits : Nat)

/-- The unsigned word of the given width in bits for an integer. -/
def unsigned (bits : Nat) (n : Int) : Nat :=
  (n % (1 <<< bits : Nat)).toNat

/-- The numbers that a word of `width` bytes can stand for. -/
def Fits (width n : Nat) : Prop :=
  n < count width
deriving Decidable

/-- The integers that a signed word of four bytes can stand for. -/
def FitsInt (n : Int) : Prop :=
  -2147483648 ≤ n ∧ n < 2147483648
deriving Decidable

/-! ### Small facts -/

@[simp]
theorem count_zero : count 0 = 1 :=
  rfl

theorem count_succ (width : Nat) : count (width + 1) = count width * 256 := by
  rw [count, count, Nat.mul_succ, Nat.shiftLeft_add]
  exact Nat.shiftLeft_eq _ 8

@[simp]
theorem length_encode (width n : Nat) : (encode width n).length = width := by
  induction width with
  | zero => rfl
  | succ width ih => simp [encode, ih]

theorem foldl_decode (bytes : List UInt8) (n : Nat) :
    bytes.foldl (fun n b => n * 256 + b.toNat) n = n * count bytes.length + decode bytes := by
  induction bytes generalizing n with
  | nil => simp [decode]
  | cons b bytes ih =>
    simp only [List.foldl_cons, List.length_cons, decode]
    rw [ih, ih (0 * 256 + b.toNat), count_succ]
    simp only [Nat.zero_mul, Nat.zero_add, Nat.add_mul]
    rw [Nat.mul_assoc, Nat.mul_comm 256, Nat.add_assoc]

theorem decode_cons (b : UInt8) (bytes : List UInt8) :
    decode (b :: bytes) = b.toNat * count bytes.length + decode bytes := by
  rw [decode, List.foldl_cons, foldl_decode]
  simp

theorem decode_encode (width n : Nat) : decode (encode width n) = n % count width := by
  induction width with
  | zero => simp [encode, decode, Nat.mod_one]
  | succ width ih =>
    have byte : (UInt8.ofNat (n / count width)).toNat = n / count width % 256 :=
      UInt8.toNat_ofNat'
    rw [encode, decode_cons, ih, length_encode, byte, count_succ, Nat.mod_mul, Nat.add_comm,
      Nat.mul_comm]

theorem fits_two {n : Nat} : Fits 2 n ↔ n < 65536 :=
  Iff.rfl

theorem fits_four {n : Nat} : Fits 4 n ↔ n < 4294967296 :=
  Iff.rfl

theorem decode_encode_of_fits {width n : Nat} (hn : Fits width n) :
    decode (encode width n) = n := by
  rw [decode_encode, Nat.mod_eq_of_lt hn]

theorem signed_four (n : Nat) :
    signed 32 n = if n < 2147483648 then (n : Int) else n - 4294967296 :=
  rfl

theorem unsigned_four (n : Int) : unsigned 32 n = (n % 4294967296).toNat :=
  rfl

theorem fits_unsigned (n : Int) : Fits 4 (unsigned 32 n) := by
  rw [fits_four, unsigned_four]
  omega

theorem unsigned_natCast {n : Nat} (hn : FitsInt n) : unsigned 32 n = n := by
  obtain ⟨-, hhigh⟩ := hn
  rw [unsigned_four]
  omega

theorem signed_unsigned {n : Int} (hn : FitsInt n) : signed 32 (unsigned 32 n) = n := by
  obtain ⟨hlow, hhigh⟩ := hn
  rw [signed_four, unsigned_four]
  split <;> omega

end CallForest.ClassFile.Word
