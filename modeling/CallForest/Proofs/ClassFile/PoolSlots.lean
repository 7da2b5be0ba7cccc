import CallForest.Proofs.ClassFile.CursorMoves
import CallForest.Proofs.ClassFile.Layout
import Mathlib.Algebra.Ring.Nat

/-!
# The slots of a constant pool

A constant pool is written as the number of its slots and then its constants, one after the other.
A long or double fills two slots, of which the second cannot be used, and the slot of index zero
cannot be used either, so the number of slots is not the number of constants. What the bytes of a
constant are is described here by a table of the format, without a reader.

A pool is read if and only if its constants fill the slots exactly. Every constant then stands where
the indices of the file expect it. A long or double that begins in the last slot is refused.

## Main definitions

* `Constant.IsEncoded` — the bytes of each kind of constant;
* `ConstantEntry` — a constant with its bytes;
* `Constant.slots`, `slotsFilled` — the slots that constants fill;
* `Decoder.Refuses` — a decoder fails on a stretch of bytes with a given fault.

## Main results

* `consumes_constant`, `ConstantEntry.reads` — a constant is read from just its bytes;
* `ConstantPool.consumes_slots`, `ConstantPool.reads_slotsFilled`, `ConstantPool.refuses_slots` —
  the slots that are read, and those that are refused;
* `getElem?_slotsFilled_eq_unusable_iff` — the slots that cannot be used;
* `readPool_exact` — a constant pool as a whole.
-/

namespace CallForest.ClassFile

open Decoder

/-! ### The bytes of a constant -/

/-- The bytes of a constant: a tag, and then its parts. Text may be any bytes, and is what these
decode to. -/
inductive Constant.IsEncoded : Constant → List UInt8 → Prop
  | utf8 {body : List UInt8} (short : Word.Fits 2 body.length) :
    IsEncoded (.utf8 (Text.ModifiedUtf8.decode body)) (1 :: (Word.encode 2 body.length ++ body))
  | integer {n : Nat} (hn : Word.Fits 4 n) :
    IsEncoded (.integer (Word.signed 32 n)) (3 :: Word.encode 4 n)
  | float {n : Nat} (hn : Word.Fits 4 n) : IsEncoded (.float n) (4 :: Word.encode 4 n)
  | long {n : Nat} (hn : Word.Fits 8 n) :
    IsEncoded (.long (Word.signed 64 n)) (5 :: Word.encode 8 n)
  | double {n : Nat} (hn : Word.Fits 8 n) : IsEncoded (.double n) (6 :: Word.encode 8 n)
  | classRef {n : Nat} (hn : Word.Fits 2 n) : IsEncoded (.classRef n) (7 :: Word.encode 2 n)
  | string {n : Nat} (hn : Word.Fits 2 n) : IsEncoded (.string n) (8 :: Word.encode 2 n)
  | fieldRef {m n : Nat} (hm : Word.Fits 2 m) (hn : Word.Fits 2 n) :
    IsEncoded (.fieldRef m n) (9 :: (Word.encode 2 m ++ Word.encode 2 n))
  | methodRef {m n : Nat} (hm : Word.Fits 2 m) (hn : Word.Fits 2 n) :
    IsEncoded (.methodRef m n) (10 :: (Word.encode 2 m ++ Word.encode 2 n))
  | interfaceMethodRef {m n : Nat} (hm : Word.Fits 2 m) (hn : Word.Fits 2 n) :
    IsEncoded (.interfaceMethodRef m n) (11 :: (Word.encode 2 m ++ Word.encode 2 n))
  | nameAndType {m n : Nat} (hm : Word.Fits 2 m) (hn : Word.Fits 2 n) :
    IsEncoded (.nameAndType m n) (12 :: (Word.encode 2 m ++ Word.encode 2 n))
  | methodHandle {m n : Nat} (hm : Word.Fits 1 m) (hn : Word.Fits 2 n) :
    IsEncoded (.methodHandle m n) (15 :: (Word.encode 1 m ++ Word.encode 2 n))
  | methodType {n : Nat} (hn : Word.Fits 2 n) : IsEncoded (.methodType n) (16 :: Word.encode 2 n)
  | dynamic {m n : Nat} (hm : Word.Fits 2 m) (hn : Word.Fits 2 n) :
    IsEncoded (.dynamic m n) (17 :: (Word.encode 2 m ++ Word.encode 2 n))
  | invokeDynamic {m n : Nat} (hm : Word.Fits 2 m) (hn : Word.Fits 2 n) :
    IsEncoded (.invokeDynamic m n) (18 :: (Word.encode 2 m ++ Word.encode 2 n))
  | moduleRef {n : Nat} (hn : Word.Fits 2 n) : IsEncoded (.moduleRef n) (19 :: Word.encode 2 n)
  | packageRef {n : Nat} (hn : Word.Fits 2 n) : IsEncoded (.packageRef n) (20 :: Word.encode 2 n)

theorem Constant.IsEncoded.ne_unusable {c : Constant} {bytes : List UInt8}
    (h : c.IsEncoded bytes) : c ≠ .unusable := by
  cases h <;> nofun

/-- A constant as it stands in a file. -/
structure ConstantEntry where
  constant : Constant
  bytes : List UInt8
  encoded : constant.IsEncoded bytes

/-! ### Reading a constant -/

theorem Decoder.Consumes.i32 : Consumes Decoder.i32 fun bytes value =>
    ∃ n, value = Word.signed 32 n ∧ bytes = Word.encode 4 n ∧ Word.Fits 4 n :=
  (Consumes.word 4).bind_pure fun _ n h => ⟨n, rfl, h⟩

/-- A word of eight bytes is written as its two halves. -/
theorem Word.encode_halves {high low : Nat} (hhigh : Fits 4 high) (hlow : Fits 4 low) :
    encode 8 (high * UInt32.size + low) = encode 4 high ++ encode 4 low ∧
      Fits 8 (high * UInt32.size + low) := by
  have hvalue : decode (encode 4 high ++ encode 4 low) = high * UInt32.size + low := by
    rw [decode_append, decode_encode_of_fits hhigh, decode_encode_of_fits hlow, length_encode]
    rfl
  have hbytes := encode_decode (encode 4 high ++ encode 4 low)
  have hfits := fits_decode (encode 4 high ++ encode 4 low)
  rw [hvalue, List.length_append, length_encode, length_encode] at hbytes hfits
  exact ⟨hbytes, hfits⟩

theorem Decoder.Consumes.u64 :
    Consumes Decoder.u64 fun bytes n => bytes = Word.encode 8 n ∧ Word.Fits 8 n := by
  apply (Consumes.word 4).bind
  rintro _ high ⟨rfl, hhigh⟩
  apply (Consumes.word 4).bind_pure
  rintro _ low ⟨rfl, hlow⟩
  obtain ⟨hbytes, hfits⟩ := Word.encode_halves hhigh hlow
  exact ⟨hbytes.symm, hfits⟩

theorem Decoder.Reads.u64 {n : Nat} (hn : Word.Fits 8 n) :
    Reads Decoder.u64 (Word.encode 8 n) n := by
  have hn : n < UInt32.size * UInt32.size := hn
  have hhigh : Word.Fits 4 (n / UInt32.size) := Nat.div_lt_of_lt_mul hn
  have hlow : Word.Fits 4 (n % UInt32.size) := Nat.mod_lt n (by decide)
  have hreads : Reads Decoder.u64
      (Word.encode 4 (n / UInt32.size) ++ Word.encode 4 (n % UInt32.size))
      (n / UInt32.size * UInt32.size + n % UInt32.size) :=
    (Reads.u32 hhigh).bind (Reads.u32 hlow).bind_pure
  rwa [← (Word.encode_halves hhigh hlow).1, Nat.div_add_mod'] at hreads

/-- What a constant is read from are its bytes. -/
theorem consumes_constant (entry : Nat) :
    Consumes (Constant.read entry) fun bytes c => c.IsEncoded bytes := by
  apply (Consumes.word 1).bind
  rintro _ tag ⟨rfl, -⟩
  have one {t : Nat} {g : Nat → Constant}
      (hg : ∀ {n}, Word.Fits 2 n → (g n).IsEncoded (Word.encode 1 t ++ Word.encode 2 n)) :
      Consumes (do return g (← u16)) fun bytes c => c.IsEncoded (Word.encode 1 t ++ bytes) := by
    apply (Consumes.word 2).bind_pure
    rintro _ n ⟨rfl, hn⟩
    exact hg hn
  have two {t width : Nat} {g : Nat → Nat → Constant}
      (hg : ∀ {m n}, Word.Fits width m → Word.Fits 2 n →
        (g m n).IsEncoded (Word.encode 1 t ++ (Word.encode width m ++ Word.encode 2 n))) :
      Consumes (do return g (← word width) (← u16))
        fun bytes c => c.IsEncoded (Word.encode 1 t ++ bytes) := by
    apply (Consumes.word width).bind
    rintro _ m ⟨rfl, hm⟩
    apply (Consumes.word 2).bind_pure
    rintro _ n ⟨rfl, hn⟩
    exact hg hm hn
  split
  · apply (Consumes.word 2).bind
    rintro _ length ⟨rfl, hlength⟩
    apply (Consumes.take length).bind_pure
    rintro _ body ⟨rfl, rfl⟩
    exact .utf8 hlength
  · apply Consumes.i32.bind_pure
    rintro _ _ ⟨n, rfl, rfl, hn⟩
    exact .integer hn
  · apply (Consumes.word 4).bind_pure
    rintro _ n ⟨rfl, hn⟩
    exact .float hn
  · apply Consumes.u64.bind_pure
    rintro _ n ⟨rfl, hn⟩
    exact .long hn
  · apply Consumes.u64.bind_pure
    rintro _ n ⟨rfl, hn⟩
    exact .double hn
  · exact one .classRef
  · exact one .string
  · exact two .fieldRef
  · exact two .methodRef
  · exact two .interfaceMethodRef
  · exact two .nameAndType
  · exact two .methodHandle
  · exact one .methodType
  · exact two .dynamic
  · exact two .invokeDynamic
  · exact one .moduleRef
  · exact one .packageRef
  · exact Consumes.throw _

/-- The bytes of a constant are read as the constant. -/
theorem ConstantEntry.reads (e : ConstantEntry) (entry : Nat) :
    Reads (Constant.read entry) e.bytes e.constant := by
  obtain ⟨c, bytes, h⟩ := e
  cases h with
  | utf8 short => exact (Reads.tag 1).bind ((Reads.u16 short).bind (Reads.take rfl).bind_pure)
  | integer hn => exact (Reads.tag 3).bind (Reads.u32 hn).bind_pure.bind_pure
  | float hn => exact (Reads.tag 4).bind (Reads.u32 hn).bind_pure
  | long hn => exact (Reads.tag 5).bind (Reads.u64 hn).bind_pure
  | double hn => exact (Reads.tag 6).bind (Reads.u64 hn).bind_pure
  | classRef hn => exact (Reads.tag 7).bind (Reads.u16 hn).bind_pure
  | string hn => exact (Reads.tag 8).bind (Reads.u16 hn).bind_pure
  | fieldRef hm hn => exact (Reads.tag 9).bind ((Reads.u16 hm).bind (Reads.u16 hn).bind_pure)
  | methodRef hm hn => exact (Reads.tag 10).bind ((Reads.u16 hm).bind (Reads.u16 hn).bind_pure)
  | interfaceMethodRef hm hn =>
    exact (Reads.tag 11).bind ((Reads.u16 hm).bind (Reads.u16 hn).bind_pure)
  | nameAndType hm hn => exact (Reads.tag 12).bind ((Reads.u16 hm).bind (Reads.u16 hn).bind_pure)
  | methodHandle hm hn => exact (Reads.tag 15).bind ((Reads.u8 hm).bind (Reads.u16 hn).bind_pure)
  | methodType hn => exact (Reads.tag 16).bind (Reads.u16 hn).bind_pure
  | dynamic hm hn => exact (Reads.tag 17).bind ((Reads.u16 hm).bind (Reads.u16 hn).bind_pure)
  | invokeDynamic hm hn => exact (Reads.tag 18).bind ((Reads.u16 hm).bind (Reads.u16 hn).bind_pure)
  | moduleRef hn => exact (Reads.tag 19).bind (Reads.u16 hn).bind_pure
  | packageRef hn => exact (Reads.tag 20).bind (Reads.u16 hn).bind_pure

/-! ### Slots -/

/-- The slots that a constant fills. -/
def Constant.slots (c : Constant) : List Constant :=
  if c.isWide then [c, .unusable] else [c]

theorem Constant.slots_of_isWide {c : Constant} (h : c.isWide = true) : c.slots = [c, .unusable] :=
  if_pos h

theorem Constant.slots_of_not_isWide {c : Constant} (h : c.isWide = false) : c.slots = [c] := by
  rw [slots, h]
  rfl

/-- The slots that constants fill, one after the other. -/
def slotsFilled (entries : List ConstantEntry) : List Constant :=
  entries.flatMap fun e => e.constant.slots

@[simp]
theorem slotsFilled_nil : slotsFilled [] = [] :=
  rfl

@[simp]
theorem slotsFilled_cons (e : ConstantEntry) (entries : List ConstantEntry) :
    slotsFilled (e :: entries) = e.constant.slots ++ slotsFilled entries :=
  rfl

/-- The constants are found again among their slots. -/
theorem filter_slotsFilled (entries : List ConstantEntry) :
    (slotsFilled entries).filter (· ≠ .unusable) = entries.map ConstantEntry.constant := by
  induction entries with
  | nil => rfl
  | cons e entries ih =>
    have hkept : e.constant.slots.filter (· ≠ .unusable) = [e.constant] := by
      have hused := e.encoded.ne_unusable
      cases hwide : e.constant.isWide with
      | true => simp [Constant.slots_of_isWide hwide, hused]
      | false => simp [Constant.slots_of_not_isWide hwide, hused]
    rw [slotsFilled_cons, List.filter_append, ih, hkept]
    rfl

/-- Behind a constant that fills one slot, or a slot that cannot be used, a slot cannot be used if
and only if the slot before it holds a long or double. -/
theorem getElem?_slotsFilled_eq_unusable_iff (entries : List ConstantEntry) {first : Constant}
    (hfirst : first.isWide = false) (i : Nat) :
    (first :: slotsFilled entries)[i + 1]? = some .unusable ↔
      ∃ c, (first :: slotsFilled entries)[i]? = some c ∧ c.isWide = true := by
  induction entries generalizing first i with
  | nil =>
    cases i with
    | zero => simp [hfirst]
    | succ i => simp
  | cons e entries ih =>
    have hused := e.encoded.ne_unusable
    rw [slotsFilled_cons]
    cases hwide : e.constant.isWide with
    | true =>
      rw [Constant.slots_of_isWide hwide]
      -- The first two slots are looked at here, and those after the second slot of the constant
      -- below it.
      rcases i with _ | _ | i
      · simp [hfirst, hused]
      · simp [hwide]
      · have hunusable : Constant.unusable.isWide = false := rfl
        exact ih hunusable i
    | false =>
      rw [Constant.slots_of_not_isWide hwide]
      cases i with
      | zero => simp [hfirst, hused]
      | succ i => exact ih hwide i

/-! ### Filling the slots -/

/-- The decoder fails on the bytes with the fault, wherever they stand and whatever follows. -/
def Decoder.Refuses {α : Type} (d : Decoder α) (bytes : List UInt8) (fault : Fault) : Prop :=
  ∀ before rest, ∃ c, d.run ⟨before, bytes ++ rest⟩ = .error fault c

theorem Decoder.Refuses.throw {α : Type} (fault : Fault) :
    Refuses (throw fault : Decoder α) [] fault :=
  fun before rest => ⟨⟨before, rest⟩, rfl⟩

section Refuses

variable {α β : Type} {d : Decoder α} {f : α → Decoder β} {bytes bytes' : List UInt8} {a : α}
  {fault : Fault}

/-- A decoder whose value is known, and one that fails after it. -/
theorem Decoder.Reads.refuses_bind (hd : Reads d bytes a) (hf : Refuses (f a) bytes' fault) :
    Refuses (d >>= f) (bytes ++ bytes') fault := by
  intro before rest
  have hfirst := hd before (bytes' ++ rest)
  obtain ⟨c, hsecond⟩ := hf (bytes.reverse ++ before) rest
  simp only [EStateM.run] at hfirst hsecond
  refine ⟨c, ?_⟩
  simp only [EStateM.run, Bind.bind, EStateM.bind, List.append_assoc, hfirst, hsecond]

theorem Decoder.Refuses.bind (hd : Refuses d bytes fault) : Refuses (d >>= f) bytes fault := by
  intro before rest
  obtain ⟨c, hrun⟩ := hd before rest
  simp only [EStateM.run] at hrun
  refine ⟨c, ?_⟩
  simp only [EStateM.run, Bind.bind, EStateM.bind, hrun]

end Refuses

namespace ConstantPool

variable {e : ConstantEntry} {count entry : Nat} {bytes : List UInt8} {slots : List Constant}

/-- A constant that does not need a second slot, and what comes after it. -/
theorem reads_slots_narrow (hwide : e.constant.isWide = false)
    (hslots : Reads (readSlots count (entry + 1)) bytes slots) :
    Reads (readSlots (count + 1) entry) (e.bytes ++ bytes) (e.constant :: slots) := by
  cases count with
  | zero =>
    have hlast : Reads (do
        let rest ← readSlots 0 (entry + 1)
        return e.constant :: rest) bytes (e.constant :: slots) := hslots.bind_pure
    refine (e.reads entry).bind ?_
    simp only [hwide, Bool.false_eq_true, if_false]
    exact hlast
  | succ count =>
    refine (e.reads entry).bind ?_
    simp only [hwide, Bool.false_eq_true, if_false]
    exact hslots.bind_pure

theorem reads_slots_wide (hwide : e.constant.isWide = true)
    (hslots : Reads (readSlots count (entry + 2)) bytes slots) :
    Reads (readSlots (count + 2) entry) (e.bytes ++ bytes) (e.constant :: .unusable :: slots) := by
  refine (e.reads entry).bind ?_
  simp only [hwide, if_true]
  exact hslots.bind_pure

/-- Constants that fill the slots exactly are read into them. -/
theorem reads_slotsFilled (entries : List ConstantEntry) (entry : Nat) :
    Reads (readSlots (slotsFilled entries).length entry) (entries.flatMap ConstantEntry.bytes)
      (slotsFilled entries) := by
  induction entries generalizing entry with
  | nil => exact Reads.pure []
  | cons e entries ih =>
    rw [List.flatMap_cons, slotsFilled_cons]
    cases hwide : e.constant.isWide with
    | true =>
      rw [Constant.slots_of_isWide hwide]
      exact reads_slots_wide hwide (ih (entry + 2))
    | false =>
      rw [Constant.slots_of_not_isWide hwide]
      exact reads_slots_narrow hwide (ih (entry + 1))

/-- A long or double that finds only one slot is refused. -/
theorem refuses_slots (entries : List ConstantEntry) {e : ConstantEntry}
    (hwide : e.constant.isWide = true) (entry : Nat) :
    Refuses (readSlots ((slotsFilled entries).length + 1) entry)
      (entries.flatMap ConstantEntry.bytes ++ e.bytes) (.malformed .splitWideConstant) := by
  induction entries generalizing entry with
  | nil =>
    rw [← List.append_nil (_ ++ e.bytes)]
    refine (e.reads entry).refuses_bind ?_
    simp only [hwide, if_true]
    exact (Refuses.throw _).bind
  | cons first entries ih =>
    rw [List.flatMap_cons, slotsFilled_cons, List.append_assoc]
    cases hfirst : first.constant.isWide with
    | true =>
      rw [Constant.slots_of_isWide hfirst]
      refine (first.reads entry).refuses_bind ?_
      simp only [hfirst, if_true]
      exact (ih (entry + 2)).bind
    | false =>
      rw [Constant.slots_of_not_isWide hfirst]
      refine (first.reads entry).refuses_bind ?_
      simp only [hfirst, Bool.false_eq_true, if_false]
      exact (ih (entry + 1)).bind

/-- Whatever is read into slots are constants that fill them exactly. -/
theorem consumes_slots (count entry : Nat) : Consumes (readSlots count entry) fun bytes slots =>
    ∃ entries, bytes = entries.flatMap ConstantEntry.bytes ∧ slots = slotsFilled entries ∧
      slots.length = count := by
  fun_induction readSlots count entry with
  | case1 => exact .pure ⟨[], rfl, rfl, rfl⟩
  | case2 entry =>
    apply (consumes_constant entry).bind
    intro bytes constant hencoded
    cases hwide : constant.isWide with
    | true =>
      simp only [if_true]
      exact Consumes.throw _
    | false =>
      refine Consumes.pure ⟨[⟨constant, bytes, hencoded⟩], by simp, ?_, rfl⟩
      rw [slotsFilled_cons, Constant.slots_of_not_isWide hwide]
      rfl
  | case3 count entry ihwide ih =>
    apply (consumes_constant entry).bind
    intro bytes constant hencoded
    cases hwide : constant.isWide with
    | true =>
      simp only [if_true]
      apply ihwide.bind_pure
      rintro _ _ ⟨entries, rfl, rfl, hlength⟩
      refine ⟨⟨constant, bytes, hencoded⟩ :: entries, rfl, ?_, by simp [hlength]⟩
      rw [slotsFilled_cons, Constant.slots_of_isWide hwide]
      rfl
    | false =>
      simp only [Bool.false_eq_true, if_false]
      apply ih.bind_pure
      rintro _ _ ⟨entries, rfl, rfl, hlength⟩
      refine ⟨⟨constant, bytes, hencoded⟩ :: entries, rfl, ?_, by simp [hlength]⟩
      rw [slotsFilled_cons, Constant.slots_of_not_isWide hwide]
      rfl

/-! ### The pool -/

/-- The bytes of a pool with the given number of slots and constants. -/
def bytesOf (n : Nat) (entries : List ConstantEntry) : List UInt8 :=
  Word.encode 2 n ++ entries.flatMap ConstantEntry.bytes

theorem length_bytesOf (n : Nat) (entries : List ConstantEntry) :
    (bytesOf n entries).length = 2 + (entries.map fun e => e.bytes.length).sum := by
  rw [bytesOf, List.length_append, Word.length_encode, List.length_flatMap]

theorem reads_bytesOf {n : Nat} {entries : List ConstantEntry} (hn : Word.Fits 2 n)
    (hcount : (slotsFilled entries).length + 1 = n) :
    Reads ConstantPool.read (bytesOf n entries) ⟨(.unusable :: slotsFilled entries).toArray⟩ := by
  subst hcount
  refine (Reads.u16 hn).bind ?_
  rw [if_neg (Nat.succ_ne_zero _)]
  exact (reads_slotsFilled entries 1).bind_pure

theorem refuses_bytesOf {n : Nat} {entries : List ConstantEntry} {e : ConstantEntry}
    (hn : Word.Fits 2 n) (hwide : e.constant.isWide = true)
    (hcount : (slotsFilled entries).length + 2 = n) :
    Refuses ConstantPool.read (bytesOf n entries ++ e.bytes) (.malformed .splitWideConstant) := by
  subst hcount
  rw [bytesOf, List.append_assoc]
  refine (Reads.u16 hn).refuses_bind ?_
  rw [if_neg (Nat.succ_ne_zero _)]
  exact (refuses_slots entries hwide 1).bind

theorem consumes_pool : Consumes ConstantPool.read fun bytes pool => ∃ n entries, Word.Fits 2 n ∧
    bytes = bytesOf n entries ∧ pool.slots.toList = .unusable :: slotsFilled entries ∧
    (slotsFilled entries).length + 1 = n := by
  apply (Consumes.word 2).bind
  rintro _ n ⟨rfl, hn⟩
  by_cases hzero : n = 0
  · rw [if_pos hzero]
    exact Consumes.throw _
  · rw [if_neg hzero]
    apply (consumes_slots (n - 1) 1).bind_pure
    rintro _ _ ⟨entries, rfl, rfl, hlength⟩
    exact ⟨n, entries, hn, rfl, List.toList_toArray, by omega⟩

end ConstantPool

/-- A pool that is read has as many slots as it says. Index zero and the second slot of a long or
double cannot be used, and no others; the slots that can be used hold, in order, the constants whose
bytes follow the number of slots, and these bytes and no more are read. Every pool whose constants
fill its slots is read, and one in which a long or double would begin in the last slot is
refused. -/
theorem readPool_exact (before after : List UInt8) :
    (∀ pool c, ConstantPool.read.run ⟨before, after⟩ = .ok pool c →
      ∃ n entries rest, Word.Fits 2 n ∧ after = ConstantPool.bytesOf n entries ++ rest ∧
        c = ⟨(ConstantPool.bytesOf n entries).reverse ++ before, rest⟩ ∧
        c.position = before.length + (2 + (entries.map fun e => e.bytes.length).sum) ∧
        pool.size = n ∧
        (∀ i < n, pool.get? i = some .unusable ↔
          i = 0 ∨ ∃ constant, pool.get? (i - 1) = some constant ∧ constant.isWide = true) ∧
        pool.slots.toList.filter (· ≠ .unusable) = entries.map ConstantEntry.constant) ∧
    (∀ n entries rest, Word.Fits 2 n → (slotsFilled entries).length + 1 = n →
      after = ConstantPool.bytesOf n entries ++ rest →
      ConstantPool.read.run ⟨before, after⟩ = .ok ⟨(.unusable :: slotsFilled entries).toArray⟩
        ⟨(ConstantPool.bytesOf n entries).reverse ++ before, rest⟩) ∧
    ∀ n entries rest, ∀ e : ConstantEntry, Word.Fits 2 n → e.constant.isWide = true →
      (slotsFilled entries).length + 1 = n - 1 →
      after = ConstantPool.bytesOf n entries ++ e.bytes ++ rest →
      ∃ c, ConstantPool.read.run ⟨before, after⟩ = .error (.malformed .splitWideConstant) c := by
  refine ⟨?_, ?_, ?_⟩
  · intro pool c hrun
    obtain ⟨bytes, rest, rfl, rfl, n, entries, hn, rfl, hslots, hcount⟩ :=
      ConstantPool.consumes_pool before after pool c hrun
    have hget (i : Nat) : pool.get? i = (Constant.unusable :: slotsFilled entries)[i]? := by
      rw [ConstantPool.get?, ← Array.getElem?_toList, hslots]
    refine ⟨n, entries, rest, hn, rfl, rfl, ?_, ?_, ?_, ?_⟩
    · rw [Cursor.position, List.length_append, List.length_reverse, ConstantPool.length_bytesOf,
        Nat.add_comm]
    · rw [ConstantPool.size, ← Array.length_toList, hslots, List.length_cons, hcount]
    · intro i hi
      rw [hget, hget]
      cases i with
      | zero => simp
      | succ i =>
        rw [getElem?_slotsFilled_eq_unusable_iff entries rfl i, Nat.add_sub_cancel]
        exact ⟨Or.inr, fun h => h.resolve_left (Nat.succ_ne_zero i)⟩
    · rw [hslots, List.filter_cons_of_neg (by simp), filter_slotsFilled]
  · rintro n entries rest hn hcount rfl
    exact ConstantPool.reads_bytesOf hn hcount before rest
  · rintro n entries rest e hn hwide hcount rfl
    exact ConstantPool.refuses_bytesOf hn hwide (by omega) before rest

/-- A pool with a long between a text and a class. -/
def mixedEntries : List ConstantEntry :=
  [⟨_, _, @Constant.IsEncoded.utf8 [0x61] (by decide)⟩,
    ⟨_, _, @Constant.IsEncoded.long 7 (by decide)⟩,
    ⟨_, _, @Constant.IsEncoded.classRef 1 (by decide)⟩]

theorem readPool_exact_mixedEntries :
    (∃ pool c, ∃ entries : List ConstantEntry,
      ConstantPool.read.run ⟨[0xbe], ConstantPool.bytesOf 5 mixedEntries ++ [0x21]⟩ = .ok pool c ∧
        pool.size = 5 ∧ pool.get? 3 = some .unusable ∧
        pool.slots.toList.filter (· ≠ .unusable) = entries.map ConstantEntry.constant ∧
        c.position = 1 + (2 + (entries.map fun e => e.bytes.length).sum)) ∧
      ∃ c, ConstantPool.read.run ⟨[0xbe], ConstantPool.bytesOf 3 (mixedEntries.take 1) ++
        mixedEntries[1].bytes ++ [0x21]⟩ = .error (.malformed .splitWideConstant) c := by
  obtain ⟨hread, hfilled, -⟩ :=
    readPool_exact [0xbe] (ConstantPool.bytesOf 5 mixedEntries ++ [0x21])
  have hrun := hfilled 5 mixedEntries [0x21] (by decide) rfl rfl
  obtain ⟨n, entries, rest, -, -, -, hposition, hsize, hunusable, hused⟩ := hread _ _ hrun
  have hthird := (hunusable 3 (hsize ▸ by decide)).mpr (Or.inr ⟨_, rfl, rfl⟩)
  obtain ⟨-, -, hrefused⟩ := readPool_exact [0xbe]
    (ConstantPool.bytesOf 3 (mixedEntries.take 1) ++ mixedEntries[1].bytes ++ [0x21])
  exact ⟨⟨_, _, entries, hrun, rfl, hthird, hused, hposition⟩,
    hrefused 3 (mixedEntries.take 1) [0x21] mixedEntries[1] (by decide) rfl rfl rfl⟩

end CallForest.ClassFile
