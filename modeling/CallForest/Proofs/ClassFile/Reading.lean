import CallForest.ClassFile.Cursor

/-!
# What a decoder reads

A decoder reads a stretch of bytes as a value when, wherever the stretch stands and whatever follows
it, the decoder gives the value and stops right after the stretch. Decoders that run one after the
other read their stretches one after the other, so a format is followed field by field.

## Main definitions

* `Decoder.Reads` — a decoder reads a stretch of bytes as a value.

## Main results

* `Reads.pure`, `Reads.bind` — decoders one after the other;
* `Reads.take`, `Reads.word` — the basic reads;
* `Reads.within`, `Reads.times_cons`, `Reads.counted` — stretches with a length or a count in front;
* `Reads.decode_eq` — a decoder on the whole of what it reads.
-/

namespace CallForest.ClassFile

namespace Decoder

variable {α β : Type}

/-- The decoder reads the bytes as the value, wherever they stand and whatever follows. -/
def Reads (d : Decoder α) (bytes : List UInt8) (a : α) : Prop :=
  ∀ before rest, d.run ⟨before, bytes ++ rest⟩ = .ok a ⟨bytes.reverse ++ before, rest⟩

namespace Reads

variable {d : Decoder α} {f : α → Decoder β} {bytes bytes' : List UInt8} {a : α} {b : β}

protected theorem pure (a : α) : Reads (pure a) [] a :=
  fun _ _ => rfl

protected theorem bind (hd : Reads d bytes a) (hf : Reads (f a) bytes' b) :
    Reads (d >>= f) (bytes ++ bytes') b := by
  intro before rest
  have hfirst := hd before (bytes' ++ rest)
  have hsecond := hf (bytes.reverse ++ before) rest
  simp only [EStateM.run] at hfirst hsecond
  simp only [EStateM.run, Bind.bind, EStateM.bind, List.append_assoc, hfirst, hsecond,
    List.reverse_append]

/-- A decoder that reads nothing itself. -/
theorem bind_nil (hd : Reads d [] a) (hf : Reads (f a) bytes b) : Reads (d >>= f) bytes b :=
  hd.bind hf

/-- A decoder after which nothing is read. -/
theorem bind_last (hd : Reads d bytes a) (hf : Reads (f a) [] b) : Reads (d >>= f) bytes b := by
  have h := hd.bind hf
  rwa [List.append_nil] at h

/-- A decoder whose value is only changed. -/
theorem bind_pure (hd : Reads d bytes a) {g : α → β} :
    Reads (d >>= fun a => pure (g a)) bytes (g a) :=
  hd.bind_last (Reads.pure (g a))

theorem lift (a : α) : Reads (Decoder.lift (.ok a)) [] a :=
  Reads.pure a

/-! ### Basic reads -/

theorem take {n : Nat} (hn : bytes.length = n) : Reads (Decoder.take n) bytes bytes := by
  intro before rest
  subst hn
  simp only [EStateM.run, Decoder.take, List.take_left, List.drop_left, Nat.lt_irrefl, if_false]

theorem skip {n : Nat} (hn : bytes.length = n) : Reads (Decoder.skip n) bytes () :=
  (take hn).bind_pure

/-- A number that may be too great for its word is read as what is left of it. -/
theorem word_cut (width n : Nat) :
    Reads (Decoder.word width) (Word.encode width n) (n % Word.count width) := by
  have h := (take (Word.length_encode width n)).bind_pure (g := Word.decode)
  rwa [Word.decode_encode] at h

theorem word {width n : Nat} (hn : Word.Fits width n) :
    Reads (Decoder.word width) (Word.encode width n) n := by
  have h := word_cut width n
  rwa [Nat.mod_eq_of_lt hn] at h

theorem u8 {n : Nat} (hn : Word.Fits 1 n) : Reads Decoder.u8 (Word.encode 1 n) n :=
  word hn

theorem u16 {n : Nat} (hn : Word.Fits 2 n) : Reads Decoder.u16 (Word.encode 2 n) n :=
  word hn

theorem u32 {n : Nat} (hn : Word.Fits 4 n) : Reads Decoder.u32 (Word.encode 4 n) n :=
  word hn

theorem i32 {n : Int} (hn : Word.FitsInt n) :
    Reads Decoder.i32 (Word.encode 4 (Word.unsigned 32 n)) n := by
  have h := (u32 (Word.fits_unsigned n)).bind_pure (g := Word.signed 32)
  rwa [Word.signed_unsigned hn] at h

/-- A single byte as a number. -/
theorem tag (t : UInt8) : Reads Decoder.u8 [t] t.toNat := by
  have h := u8 t.toNat_lt
  have hbyte : Word.encode 1 t.toNat = [t] := by
    simp [Word.encode]
  rwa [hbyte] at h

/-! ### Lengths and counts -/

theorem within {n : Nat} (hn : bytes.length = n) (hd : Reads d bytes a) :
    Reads (Decoder.within n d) bytes a := by
  have hrun : d.run (.start bytes) = .ok a ⟨bytes.reverse, []⟩ := by
    have h := hd [] []
    rwa [List.append_nil, List.append_nil] at h
  refine (take hn).bind_last ?_
  rw [hrun]
  exact Reads.pure a

theorem times_zero (d : Decoder α) : Reads (Decoder.times d 0) [] [] :=
  Reads.pure []

theorem times_cons {as : List α} (hfirst : Reads d bytes a)
    (hrest : Reads (Decoder.times d as.length) bytes' as) :
    Reads (Decoder.times d (a :: as).length) (bytes ++ bytes') (a :: as) :=
  hfirst.bind hrest.bind_pure

theorem times_one (h : Reads d bytes a) : Reads (Decoder.times d 1) bytes [a] :=
  h.bind_pure

theorem times_add (d : Decoder α) (m n : Nat) :
    Decoder.times d (m + n) = Decoder.times d m >>= fun front =>
      Decoder.times d n >>= fun back => Pure.pure (front ++ back) := by
  induction m with
  | zero => simp [Decoder.times]
  | succ m ih => simp [Nat.succ_add, Decoder.times, ih]

theorem counted {as : List α} (hcount : Word.Fits 2 as.length)
    (hall : Reads (Decoder.times d as.length) bytes as) :
    Reads (Decoder.counted d) (Word.encode 2 as.length ++ bytes) as :=
  (u16 hcount).bind hall

theorem counted_zero (d : Decoder α) : Reads (Decoder.counted d) (Word.encode 2 0) [] :=
  (u16 (by decide)).bind_last (times_zero d)

/-- A decoder that first looks how many bytes there are, of which there are at least those that it
reads. -/
theorem of_remaining {f : Nat → Decoder α} (hf : ∀ n, bytes.length ≤ n → Reads (f n) bytes a) :
    Reads (do f (← get).after.length) bytes a := by
  intro before rest
  refine hf (bytes ++ rest).length ?_ before rest
  simp

/-! ### Whole sequences -/

theorem decode_append (hd : Reads d bytes a) (rest : List UInt8) :
    d.decode (bytes ++ rest) = .ok a := by
  simp only [Decoder.decode, Cursor.start, hd [] rest]

theorem decode_eq (hd : Reads d bytes a) : d.decode bytes = .ok a := by
  have h := hd.decode_append []
  rwa [List.append_nil] at h

end Reads

end Decoder

end CallForest.ClassFile
