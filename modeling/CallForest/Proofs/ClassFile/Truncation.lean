import CallForest.Proofs.ClassFile.Extent
import CallForest.Proofs.ClassFile.Faults

/-!
# Class files that are cut short

A decoder is settled when each of its values comes from a stretch of bytes that decides it: whatever
follows the stretch does not matter, and with only a part of the stretch the decoder runs out of
bytes. The basic reads are settled, and so are decoders made of settled decoders. A stretch of known
length is read as a whole before anything in it is looked at, so what is read from it need not be
settled.

A class file is therefore decided by its first bytes, up to a length that the bytes themselves say,
and every shorter beginning of it is found to be too short. A file that was written is decided by no
less than all its bytes.

## Main definitions

* `Decoder.NeedsAll` — a decoder reads a stretch of bytes and needs all of it;
* `Decoder.Settled` — a decoder that reads all its values in this way.

## Main results

* `Decoder.NeedsAll.bind` — one stretch after the other;
* `Decoder.closed_settled` — decoders made of settled decoders;
* `exists_extent_of_parseClass` — the bytes that decide a class file.
-/

namespace CallForest.ClassFile

namespace Decoder

variable {α β : Type}

/-- Wherever the bytes stand, the decoder fails because there are too few of them. -/
def RunsOut (d : Decoder α) (bytes : List UInt8) : Prop :=
  ∀ before, ∃ offset length available c,
    d.run ⟨before, bytes⟩ = .error (.outOfBounds offset length available) c

/-- The decoder reads the bytes as the value, and with only a part of them it runs out of bytes. -/
structure NeedsAll (d : Decoder α) (bytes : List UInt8) (a : α) : Prop where
  reads : Reads d bytes a
  runsOut : ∀ front, front <+: bytes → front ≠ bytes → d.RunsOut front

/-- Whenever the decoder gives a value, it has read a stretch of bytes of which it needs all. -/
def Settled (d : Decoder α) : Prop :=
  ∀ before after a c, d.run ⟨before, after⟩ = .ok a c →
    ∃ bytes, bytes <+: after ∧ d.NeedsAll bytes a

/-! ### One stretch after the other -/

section Bind

variable {d : Decoder α} {f : α → Decoder β} {bytes bytes' : List UInt8} {a : α} {b : β}

theorem RunsOut.bind (h : d.RunsOut bytes) : (d >>= f).RunsOut bytes := by
  intro before
  obtain ⟨offset, length, available, c, hrun⟩ := h before
  simp only [EStateM.run] at hrun
  refine ⟨offset, length, available, c, ?_⟩
  simp only [EStateM.run, Bind.bind, EStateM.bind, hrun]

theorem RunsOut.bind_of_reads (hd : Reads d bytes a) (h : (f a).RunsOut bytes') :
    (d >>= f).RunsOut (bytes ++ bytes') := by
  intro before
  obtain ⟨offset, length, available, c, hrun⟩ := h (bytes.reverse ++ before)
  have hfirst := hd before bytes'
  simp only [EStateM.run] at hrun hfirst
  refine ⟨offset, length, available, c, ?_⟩
  simp only [EStateM.run, Bind.bind, EStateM.bind, hfirst, hrun]

namespace NeedsAll

protected theorem pure (a : α) : NeedsAll (pure a) [] a where
  reads := Reads.pure a
  runsOut _ hfront hne := absurd (List.prefix_nil.mp hfront) hne

protected theorem bind (hd : NeedsAll d bytes a) (hf : NeedsAll (f a) bytes' b) :
    NeedsAll (d >>= f) (bytes ++ bytes') b := by
  refine ⟨hd.reads.bind hf.reads, ?_⟩
  rintro front ⟨back, hback⟩ hne
  rcases List.append_eq_append_iff.mp hback with ⟨left, hleft, hrest⟩ | ⟨front', hfront, hrest⟩
  · by_cases hwhole : front = bytes
    · subst hwhole
      have hcut : (f a).RunsOut [] := by
        apply hf.runsOut [] List.nil_prefix
        intro hnil
        rw [← hnil, List.append_nil] at hne
        exact hne rfl
      simpa using RunsOut.bind_of_reads hd.reads hcut
    · exact (hd.runsOut front ⟨left, hleft.symm⟩ hwhole).bind
  · subst hfront
    apply RunsOut.bind_of_reads hd.reads
    apply hf.runsOut front' ⟨back, hrest.symm⟩
    intro hsame
    exact hne (by rw [hsame])

theorem take {n : Nat} (hn : bytes.length = n) : NeedsAll (Decoder.take n) bytes bytes where
  reads := Reads.take hn
  runsOut := by
    intro front hfront hne before
    have hshort : front.length < n := by
      have hle := hfront.length_le
      have hlength : front.length ≠ bytes.length := fun h => hne (hfront.eq_of_length h)
      omega
    have hfew : (front.take n).length < n := by
      rwa [List.take_of_length_le (Nat.le_of_lt hshort)]
    exact ⟨_, _, _, _, if_pos hfew⟩

end NeedsAll

end Bind

/-! ### Settled decoders -/

namespace Settled

variable {d : Decoder α} {f : α → Decoder β}

protected theorem pure (a : α) : Settled (pure a) := by
  rintro before after _ _ ⟨⟩
  exact ⟨[], List.nil_prefix, .pure a⟩

theorem throw (fault : Fault) : Settled (throw fault : Decoder α) := nofun

protected theorem bind (hd : Settled d) (hf : ∀ a, Settled (f a)) : Settled (d >>= f) := by
  intro before after b c hrun
  simp only [EStateM.run, Bind.bind, EStateM.bind] at hrun
  cases hfirst : d ⟨before, after⟩ with
  | error fault c₁ =>
    rw [hfirst] at hrun
    cases hrun
  | ok a c₁ =>
    rw [hfirst] at hrun
    obtain ⟨bytes, ⟨rest, rfl⟩, hneeds⟩ := hd before after a c₁ hfirst
    have hstop := hneeds.reads before rest
    simp only [EStateM.run] at hstop
    rw [hfirst] at hstop
    cases hstop
    obtain ⟨bytes', ⟨rest', rfl⟩, hneeds'⟩ := hf a _ _ b c hrun
    refine ⟨bytes ++ bytes', ?_, hneeds.bind hneeds'⟩
    rw [← List.append_assoc]
    exact List.prefix_append _ _

theorem take (n : Nat) : Settled (Decoder.take n) := by
  intro before after bytes c hrun
  simp only [EStateM.run, Decoder.take] at hrun
  split at hrun
  · cases hrun
  · rename_i henough
    cases hrun
    refine ⟨after.take n, List.take_prefix n after, .take ?_⟩
    have hle := List.length_take_le n after
    omega

/-- Once the stretch is there, its bytes decide the value. -/
theorem within (n : Nat) (d : Decoder α) : Settled (Decoder.within n d) := by
  apply (take n).bind
  intro bytes
  cases d.run (.start bytes) with
  | ok a c => exact .pure a
  | error fault c => exact .throw fault

end Settled

theorem closed_settled : Closed @Settled where
  pure := Settled.pure
  throw _ := Settled.throw _
  bind := Settled.bind
  take := Settled.take
  within n d _ := Settled.within n d

/-! ### Whole sequences -/

section Decode

variable {d : Decoder α} {bytes : List UInt8} {a : α}

theorem RunsOut.decode_eq (h : d.RunsOut bytes) :
    ∃ offset length available, d.decode bytes = .error (.outOfBounds offset length available) := by
  obtain ⟨offset, length, available, c, hrun⟩ := h []
  exact ⟨offset, length, available, by rw [decode, Cursor.start, hrun]⟩

theorem exists_run_of_decode (h : d.decode bytes = .ok a) :
    ∃ c, d.run (.start bytes) = .ok a c := by
  unfold decode at h
  cases hrun : d.run (.start bytes) with
  | error fault c =>
    rw [hrun] at h
    cases h
  | ok a' c =>
    rw [hrun] at h
    cases h
    exact ⟨c, rfl⟩

/-- A decoder that stops at the end of the bytes needs all of them. -/
theorem NeedsAll.eq_of_spans {front : List UInt8} (hneeds : NeedsAll d front a)
    (hfront : front <+: bytes) (hspans : Spans d bytes) : front = bytes := by
  obtain ⟨rest, rfl⟩ := hfront
  -- The cursor cannot stop both after the front and after the rest.
  have hstop := hspans [] [] a _ (by rw [List.append_nil]; exact hneeds.reads [] rest)
  rw [Cursor.mk.injEq] at hstop
  rw [hstop.2, List.append_nil]

end Decode

end Decoder

/-! ### Class files -/

open Decoder

theorem parseClass_eq_ok_iff {bytes : List UInt8} {scope : Option String} {parsed : ParsedClass} :
    parseClass bytes scope = .ok parsed ↔
      ∃ image, readImage.decode bytes = .ok image ∧ image.parsed scope = .ok parsed := by
  unfold parseClass
  cases readImage.decode bytes <;> simp [bind, Except.bind]

theorem ClassSpec.toBytes_eq_of_encode {c : ClassSpec} {bytes : List UInt8}
    (h : c.encode = .ok bytes) : c.toBytes = bytes := by
  unfold encode at h
  split at h
  · cases h
  · cases h
    rfl

/-- If a class file can be read, its first `c` bytes decide what is read, for some `c`: whatever
follows them is not looked at, and with any fewer of them the reader runs out of bytes. If the file
was written and everything in it fits its word, then `c` is its whole length. -/
theorem exists_extent_of_parseClass (bytes : List UInt8) (scope : Option String)
    (parsed : ParsedClass) (h : parseClass bytes scope = .ok parsed) :
    ∃ c ≤ bytes.length,
      (∀ rest, parseClass (bytes.take c ++ rest) scope = .ok parsed) ∧
      (∀ k < c, ∃ offset length available,
        parseClass (bytes.take k) scope = .error (.outOfBounds offset length available)) ∧
      ∀ spec : ClassSpec, spec.FitsWords → spec.encode = .ok bytes → c = bytes.length := by
  obtain ⟨image, himage, hparsed⟩ := parseClass_eq_ok_iff.mp h
  obtain ⟨cursor, hrun⟩ := exists_run_of_decode himage
  obtain ⟨front, hfront, hneeds⟩ := closed_settled.readImage [] bytes image cursor hrun
  refine ⟨front.length, hfront.length_le, ?_, ?_, ?_⟩
  · intro rest
    rw [← List.prefix_iff_eq_take.mp hfront]
    exact parseClass_eq_ok_iff.mpr ⟨image, hneeds.reads.decode_append rest, hparsed⟩
  · intro k hk
    obtain ⟨rest, rfl⟩ := hfront
    rw [List.take_append_of_le_length (Nat.le_of_lt hk)]
    have hcut : readImage.RunsOut (front.take k) := by
      apply hneeds.runsOut _ (List.take_prefix k front)
      intro hsame
      have hlength := congrArg List.length hsame
      rw [List.length_take] at hlength
      omega
    obtain ⟨offset, length, available, hdecode⟩ := hcut.decode_eq
    refine ⟨offset, length, available, ?_⟩
    rw [parseClass, hdecode]
    rfl
  · intro spec hfits hencode
    have hbytes : spec.toBytes = bytes := ClassSpec.toBytes_eq_of_encode hencode
    rw [hneeds.eq_of_spans hfront (hbytes ▸ spec.spans_toBytes hfits)]

theorem exists_extent_of_parseClass_orderController :
    orderController.FitsWords ∧ orderController.encode = .ok orderController.toBytes ∧
      ∃ parsed, parseClass orderController.toBytes none = .ok parsed ∧
        (∀ rest, parseClass (orderController.toBytes ++ rest) none = .ok parsed) ∧
        ∀ k < orderController.toBytes.length, ∃ offset length available,
          parseClass (orderController.toBytes.take k) none =
            .error (.outOfBounds offset length available) := by
  have hfits : orderController.FitsWords := by decide +kernel
  have hlimits : orderController.WithinLimits := withinLimits_orderController
  have hencode : orderController.encode = .ok orderController.toBytes := by
    rw [ClassSpec.encode, ClassSpec.indivisible?_eq_none hlimits.divisible]
  obtain ⟨image, himage, hinfo, -, hannotations, hraws⟩ := ClassSpec.reads_toBytes hlimits
  have hparsed := parseClass_eq_ok_iff.mpr ⟨image, himage.decode_eq,
    ClassImage.parsed_eq hinfo hannotations hraws hlimits.divisible⟩
  obtain ⟨c, -, hrest, hcut, hwhole⟩ := exists_extent_of_parseClass _ _ _ hparsed
  rw [hwhole orderController hfits hencode] at hrest hcut
  rw [List.take_length] at hrest
  exact ⟨hfits, hencode, _, hparsed, hrest, hcut⟩

end CallForest.ClassFile
