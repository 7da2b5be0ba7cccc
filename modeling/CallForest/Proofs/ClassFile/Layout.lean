import CallForest.Proofs.ClassFile.Truncation

/-!
# The layout of class files

A class file is a row of numbers, constants and tables. A table has its length in front and then its
entries, which are again rows of numbers and tables, or attributes, which have their length in
bytes in front. What stands in a file is described here by how it is written, without a reader: the
bytes of the file begin with the bytes of its entries. No file can be taken apart in two ways, and a
file that is read is taken apart in just this way.

## Main definitions

* `Table`, `AttributeEntry`, `MemberEntry`, `ClassEntries` — what stands in a class file;
* `Unambiguous` — what is written tells what it was written from;
* `lastNamed` — the attribute that counts, of several with one name;
* `Decoder.Consumes` — what a decoder that gives a value has read;
* `MemberEntry.ReadAs`, `ClassEntries.ReadAs` — what is read, told by the entries.

## Main results

* `ClassEntries.eq_of_prefix` — a class file has its entries in one way only;
* `Decoder.Consumes.bind`, `Decoder.Consumes.counted` — decoders made of decoders;
* `exists_entries_of_readImage` — a class file that is read has its entries.
-/

namespace CallForest.ClassFile

/-! ### Entries -/

/-- The two bytes of a number. -/
def shortBytes (n : UInt16) : List UInt8 :=
  Word.encode 2 n.toNat

/-- A list whose length is a word of two bytes. -/
@[ext]
structure Table (α : Type) where
  entries : List α
  few : Word.Fits 2 entries.length

/-- The length of the table and then its entries. -/
def Table.bytes {α : Type} (write : α → List UInt8) (t : Table α) : List UInt8 :=
  Word.encode 2 t.entries.length ++ t.entries.flatMap write

/-- An attribute: the index of its name and its body. -/
@[ext]
structure AttributeEntry where
  name : UInt16
  body : List UInt8
  short : Word.Fits 4 body.length

def AttributeEntry.bytes (a : AttributeEntry) : List UInt8 :=
  shortBytes a.name ++ (Word.encode 4 a.body.length ++ a.body)

/-- A field or a method: its flags, the indices of its name and its descriptor, and its
attributes. -/
@[ext]
structure MemberEntry where
  accessFlags : UInt16
  name : UInt16
  descriptor : UInt16
  attributes : Table AttributeEntry

def MemberEntry.bytes (m : MemberEntry) : List UInt8 :=
  shortBytes m.accessFlags ++ (shortBytes m.name ++ (shortBytes m.descriptor ++
    m.attributes.bytes AttributeEntry.bytes))

/-- All that stands in a class file. -/
@[ext]
structure ClassEntries where
  minor : UInt16
  major : UInt16
  /-- The bytes of the constant pool. -/
  constants : List UInt8
  pool : ConstantPool
  reads_constants : ConstantPool.read.Reads constants pool
  accessFlags : UInt16
  /-- The index of the class itself. -/
  this : UInt16
  /-- The index of the superclass. -/
  parent : UInt16
  interfaces : Table UInt16
  fields : Table MemberEntry
  methods : Table MemberEntry
  attributes : Table AttributeEntry

def ClassEntries.bytes (file : ClassEntries) : List UInt8 :=
  Word.encode 4 magicNumber ++ (shortBytes file.minor ++ (shortBytes file.major ++
    (file.constants ++ (shortBytes file.accessFlags ++ (shortBytes file.this ++
      (shortBytes file.parent ++ (file.interfaces.bytes shortBytes ++
        (file.fields.bytes MemberEntry.bytes ++ (file.methods.bytes MemberEntry.bytes ++
          file.attributes.bytes AttributeEntry.bytes)))))))))

/-! ### Words -/

namespace Word

theorem fits_decode (bytes : List UInt8) : Fits bytes.length (decode bytes) := by
  induction bytes with
  | nil => exact Nat.zero_lt_one
  | cons b bytes ih =>
    have hb := b.toNat_lt
    rw [Fits] at ih ⊢
    rw [decode_cons, List.length_cons, count_succ]
    calc b.toNat * count bytes.length + decode bytes
        < b.toNat * count bytes.length + count bytes.length := by omega
      _ = (b.toNat + 1) * count bytes.length := by rw [Nat.succ_mul]
      _ ≤ 256 * count bytes.length := Nat.mul_le_mul_right _ (by omega)
      _ = count bytes.length * 256 := Nat.mul_comm _ _

/-- Only the low bytes of a number are written. -/
theorem encode_add (width k n : Nat) : encode width (k * count width + n) = encode width n := by
  induction width generalizing k with
  | zero => rfl
  | succ width ih =>
    have hshift : k * count (width + 1) + n = (k * 256) * count width + n := by
      rw [count_succ, Nat.mul_assoc, Nat.mul_comm (count width)]
    have hpos : 0 < count width := by
      rw [count, Nat.shiftLeft_eq, Nat.one_mul]
      exact Nat.two_pow_pos _
    have hbyte : UInt8.ofNat ((k * 256 * count width + n) / count width) =
        UInt8.ofNat (n / count width) := by
      apply UInt8.toNat_inj.mp
      rw [Nat.add_comm, Nat.add_mul_div_right _ _ hpos, UInt8.toNat_ofNat', UInt8.toNat_ofNat']
      omega
    rw [encode, encode, hshift, hbyte, ih]

/-- The bytes of a word are those of its number. -/
theorem encode_decode (bytes : List UInt8) : encode bytes.length (decode bytes) = bytes := by
  induction bytes with
  | nil => rfl
  | cons b bytes ih =>
    have hlow : decode bytes < count bytes.length := fits_decode bytes
    have hhigh : (b.toNat * count bytes.length + decode bytes) / count bytes.length = b.toNat := by
      rw [Nat.add_comm, Nat.add_mul_div_right _ _ (by omega), Nat.div_eq_of_lt hlow, Nat.zero_add]
    rw [List.length_cons, encode, decode_cons, encode_add, ih, hhigh, UInt8.ofNat_toNat]

end Word

theorem shortBytes_ofNat {n : Nat} (hn : Word.Fits 2 n) :
    shortBytes (.ofNat n) = Word.encode 2 n := by
  rw [shortBytes, UInt16.toNat_ofNat_of_lt' hn]

/-- Two bytes are a number. -/
theorem exists_shortBytes {bytes : List UInt8} (h : bytes.length = 2) :
    ∃ w, bytes = shortBytes w := by
  have hfits := Word.fits_decode bytes
  have hbytes := Word.encode_decode bytes
  rw [h] at hfits hbytes
  exact ⟨.ofNat (Word.decode bytes), by rw [shortBytes_ofNat hfits, hbytes]⟩

/-! ### One way to take bytes apart -/

/-- What is written tells what it was written from, whatever follows. -/
def Unambiguous {α : Type} (write : α → List UInt8) : Prop :=
  ∀ a a' rest rest', write a ++ rest = write a' ++ rest' → a = a' ∧ rest = rest'

theorem Word.encode_inj {width n n' : Nat} (hn : Fits width n) (hn' : Fits width n')
    (h : encode width n = encode width n') : n = n' := by
  rw [← decode_encode_of_fits hn, h, decode_encode_of_fits hn']

/-- A word has a fixed number of bytes. -/
theorem Word.encode_append_inj {width n n' : Nat} {rest rest' : List UInt8} (hn : Fits width n)
    (hn' : Fits width n') (h : encode width n ++ rest = encode width n' ++ rest') :
    n = n' ∧ rest = rest' := by
  obtain ⟨hword, hrest⟩ := List.append_inj h (by rw [length_encode, length_encode])
  exact ⟨encode_inj hn hn' hword, hrest⟩

theorem unambiguous_shortBytes : Unambiguous shortBytes := by
  intro n n' rest rest' h
  have hfits (n : UInt16) : Word.Fits 2 n.toNat := n.toNat_lt
  obtain ⟨hn, hrest⟩ := Word.encode_append_inj (hfits n) (hfits n') h
  exact ⟨UInt16.toNat_inj.mp hn, hrest⟩

/-- Once the number of entries is known, one is taken off after the other. -/
theorem Unambiguous.flatMap {α : Type} {write : α → List UInt8} (h : Unambiguous write)
    {l l' : List α} {rest rest' : List UInt8} (hlength : l.length = l'.length)
    (heq : l.flatMap write ++ rest = l'.flatMap write ++ rest') : l = l' ∧ rest = rest' := by
  induction l generalizing l' with
  | nil =>
    cases l' with
    | nil => exact ⟨rfl, heq⟩
    | cons a' l' => cases hlength
  | cons a l ih =>
    cases l' with
    | nil => cases hlength
    | cons a' l' =>
      rw [List.flatMap_cons, List.flatMap_cons, List.append_assoc, List.append_assoc] at heq
      obtain ⟨rfl, hmore⟩ := h _ _ _ _ heq
      obtain ⟨rfl, hrest⟩ := ih (Nat.succ.inj hlength) hmore
      exact ⟨rfl, hrest⟩

theorem Unambiguous.table {α : Type} {write : α → List UInt8} (h : Unambiguous write) :
    Unambiguous (Table.bytes write) := by
  intro t t' rest rest' heq
  rw [Table.bytes, Table.bytes, List.append_assoc, List.append_assoc] at heq
  obtain ⟨hlength, hmore⟩ := Word.encode_append_inj t.few t'.few heq
  obtain ⟨hentries, hrest⟩ := h.flatMap hlength hmore
  exact ⟨Table.ext hentries, hrest⟩

theorem unambiguous_attribute : Unambiguous AttributeEntry.bytes := by
  intro a a' rest rest' h
  simp only [AttributeEntry.bytes, List.append_assoc] at h
  obtain ⟨hname, h⟩ := unambiguous_shortBytes _ _ _ _ h
  obtain ⟨hlength, h⟩ := Word.encode_append_inj a.short a'.short h
  obtain ⟨hbody, hrest⟩ := List.append_inj h hlength
  exact ⟨AttributeEntry.ext hname hbody, hrest⟩

theorem unambiguous_member : Unambiguous MemberEntry.bytes := by
  intro m m' rest rest' h
  simp only [MemberEntry.bytes, List.append_assoc] at h
  obtain ⟨hflags, h⟩ := unambiguous_shortBytes _ _ _ _ h
  obtain ⟨hname, h⟩ := unambiguous_shortBytes _ _ _ _ h
  obtain ⟨hdescriptor, h⟩ := unambiguous_shortBytes _ _ _ _ h
  obtain ⟨hattributes, hrest⟩ := unambiguous_attribute.table _ _ _ _ h
  exact ⟨MemberEntry.ext hflags hname hdescriptor hattributes, hrest⟩

/-- A decoder stops after the same bytes whatever follows them, so it tells where they end. -/
theorem Decoder.Reads.append_inj {α : Type} {d : Decoder α} {bytes bytes' rest rest' : List UInt8}
    {a a' : α} (h : Reads d bytes a) (h' : Reads d bytes' a')
    (heq : bytes ++ rest = bytes' ++ rest') :
    bytes = bytes' ∧ a = a' ∧ rest = rest' := by
  have hrun := h [] rest
  rw [heq, h' [] rest'] at hrun
  injection hrun with hvalue hcursor
  injection hcursor with _ hrest
  rw [hrest] at heq
  exact ⟨List.append_cancel_right heq, hvalue.symm, hrest.symm⟩

theorem unambiguous_classEntries : Unambiguous ClassEntries.bytes := by
  intro file file' rest rest' h
  simp only [ClassEntries.bytes, List.append_assoc, List.append_cancel_left_eq] at h
  -- The file is gone through field by field. Where the constants end is told by reading them, and
  -- where all other fields end by their width or by the numbers in front of them.
  obtain ⟨hminor, h⟩ := unambiguous_shortBytes _ _ _ _ h
  obtain ⟨hmajor, h⟩ := unambiguous_shortBytes _ _ _ _ h
  obtain ⟨hconstants, hpool, h⟩ := file.reads_constants.append_inj file'.reads_constants h
  obtain ⟨hflags, h⟩ := unambiguous_shortBytes _ _ _ _ h
  obtain ⟨hthis, h⟩ := unambiguous_shortBytes _ _ _ _ h
  obtain ⟨hparent, h⟩ := unambiguous_shortBytes _ _ _ _ h
  obtain ⟨hinterfaces, h⟩ := unambiguous_shortBytes.table _ _ _ _ h
  obtain ⟨hfields, h⟩ := unambiguous_member.table _ _ _ _ h
  obtain ⟨hmethods, h⟩ := unambiguous_member.table _ _ _ _ h
  obtain ⟨hattributes, hrest⟩ := unambiguous_attribute.table _ _ _ _ h
  exact ⟨ClassEntries.ext hminor hmajor hconstants hpool hflags hthis hparent hinterfaces hfields
    hmethods hattributes, hrest⟩

/-- A class file has its entries in one way only. -/
theorem ClassEntries.eq_of_prefix {file file' : ClassEntries} {bytes : List UInt8}
    (h : file.bytes <+: bytes) (h' : file'.bytes <+: bytes) : file = file' := by
  obtain ⟨rest, rfl⟩ := h
  obtain ⟨rest', h'⟩ := h'
  exact (unambiguous_classEntries _ _ _ _ h'.symm).1

/-! ### Attributes by name -/

/-- The index of the name leads to the given name. -/
def AttributeEntry.IsNamed (pool : ConstantPool) (name : String) (a : AttributeEntry) : Prop :=
  pool.utf8 a.name.toNat = .ok name
deriving Decidable

/-- The last attribute with the given name. -/
def lastNamed (pool : ConstantPool) (name : String) (attributes : List AttributeEntry) :
    Option AttributeEntry :=
  (attributes.filter (·.IsNamed pool name)).getLast?

theorem getLast?_rel {α β : Type} {R : α → β → Prop} {l : List α} {l' : List β}
    (h : List.Forall₂ R l l') : Option.Rel R l.getLast? l'.getLast? := by
  rw [← List.forall₂_reverse_iff] at h
  rw [List.getLast?_eq_head?_reverse, List.getLast?_eq_head?_reverse]
  generalize l.reverse = back at h ⊢
  generalize l'.reverse = back' at h ⊢
  cases h with
  | nil => exact .none
  | cons hlast _ => exact .some hlast

/-- If each attribute of a name has a value and the others have none, the last value is that of the
last attribute of the name. -/
theorem lastNamed_rel {α β : Type} {pool : ConstantPool} {name : String} {value? : α → Option β}
    {R : AttributeEntry → β → Prop} {attributes : List AttributeEntry} {read : List α}
    (h : List.Forall₂ (fun a v => Option.Rel R (Option.guard (·.IsNamed pool name) a) (value? v))
      attributes read) :
    Option.Rel R (lastNamed pool name attributes) (read.filterMap value?).getLast? := by
  rw [lastNamed, ← List.filterMap_eq_filter]
  exact getLast?_rel (List.rel_filterMap (fun _ _ hrel => hrel) h)

/-! ### What is read -/

namespace Decoder

variable {α β ε : Type}

/-- Whenever the decoder gives a value, it has read a stretch of bytes that belongs to the value in
the given way, and has stopped right after it. -/
def Consumes (d : Decoder α) (P : List UInt8 → α → Prop) : Prop :=
  ∀ before after a c, d.run ⟨before, after⟩ = .ok a c →
    ∃ bytes rest, after = bytes ++ rest ∧ c = ⟨bytes.reverse ++ before, rest⟩ ∧ P bytes a

namespace Consumes

variable {d : Decoder α} {f : α → Decoder β} {P Q : List UInt8 → α → Prop}
variable {R : List UInt8 → β → Prop}

theorem mono (h : Consumes d P) (hPQ : ∀ bytes a, P bytes a → Q bytes a) : Consumes d Q := by
  intro before after a c hrun
  obtain ⟨bytes, rest, hafter, hc, hP⟩ := h before after a c hrun
  exact ⟨bytes, rest, hafter, hc, hPQ bytes a hP⟩

protected theorem pure {a : α} (h : P [] a) : Consumes (pure a) P := by
  rintro before after _ _ ⟨⟩
  exact ⟨[], after, rfl, rfl, h⟩

theorem throw (fault : Fault) : Consumes (throw fault : Decoder α) P := nofun

/-- The second decoder goes on where the first has stopped. -/
protected theorem bind (hd : Consumes d P)
    (hf : ∀ bytes a, P bytes a → Consumes (f a) fun more b => R (bytes ++ more) b) :
    Consumes (d >>= f) R := by
  intro before after b c hrun
  simp only [EStateM.run, Bind.bind, EStateM.bind] at hrun
  cases hfirst : d ⟨before, after⟩ with
  | error fault c₁ =>
    rw [hfirst] at hrun
    cases hrun
  | ok a c₁ =>
    rw [hfirst] at hrun
    obtain ⟨bytes, rest, rfl, rfl, hP⟩ := hd before after a c₁ hfirst
    obtain ⟨more, rest, rfl, rfl, hR⟩ := hf bytes a hP _ _ b c hrun
    refine ⟨bytes ++ more, rest, (List.append_assoc _ _ _).symm, ?_, hR⟩
    rw [List.reverse_append, List.append_assoc]

/-- A decoder whose value is only changed. -/
theorem bind_pure {g : α → β} (hd : Consumes d P) (hg : ∀ bytes a, P bytes a → R bytes (g a)) :
    Consumes (d >>= fun a => pure (g a)) R := by
  apply hd.bind
  intro bytes a hP
  apply Consumes.pure
  rw [List.append_nil]
  exact hg bytes a hP

theorem take (n : Nat) : Consumes (Decoder.take n) fun bytes a => a = bytes ∧ bytes.length = n := by
  intro before after a c hrun
  simp only [EStateM.run, Decoder.take] at hrun
  split at hrun
  · cases hrun
  · rename_i henough
    cases hrun
    refine ⟨after.take n, after.drop n, (List.take_append_drop n after).symm, rfl, rfl, ?_⟩
    have hle := List.length_take_le n after
    omega

theorem skip (n : Nat) : Consumes (Decoder.skip n) fun bytes _ => bytes.length = n :=
  (take n).bind_pure fun _ _ h => h.2

theorem word (width : Nat) : Consumes (Decoder.word width) fun bytes n =>
    bytes = Word.encode width n ∧ Word.Fits width n := by
  apply (take width).bind_pure
  rintro _ bytes ⟨rfl, rfl⟩
  exact ⟨(Word.encode_decode bytes).symm, Word.fits_decode bytes⟩

theorem u16 : Consumes Decoder.u16 fun bytes n => ∃ w, bytes = shortBytes w ∧ n = w.toNat := by
  apply (word 2).mono
  rintro bytes n ⟨rfl, hn⟩
  exact ⟨.ofNat n, (shortBytes_ofNat hn).symm, (UInt16.toNat_ofNat_of_lt' hn).symm⟩

theorem lift {result : Except Fault α} :
    Consumes (Decoder.lift result) fun bytes a => bytes = [] ∧ result = .ok a := by
  cases result with
  | ok a => exact .pure ⟨rfl, rfl⟩
  | error fault => exact throw fault

theorem within (n : Nat) (d : Decoder α) :
    Consumes (Decoder.within n d) fun bytes a => bytes.length = n ∧ d.decode bytes = .ok a := by
  apply (take n).bind
  rintro _ bytes ⟨rfl, hn⟩
  -- The inner decoder need not use up the stretch, which is passed over as a whole.
  cases hrun : d.run (.start bytes) with
  | ok a c =>
    apply Consumes.pure
    rw [List.append_nil, decode, hrun]
    exact ⟨hn, rfl⟩
  | error fault c => exact throw fault

theorem of_settled (h : Settled d) : Consumes d (Reads d) := by
  intro before after a c hrun
  obtain ⟨bytes, ⟨rest, rfl⟩, hneeds⟩ := h before after a c hrun
  refine ⟨bytes, rest, rfl, ?_, hneeds.reads⟩
  have hstop := hneeds.reads before rest
  rw [hrun] at hstop
  cases hstop
  rfl

/-! ### Tables -/

variable {write : ε → List UInt8} {Holds : ε → α → Prop}

/-- What is read entry by entry was written entry by entry. -/
theorem times (hd : Consumes d fun bytes a => ∃ e, bytes = write e ∧ Holds e a) (n : Nat) :
    Consumes (Decoder.times d n) fun bytes as => ∃ es : List ε, es.length = n ∧
      bytes = es.flatMap write ∧ List.Forall₂ Holds es as := by
  induction n with
  | zero => exact .pure ⟨[], rfl, rfl, .nil⟩
  | succ n ih =>
    apply hd.bind
    rintro _ a ⟨e, rfl, he⟩
    apply ih.bind_pure
    rintro _ as ⟨es, rfl, rfl, hes⟩
    exact ⟨e :: es, rfl, rfl, .cons he hes⟩

theorem counted (hd : Consumes d fun bytes a => ∃ e, bytes = write e ∧ Holds e a) :
    Consumes (Decoder.counted d) fun bytes as => ∃ t : Table ε,
      bytes = t.bytes write ∧ List.Forall₂ Holds t.entries as := by
  apply (word 2).bind
  rintro _ n ⟨rfl, hn⟩
  apply (hd.times n).mono
  rintro _ as ⟨es, rfl, rfl, hes⟩
  exact ⟨⟨es, hn⟩, rfl, hes⟩

/-- An index, and what it leads to. -/
theorem index (look : Nat → Except Fault α) :
    Consumes (Decoder.u16 >>= fun index => Decoder.lift (look index)) fun bytes a =>
      ∃ w, bytes = shortBytes w ∧ look w.toNat = .ok a := by
  apply u16.bind
  rintro _ _ ⟨w, rfl, rfl⟩
  apply lift.mono
  rintro _ a ⟨rfl, ha⟩
  exact ⟨w, List.append_nil _, ha⟩

end Consumes

end Decoder

/-! ### Attributes and members -/

open Decoder

/-- A method is read with the flags, the name and the descriptor of its entry, and with the code of
its last code attribute, if it has one. -/
structure MemberEntry.ReadAs (pool : ConstantPool) (m : MemberEntry) (raw : RawMethod) : Prop where
  accessFlags : raw.accessFlags = m.accessFlags.toNat
  name : pool.utf8 m.name.toNat = .ok raw.name
  descriptor : pool.utf8 m.descriptor.toNat = .ok raw.descriptor
  code : Option.Rel (fun a code => readCode.decode a.body = .ok code)
    (lastNamed pool codeAttribute m.attributes.entries) raw.code

section Members

variable (pool : ConstantPool)

theorem consumes_text : Consumes (readText pool) fun bytes text =>
    ∃ w, bytes = shortBytes w ∧ pool.utf8 w.toNat = .ok text :=
  Consumes.index pool.utf8

/-- Attributes of one name are read from their bodies, and all others by their length only. -/
theorem consumes_attribute {α β : Type} {target : String} {d : Decoder β}
    {other : String → Nat → Decoder α} (found : β → α) (value? : α → Option β)
    (hfound : ∀ b, value? (found b) = some b)
    (hother : ∀ name length, Consumes (other name length) fun body v =>
      body.length = length ∧ value? v = none) :
    Consumes (do
      let name ← readText pool
      let length ← u32
      if name = target then return found (← within length d) else other name length)
      fun bytes v => ∃ a : AttributeEntry, bytes = a.bytes ∧
        Option.Rel (fun a b => d.decode a.body = .ok b)
          (Option.guard (·.IsNamed pool target) a) (value? v) := by
  apply (consumes_text pool).bind
  rintro _ name ⟨w, rfl, hname⟩
  apply (Consumes.word 4).bind
  rintro _ length ⟨rfl, hlength⟩
  split
  · rename_i htarget
    apply (Consumes.within length d).bind_pure
    rintro body b ⟨rfl, hdecode⟩
    refine ⟨⟨w, body, hlength⟩, rfl, ?_⟩
    have hguard : Option.guard (·.IsNamed pool target) (⟨w, body, hlength⟩ : AttributeEntry) =
        some ⟨w, body, hlength⟩ := by
      simp [AttributeEntry.IsNamed, hname, htarget]
    rw [hguard, hfound]
    exact .some hdecode
  · rename_i htarget
    apply (hother name length).mono
    rintro body v ⟨rfl, hnone⟩
    refine ⟨⟨w, body, hlength⟩, rfl, ?_⟩
    have hguard : Option.guard (·.IsNamed pool target) (⟨w, body, hlength⟩ : AttributeEntry) =
        none := by
      simp [AttributeEntry.IsNamed, hname, htarget]
    rw [hguard, hnone]
    exact .none

theorem consumes_methodAttribute : Consumes (readMethodAttribute pool) fun bytes v =>
    ∃ a : AttributeEntry, bytes = a.bytes ∧
      Option.Rel (fun a code => readCode.decode a.body = .ok code)
        (Option.guard (·.IsNamed pool codeAttribute) a) v.code? := by
  apply consumes_attribute pool MethodAttribute.code MethodAttribute.code? (fun _ => rfl)
  intro name length
  split
  · apply (Consumes.within length (readAnnotations pool)).bind_pure
    intro body list hbody
    exact ⟨hbody.1, rfl⟩
  · apply (Consumes.skip length).bind_pure
    intro body _ hlength
    exact ⟨hlength, rfl⟩

theorem consumes_classAttribute : Consumes (readClassAttribute pool) fun bytes v =>
    ∃ a : AttributeEntry, bytes = a.bytes ∧
      Option.Rel (fun a table => BootstrapTable.read.decode a.body = .ok table)
        (Option.guard (·.IsNamed pool bootstrapAttribute) a) v.bootstrap? := by
  apply consumes_attribute pool ClassAttribute.bootstrap ClassAttribute.bootstrap? (fun _ => rfl)
  intro name length
  split
  · apply (Consumes.within length (readAnnotations pool)).bind_pure
    intro body list hbody
    exact ⟨hbody.1, rfl⟩
  · apply (Consumes.skip length).bind_pure
    intro body _ hlength
    exact ⟨hlength, rfl⟩

theorem consumes_method : Consumes (readMethod pool) fun bytes raw =>
    ∃ m : MemberEntry, bytes = m.bytes ∧ m.ReadAs pool raw := by
  apply Consumes.u16.bind
  rintro _ _ ⟨accessFlags, rfl, rfl⟩
  apply (consumes_text pool).bind
  rintro _ name ⟨nameIndex, rfl, hname⟩
  apply (consumes_text pool).bind
  rintro _ descriptor ⟨descriptorIndex, rfl, hdescriptor⟩
  apply (consumes_methodAttribute pool).counted.bind_pure
  rintro _ values ⟨attributes, rfl, hvalues⟩
  exact ⟨⟨accessFlags, nameIndex, descriptorIndex, attributes⟩, rfl, rfl, hname, hdescriptor,
    lastNamed_rel hvalues⟩

end Members

/-- The body of a code attribute has the code after two limits and its own length. -/
def CodeBody (body code : List UInt8) : Prop :=
  ∃ limits more, limits.length = 4 ∧ Word.Fits 4 code.length ∧
    body = limits ++ (Word.encode 4 code.length ++ (code ++ more))

theorem codeBody_of_readCode {body code : List UInt8} (h : readCode.decode body = .ok code) :
    CodeBody body code := by
  have hconsumes : Consumes readCode CodeBody := by
    apply (Consumes.skip 4).bind
    intro limits _ hlimits
    apply (Consumes.word 4).bind
    rintro _ length ⟨rfl, hlength⟩
    apply (Consumes.take length).bind
    rintro _ code ⟨rfl, rfl⟩
    apply Consumes.u16.bind
    intro _ handlers _
    apply (Consumes.skip (handlers * 8)).bind
    intro _ _ _
    apply (Consumes.of_settled closed_settled.skipAttributes).bind_pure
    intro _ _ _
    exact ⟨limits, _, hlimits, hlength, rfl⟩
  obtain ⟨c, hrun⟩ := exists_run_of_decode h
  obtain ⟨bytes, rest, rfl, -, limits, more, hlimits, hlength, rfl⟩ := hconsumes [] body code c hrun
  exact ⟨limits, more ++ rest, hlimits, hlength, by simp only [List.append_assoc]⟩

/-- The first numbers of a field are passed over as six bytes. -/
theorem consumes_field : Consumes skipField fun bytes _ =>
    ∃ m : MemberEntry, bytes = m.bytes ∧ True := by
  have hattribute : Consumes skipAttribute fun bytes _ =>
      ∃ a : AttributeEntry, bytes = a.bytes ∧ True := by
    apply (Consumes.skip 2).bind
    intro bytes _ hbytes
    obtain ⟨name, rfl⟩ := exists_shortBytes hbytes
    apply (Consumes.word 4).bind
    rintro _ length ⟨rfl, hlength⟩
    apply (Consumes.skip length).mono
    rintro body _ rfl
    exact ⟨⟨name, body, hlength⟩, rfl, trivial⟩
  apply (Consumes.skip 6).bind
  intro bytes _ hbytes
  have hlengths : (bytes.take 2).length = 2 ∧ ((bytes.drop 2).take 2).length = 2 ∧
      (bytes.drop 4).length = 2 := by
    simp [hbytes]
  obtain ⟨accessFlags, hflags⟩ := exists_shortBytes hlengths.1
  obtain ⟨name, hname⟩ := exists_shortBytes hlengths.2.1
  obtain ⟨descriptor, hdescriptor⟩ := exists_shortBytes hlengths.2.2
  apply hattribute.counted.bind_pure
  rintro _ _ ⟨attributes, rfl, -⟩
  refine ⟨⟨accessFlags, name, descriptor, attributes⟩, ?_, trivial⟩
  have hsplit : bytes = bytes.take 2 ++ ((bytes.drop 2).take 2 ++ bytes.drop 4) := by
    have hdrop : bytes.drop 4 = (bytes.drop 2).drop 2 := by rw [List.drop_drop]
    rw [hdrop, List.take_append_drop, List.take_append_drop]
  rw [hsplit, hflags, hname, hdescriptor, List.append_assoc, List.append_assoc, MemberEntry.bytes]

/-! ### Files -/

/-- The bootstrap table, which is in the last attribute of its name. A file without one has an empty
table. -/
def ClassEntries.bootstrap (file : ClassEntries) : Except Fault BootstrapTable :=
  match lastNamed file.pool bootstrapAttribute file.attributes.entries with
  | some a => BootstrapTable.read.decode a.body
  | none => .ok {}

/-- A class file is read with the pool, the name, the methods and the bootstrap table of its
entries. -/
structure ClassEntries.ReadAs (file : ClassEntries) (image : ClassImage) : Prop where
  pool : image.pool = file.pool
  name : file.pool.className file.this.toNat = .ok image.name
  methods : List.Forall₂ (MemberEntry.ReadAs file.pool) file.methods.entries image.methods
  bootstrap : file.bootstrap = .ok image.bootstrap

theorem consumes_superName (pool : ConstantPool) :
    Consumes (readSuperName pool) fun bytes _ => ∃ w, bytes = shortBytes w := by
  apply Consumes.u16.bind
  rintro _ _ ⟨w, rfl, rfl⟩
  split
  · exact .pure ⟨w, List.append_nil _⟩
  · apply Consumes.lift.bind_pure
    rintro _ name ⟨rfl, -⟩
    exact ⟨w, List.append_nil _⟩

theorem consumes_image : Consumes readImage fun bytes image =>
    ∃ file : ClassEntries, bytes = file.bytes ∧ file.ReadAs image := by
  apply (Consumes.word 4).bind
  rintro _ magic ⟨rfl, -⟩
  split
  · exact .throw _
  rename_i hmagic
  rw [Decidable.not_not.mp hmagic]
  apply Consumes.u16.bind
  rintro _ _ ⟨minor, rfl, rfl⟩
  apply Consumes.u16.bind
  rintro _ _ ⟨major, rfl, rfl⟩
  split
  · exact .throw _
  apply (Consumes.of_settled closed_settled.readPool).bind
  intro constants pool hconstants
  apply Consumes.u16.bind
  rintro _ _ ⟨accessFlags, rfl, rfl⟩
  apply (Consumes.index pool.className).bind
  rintro _ name ⟨this, rfl, hname⟩
  apply (consumes_superName pool).bind
  rintro _ superName ⟨parent, rfl⟩
  apply (Consumes.index pool.className).counted.bind
  rintro _ _ ⟨interfaces, rfl, -⟩
  apply consumes_field.counted.bind
  rintro _ _ ⟨fields, rfl, -⟩
  apply (consumes_method pool).counted.bind
  rintro _ raws ⟨methods, rfl, hmethods⟩
  apply (consumes_classAttribute pool).counted.bind_pure
  rintro _ values ⟨attributes, rfl, hvalues⟩
  refine ⟨⟨minor, major, constants, pool, hconstants, accessFlags, this, parent, interfaces, fields,
    methods, attributes⟩, rfl, rfl, hname, hmethods, ?_⟩
  have hlast := lastNamed_rel hvalues
  simp only [ClassEntries.bootstrap]
  generalize lastNamed pool bootstrapAttribute attributes.entries = last at hlast ⊢
  generalize (values.filterMap ClassAttribute.bootstrap?).getLast? = table at hlast ⊢
  cases hlast with
  | none => rfl
  | some hdecode => exact hdecode

/-- A class file that is read has its entries, and is read by them. -/
theorem exists_entries_of_readImage {bytes : List UInt8} {image : ClassImage}
    (h : readImage.decode bytes = .ok image) :
    ∃ file : ClassEntries, file.bytes <+: bytes ∧ file.ReadAs image := by
  obtain ⟨c, hrun⟩ := exists_run_of_decode h
  obtain ⟨_, rest, hbytes, -, file, rfl, hread⟩ := consumes_image [] bytes image c hrun
  exact ⟨file, ⟨rest, hbytes.symm⟩, hread⟩

end CallForest.ClassFile
