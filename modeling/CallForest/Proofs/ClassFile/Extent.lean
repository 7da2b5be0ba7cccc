import CallForest.Proofs.ClassFile.RoundTrip

/-!
# Where a written class file ends

A class file is written with counts and lengths in front of all that is counted or has a length. If
these fit their words, a reader that gets through the file stops exactly at its end, whatever it
makes of what it reads. Attributes need no more than that: their bodies are passed over by their
length, so annotations may be nested too deep and code may be no code at all.

The constants of the file are those that were put into the pool. All of them fill one slot each, so
their number is the number of slots.

## Main definitions

* `Decoder.Spans` — a decoder that succeeds stops right after the given bytes;
* `Constant.IsSingle` — a constant that fills one slot;
* `Framed` — the bytes of an attribute of any name;
* `Build.Puts` — a step of writing that puts in such constants only;
* `ClassSpec.FitsWords` — every count, length and text of a class file fits its word.

## Main results

* `Decoder.Spans.bind`, `Decoder.Spans.within`, `Decoder.Spans.counted` — decoders made of decoders;
* `PoolBuilder.exists_reads_encode` — the pool is read as some pool;
* `Build.Puts.method`, `Build.Puts.classAttributes` — members and attributes of a class;
* `ClassSpec.spans_toBytes` — the file as a whole.
-/

namespace CallForest.ClassFile

open Decoder

namespace Decoder

variable {α β : Type}

/-- If the decoder succeeds on the bytes, wherever they stand and whatever follows, it stops right
after them. -/
def Spans (d : Decoder α) (bytes : List UInt8) : Prop :=
  ∀ before rest a c, d.run ⟨before, bytes ++ rest⟩ = .ok a c → c = ⟨bytes.reverse ++ before, rest⟩

variable {d : Decoder α} {f : α → Decoder β} {bytes bytes' : List UInt8} {a : α}

theorem Reads.spans (h : Reads d bytes a) : Spans d bytes := by
  intro before rest a' c hrun
  rw [h before rest] at hrun
  cases hrun
  rfl

/-- A decoder whose value is known, and one that goes on from there. -/
theorem Reads.spans_bind (hd : Reads d bytes a) (hf : Spans (f a) bytes') :
    Spans (d >>= f) (bytes ++ bytes') := by
  intro before rest b c hrun
  have hfirst := hd before (bytes' ++ rest)
  simp only [EStateM.run] at hfirst
  simp only [EStateM.run, Bind.bind, EStateM.bind, List.append_assoc, hfirst] at hrun
  rw [hf _ _ _ _ hrun, List.reverse_append, List.append_assoc]

namespace Spans

protected theorem pure (a : α) : Spans (pure a) [] :=
  (Reads.pure a).spans

theorem throw (fault : Fault) (bytes : List UInt8) : Spans (throw fault : Decoder α) bytes := nofun

protected theorem bind (hd : Spans d bytes) (hf : ∀ a, Spans (f a) bytes') :
    Spans (d >>= f) (bytes ++ bytes') := by
  intro before rest b c hrun
  simp only [EStateM.run, Bind.bind, EStateM.bind, List.append_assoc] at hrun
  cases hfirst : d ⟨before, bytes ++ (bytes' ++ rest)⟩ with
  | error fault c₁ =>
    rw [hfirst] at hrun
    cases hrun
  | ok a c₁ =>
    rw [hfirst] at hrun
    have hstop := hd before (bytes' ++ rest) a c₁ hfirst
    subst hstop
    rw [hf a _ _ _ _ hrun, List.reverse_append, List.append_assoc]

/-- A decoder after which nothing is read. -/
theorem bind_last (hd : Spans d bytes) (hf : ∀ a, Spans (f a) []) : Spans (d >>= f) bytes := by
  have h := hd.bind hf
  rwa [List.append_nil] at h

theorem bind_pure (hd : Spans d bytes) {g : α → β} : Spans (d >>= fun a => pure (g a)) bytes :=
  hd.bind_last fun a => .pure (g a)

theorem lift (result : Except Fault α) : Spans (Decoder.lift result) [] := by
  cases result with
  | ok a => exact .pure a
  | error fault => exact .throw fault []

theorem skip {n : Nat} (hn : bytes.length = n) : Spans (Decoder.skip n) bytes :=
  (Reads.skip hn).spans

theorem u16 (n : Nat) : Spans Decoder.u16 (Word.encode 2 n) :=
  (Reads.word_cut 2 n).spans

/-- Whatever is read from a stretch of known length, the stretch is passed over as a whole. -/
theorem within {n : Nat} (hn : bytes.length = n) (d : Decoder α) :
    Spans (Decoder.within n d) bytes := by
  apply (Reads.take hn).spans.bind_last
  intro stretch
  cases d.run (.start stretch) with
  | ok a c => exact .pure a
  | error fault c => exact .throw fault []

theorem times_zero (d : Decoder α) : Spans (Decoder.times d 0) [] :=
  .pure []

theorem times_succ {n : Nat} (hd : Spans d bytes) (hrest : Spans (Decoder.times d n) bytes') :
    Spans (Decoder.times d (n + 1)) (bytes ++ bytes') :=
  hd.bind fun _ => hrest.bind_pure

theorem times_one (hd : Spans d bytes) : Spans (Decoder.times d 1) bytes :=
  hd.bind_pure

theorem times_add {m n : Nat} (hm : Spans (Decoder.times d m) bytes)
    (hn : Spans (Decoder.times d n) bytes') :
    Spans (Decoder.times d (m + n)) (bytes ++ bytes') := by
  rw [Reads.times_add]
  exact hm.bind fun _ => hn.bind_pure

theorem counted {n : Nat} (hn : Word.Fits 2 n) (hall : Spans (Decoder.times d n) bytes) :
    Spans (Decoder.counted d) (Word.encode 2 n ++ bytes) :=
  (Reads.u16 hn).spans_bind hall

end Spans

end Decoder

/-! ### The constant pool -/

/-- The constant fills one slot. -/
def Constant.IsSingle : Constant → Prop
  | .long _ | .double _ | .unusable => False
  | _ => True

/-- If the constant is a text, its length fits its word. -/
def Constant.TextFits : Constant → Prop
  | .utf8 text => ClassFile.TextFits text
  | _ => True

instance : (c : Constant) → Decidable c.TextFits
  | .utf8 text => inferInstanceAs (Decidable (ClassFile.TextFits text))
  | .integer _ | .float _ | .long _ | .double _ | .classRef _ | .string _ | .fieldRef _ _
  | .methodRef _ _ | .interfaceMethodRef _ _ | .nameAndType _ _ | .methodHandle _ _
  | .methodType _ | .dynamic _ _ | .invokeDynamic _ _ | .moduleRef _ | .packageRef _
  | .unusable => inferInstanceAs (Decidable True)

/-- A constant that fills one slot is read as one that does, though its indices may be cut. -/
theorem Constant.exists_reads_encode {c : Constant} (hsingle : c.IsSingle) (htext : c.TextFits)
    (entry : Nat) : ∃ c', c'.isWide = false ∧ Reads (Constant.read entry) c.encode c' := by
  -- An index that is too great is cut, but as many bytes are read as were written.
  have one {g : Nat → Constant} (m : Nat) :
      Reads (do return g (← u16)) (Word.encode 2 m) (g (m % Word.count 2)) :=
    (Reads.word_cut 2 m).bind_pure
  have two {g : Nat → Nat → Constant} (m n : Nat) :
      Reads (do return g (← u16) (← u16)) (Word.encode 2 m ++ Word.encode 2 n)
        (g (m % Word.count 2) (n % Word.count 2)) :=
    (Reads.word_cut 2 m).bind (Reads.word_cut 2 n).bind_pure
  cases c with
  | utf8 text => exact ⟨.utf8 text, rfl, Constant.reads_encode (c := .utf8 text) htext entry⟩
  | integer value => exact ⟨_, rfl, (Reads.tag 3).bind ((Reads.word_cut 4 _).bind_pure.bind_pure)⟩
  | float bits => exact ⟨_, rfl, (Reads.tag 4).bind (Reads.word_cut 4 bits).bind_pure⟩
  | classRef name => exact ⟨_, rfl, (Reads.tag 7).bind (one name)⟩
  | string text => exact ⟨_, rfl, (Reads.tag 8).bind (one text)⟩
  | fieldRef owner member => exact ⟨_, rfl, (Reads.tag 9).bind (two owner member)⟩
  | methodRef owner member => exact ⟨_, rfl, (Reads.tag 10).bind (two owner member)⟩
  | interfaceMethodRef owner member => exact ⟨_, rfl, (Reads.tag 11).bind (two owner member)⟩
  | nameAndType name descriptor => exact ⟨_, rfl, (Reads.tag 12).bind (two name descriptor)⟩
  | methodHandle kind reference =>
    exact ⟨_, rfl, (Reads.tag 15).bind ((Reads.word_cut 1 kind).bind (one reference))⟩
  | methodType descriptor => exact ⟨_, rfl, (Reads.tag 16).bind (one descriptor)⟩
  | dynamic bootstrap member => exact ⟨_, rfl, (Reads.tag 17).bind (two bootstrap member)⟩
  | invokeDynamic bootstrap member => exact ⟨_, rfl, (Reads.tag 18).bind (two bootstrap member)⟩
  | moduleRef name => exact ⟨_, rfl, (Reads.tag 19).bind (one name)⟩
  | packageRef name => exact ⟨_, rfl, (Reads.tag 20).bind (one name)⟩
  | long | double | unusable => exact hsingle.elim

theorem ConstantPool.exists_reads_slots {constants : List Constant}
    (hsingle : ∀ c ∈ constants, c.IsSingle) (htext : ∀ c ∈ constants, c.TextFits) (entry : Nat) :
    ∃ slots,
      Reads (readSlots constants.length entry) (constants.flatMap Constant.encode) slots := by
  induction constants generalizing entry with
  | nil => exact ⟨[], Reads.pure []⟩
  | cons c rest ih =>
    rw [List.forall_mem_cons] at hsingle htext
    obtain ⟨first, hnarrow, hfirst⟩ := Constant.exists_reads_encode hsingle.1 htext.1 entry
    obtain ⟨slots, hrest⟩ := ih hsingle.2 htext.2 (entry + 1)
    rw [List.flatMap_cons]
    cases rest with
    | nil =>
      refine ⟨[first], hfirst.bind ?_⟩
      simp only [hnarrow, Bool.false_eq_true, if_false]
      exact Reads.pure [first]
    | cons c' rest =>
      refine ⟨first :: slots, hfirst.bind ?_⟩
      simp only [hnarrow, Bool.false_eq_true, if_false]
      exact hrest.bind_pure

namespace PoolBuilder

/-- All constants fill one slot each. -/
def Singles (p : PoolBuilder) : Prop :=
  ∀ c ∈ p.constants, c.IsSingle

/-- A pool whose count and texts fit their words is read as some pool. -/
theorem exists_reads_encode {p : PoolBuilder} (hsingle : p.Singles)
    (hcount : Word.Fits 2 (p.constants.length + 1)) (htext : ∀ c ∈ p.constants, c.TextFits) :
    ∃ pool, Reads ConstantPool.read p.encode pool := by
  obtain ⟨slots, hslots⟩ := ConstantPool.exists_reads_slots hsingle htext 1
  refine ⟨⟨(.unusable :: slots).toArray⟩, (Reads.u16 hcount).bind ?_⟩
  simp only [Nat.add_one_ne_zero, if_false, Nat.add_sub_cancel]
  exact hslots.bind_pure

end PoolBuilder

/-! ### Attributes -/

/-- The bytes are those of an attribute: an index, the length of the body and the body. -/
def Framed (bytes : List UInt8) : Prop :=
  ∃ i body, bytes = Word.encode 2 i ++ (Word.encode 4 body.length ++ body) ∧
    Word.Fits 4 body.length

section Attributes

variable {bytes : List UInt8} (h : Framed bytes) (pool : ConstantPool)

theorem spans_readText (n : Nat) : Spans (readText pool) (Word.encode 2 n) :=
  (Spans.u16 n).bind_last fun _ => .lift _

theorem spans_readClassName (n : Nat) : Spans (readClassName pool) (Word.encode 2 n) :=
  (Spans.u16 n).bind_last fun _ => .lift _

theorem spans_readSuperName (n : Nat) : Spans (readSuperName pool) (Word.encode 2 n) := by
  refine (Spans.u16 n).bind_last fun index => ?_
  split_ifs with hnone
  · exact .pure ""
  · exact (Spans.lift _).bind_pure

include h

/-- A decoder that reads the name and the length of an attribute and goes on from there. -/
theorem Framed.spans {α : Type} {k : String → Nat → Decoder α}
    (hk : ∀ name body, Spans (k name body.length) body) :
    Spans (do
      let name ← readText pool
      let length ← u32
      k name length) bytes := by
  obtain ⟨i, body, rfl, hlength⟩ := h
  exact (spans_readText pool i).bind fun name => (Reads.u32 hlength).spans_bind (hk name body)

theorem Framed.spans_methodAttribute : Spans (readMethodAttribute pool) bytes := by
  refine h.spans pool fun name body => ?_
  split_ifs with hcode hannotations
  · exact (Spans.within rfl _).bind_pure
  · exact (Spans.within rfl _).bind_pure
  · exact (Spans.skip rfl).bind_pure

theorem Framed.spans_classAttribute : Spans (readClassAttribute pool) bytes := by
  refine h.spans pool fun name body => ?_
  split_ifs with hbootstraps hannotations
  · exact (Spans.within rfl _).bind_pure
  · exact (Spans.within rfl _).bind_pure
  · exact (Spans.skip rfl).bind_pure

end Attributes

/-! ### Steps of writing -/

namespace Build

variable {α β : Type}

/-- A step of writing at the pool `p`: it puts in constants of one slot only, and its value has a
property. -/
structure Puts (p : PoolBuilder) (e : Build α) (post : α → Prop) : Prop where
  singles : p.Singles → (e p).2.Singles
  holds : post (e p).1

namespace Puts

variable {p : PoolBuilder} {e : Build α} {f : α → Build β} {Q : α → Prop} {R : β → Prop}

protected theorem pure {a : α} (h : Q a) : Puts p (pure a) Q :=
  ⟨id, h⟩

protected theorem bind (he : Puts p e Q)
    (hf : ∀ a p', e p = (a, p') → Q a → Puts p' (f a) R) : Puts p (e >>= f) R := by
  have hsecond := hf (e p).1 (e p).2 rfl he.holds
  exact ⟨fun hp => hsecond.singles (he.singles hp), hsecond.holds⟩

/-- A step of which nothing but its value is known to the steps after it. -/
theorem andThen (he : Puts p e Q) (hf : ∀ a p', Puts p' (f a) R) : Puts p (e >>= f) R :=
  he.bind fun a p' _ _ => hf a p'

theorem intern {c : Constant} (hc : c.IsSingle) : Puts p (Build.intern c) fun _ => True := by
  refine ⟨?_, trivial⟩
  intro hp
  rw [Build.intern_eq]
  exact forall_mem_place hp hc

theorem bootstrap (m : BootstrapMethod) : Puts p (Build.bootstrap m) fun _ => True := by
  refine ⟨?_, trivial⟩
  intro hp
  rwa [Build.bootstrap_eq]

theorem utf8 (text : String) : Puts p (Build.utf8 text) fun _ => True :=
  intern trivial

theorem classRef (name : String) : Puts p (Build.classRef name) fun _ => True :=
  (utf8 name).andThen fun _ _ => intern trivial

theorem string (text : String) : Puts p (Build.string text) fun _ => True :=
  (utf8 text).andThen fun _ _ => intern trivial

theorem nameAndType (name descriptor : String) :
    Puts p (Build.nameAndType name descriptor) fun _ => True :=
  (utf8 name).andThen fun _ _ => (utf8 descriptor).andThen fun _ _ => intern trivial

theorem methodRef (target : MemberRef) (ofInterface : Bool) :
    Puts p (Build.methodRef target ofInterface) fun _ => True := by
  refine (classRef _).andThen fun _ _ => (nameAndType _ _).andThen fun _ _ => intern ?_
  cases ofInterface <;> trivial

theorem methodHandle (kind reference : Nat) :
    Puts p (Build.methodHandle kind reference) fun _ => True :=
  intern trivial

theorem methodType (descriptor : String) : Puts p (Build.methodType descriptor) fun _ => True :=
  (utf8 descriptor).andThen fun _ _ => intern trivial

theorem invokeDynamic (slot : Nat) (name descriptor : String) :
    Puts p (Build.invokeDynamic slot name descriptor) fun _ => True :=
  (nameAndType name descriptor).andThen fun _ _ => intern trivial

/-! ### Annotations -/

mutual

/-- The value of an element is written in as many bytes as its size says. -/
theorem element (p : PoolBuilder) : ∀ value : ElementValue,
    Puts p (emitElement value) (fun bytes => bytes.length = value.size)
  | .const text => (utf8 text).andThen fun _ _ => .pure (by simp [ElementValue.size])
  | .enum type name => (utf8 type).andThen fun _ _ => (utf8 name).andThen fun _ _ =>
      .pure (by simp [ElementValue.size])
  | .classLiteral descriptor =>
    (utf8 descriptor).andThen fun _ _ => .pure (by simp [ElementValue.size])
  | .nested type elements => by
    refine (utf8 type).andThen fun _ p₁ => (named p₁ elements).bind fun bytes _ _ hlength => ?_
    exact .pure (by simp [ElementValue.size, hlength]; omega)
  | .array values => by
    refine (several p values).bind fun bytes _ _ hlength => ?_
    exact .pure (by simp [ElementValue.size, hlength]; omega)

theorem named (p : PoolBuilder) : ∀ elements : List (String × ElementValue),
    Puts p (emitElements elements) (fun bytes => bytes.length = ElementValue.sizeNamed elements)
  | [] => .pure rfl
  | (name, value) :: rest => by
    refine (utf8 name).andThen fun _ p₁ => (element p₁ value).bind fun first p₂ _ hfirst =>
      (named p₂ rest).bind fun others _ _ hothers => ?_
    exact .pure (by simp [ElementValue.sizeNamed, hfirst, hothers]; omega)

theorem several (p : PoolBuilder) : ∀ values : List ElementValue,
    Puts p (emitValues values) (fun bytes => bytes.length = ElementValue.sizeAll values)
  | [] => .pure rfl
  | value :: rest => by
    refine (element p value).bind fun first p₁ _ hfirst =>
      (several p₁ rest).bind fun others _ _ hothers => ?_
    exact .pure (by simp [ElementValue.sizeAll, hfirst, hothers])

end

theorem uses (p : PoolBuilder) (annotations : List AnnotationUse) :
    Puts p (emitAll annotations) (fun bytes => bytes.length = usesSize annotations) := by
  induction annotations generalizing p with
  | nil => exact .pure rfl
  | cons a rest ih =>
    have huse : Puts p (emitAnnotationUse a) (fun bytes => bytes.length = a.size) := by
      refine (utf8 a.type).andThen fun _ p₁ => (named p₁ a.elements).bind fun _ _ _ hlength => ?_
      exact .pure (by simp [AnnotationUse.size, hlength]; omega)
    refine huse.bind fun first p₁ _ hfirst => (ih p₁).bind fun others _ _ hothers => ?_
    exact .pure (by simp [usesSize, hfirst, hothers])

theorem framed {name : String} {body : Build (List UInt8)}
    (hbody : Puts p body fun bytes => Word.Fits 4 bytes.length) :
    Puts p (emitAttribute name body) Framed := by
  refine hbody.bind fun bytes _ _ hlength => (utf8 name).andThen fun i _ => .pure ?_
  exact ⟨i, bytes, List.append_assoc .., hlength⟩

/-- Annotations are one attribute, or none if there are none. -/
theorem annotations? {γ : Type} {d : Decoder γ} {annotations : List AnnotationUse}
    (hd : ∀ bytes, Framed bytes → Spans d bytes)
    (hsize : Word.Fits 4 (annotationsSize annotations)) :
    Puts p (emitAnnotations? annotations)
      (Spans (times d (if annotations.isEmpty then 0 else 1))) := by
  unfold emitAnnotations?
  split
  · exact .pure (Spans.times_zero d)
  · have hattribute : Puts p (emitAnnotations annotations) Framed := by
      apply framed
      refine (uses p annotations).bind fun bytes _ _ hlength => .pure ?_
      rwa [List.length_append, Word.length_encode, hlength]
    exact ⟨hattribute.singles, (hd _ hattribute.holds).times_one⟩

/-! ### Code -/

theorem item (p : PoolBuilder) (offset : Nat) (item : BodyItem) :
    Puts p (emitItem offset item) fun _ => True := by
  cases item with
  | invoke kind target => exact (methodRef target _).andThen fun _ _ => .pure trivial
  | lambda kind target =>
    refine (methodRef target _).andThen fun _ _ => (methodHandle _ _).andThen fun _ _ =>
      (methodType _).andThen fun _ _ => (methodType _).andThen fun _ _ => ?_
    refine (methodRef _ _).andThen fun _ _ => (methodHandle _ _).andThen fun _ _ =>
      (bootstrap _).andThen fun _ _ => (invokeDynamic _ _ _).andThen fun _ _ => .pure trivial
  | dynamic owner name =>
    exact (methodRef _ _).andThen fun _ _ => (methodHandle _ _).andThen fun _ _ =>
      (bootstrap _).andThen fun _ _ => (invokeDynamic _ _ _).andThen fun _ _ => .pure trivial
  | loadString text =>
    exact (string text).andThen fun _ _ => .pure trivial
  | tableSwitch low high => exact .pure trivial
  | lookupSwitch keys => exact .pure trivial
  | raw bytes => exact .pure trivial

theorem body (p : PoolBuilder) (offset : Nat) (items : List BodyItem) :
    Puts p (emitBody offset items) fun _ => True := by
  induction items generalizing p offset with
  | nil => exact .pure trivial
  | cons first rest ih =>
    exact (item p offset first).andThen fun _ p₁ => (ih p₁ _).andThen fun _ _ => .pure trivial

/-- The code is one attribute, or none if there is no body. -/
theorem code? (pool : ConstantPool) {m : MethodSpec}
    (hcode : ∀ items ∈ m.body, Word.Fits 4 ((emitBody 0 items p).1.length + 12)) :
    Puts p (emitCode? m)
      (Spans (times (readMethodAttribute pool) m.body.toList.length)) := by
  unfold emitCode?
  cases hbody : m.body with
  | none => exact .pure (Spans.times_zero _)
  | some items =>
    have hattribute : Puts p (emitCode m.descriptor items) Framed := by
      apply framed
      refine (body p 0 items).bind fun code p₁ hrun _ => .pure ?_
      have hlength := hcode items hbody
      rw [hrun, Word.fits_four] at hlength
      rw [Word.fits_four]
      simp only [List.length_append, Word.length_encode] at hlength ⊢
      omega
    exact ⟨hattribute.singles, (hattribute.holds.spans_methodAttribute pool).times_one⟩

/-! ### Members and attributes of a class -/

theorem method (pool : ConstantPool) {m : MethodSpec}
    (hannotations : Word.Fits 4 (annotationsSize m.annotations))
    (hcode : Word.Fits 4 (m.codeLength p + 12)) :
    Puts p (emitMethod m) (Spans (readMethod pool)) := by
  rw [emitMethod_eq]
  refine (utf8 m.name).bind fun i p₁ hname _ => (utf8 m.descriptor).bind fun j p₂ hdescriptor _ =>
    (code? pool ?_).bind fun code p₃ _ hspans =>
    (annotations? (fun _ h => h.spans_methodAttribute pool) hannotations).bind
      fun annotations p₄ _ hspans' => .pure ?_
  · intro items hitems
    rw [Option.mem_def] at hitems
    rw [MethodSpec.codeLength, hitems, hname, hdescriptor] at hcode
    exact hcode
  · have hcount : Word.Fits 2 (m.body.toList.length + if m.annotations.isEmpty then 0 else 1) := by
      rw [Word.fits_two]
      cases m.body <;> split <;> simp
    exact (Spans.u16 _).bind fun _ => (spans_readText pool i).bind fun _ =>
      (spans_readText pool j).bind fun _ =>
        (Spans.counted hcount (hspans.times_add hspans')).bind_pure

theorem methods (pool : ConstantPool) {specs : List MethodSpec}
    (hannotations : ∀ m ∈ specs, Word.Fits 4 (annotationsSize m.annotations))
    (hcodes : CodesFit specs p) :
    Puts p (emitMethods specs) (Spans (times (readMethod pool) specs.length)) := by
  induction specs generalizing p with
  | nil => exact .pure (Spans.times_zero _)
  | cons m rest ih =>
    rw [List.forall_mem_cons] at hannotations
    refine (method pool hannotations.1 hcodes.1).bind fun first p₁ hrun hfirst =>
      (ih hannotations.2 ?_).bind fun others _ _ hothers => .pure (hfirst.times_succ hothers)
    have hrest := hcodes.2
    rwa [hrun] at hrest

theorem classRefs (pool : ConstantPool) (names : List String) :
    Puts p (emitClassRefs names) (Spans (times (readClassName pool) names.length)) := by
  induction names generalizing p with
  | nil => exact .pure (Spans.times_zero _)
  | cons name rest ih =>
    refine (classRef name).andThen fun i _ => ih.bind fun others _ _ hothers => .pure ?_
    exact (spans_readClassName pool i).times_succ hothers

theorem classAttributes (pool : ConstantPool) {annotations : List AnnotationUse}
    {table : List BootstrapMethod} (hannotations : Word.Fits 4 (annotationsSize annotations))
    (htable : Word.Fits 4 (encodeBootstraps table).length) :
    Puts p (emitClassAttributes annotations table)
      (Spans (counted (readClassAttribute pool))) := by
  have hbootstraps (p : PoolBuilder) : Puts p (emitBootstraps? table)
      (Spans (times (readClassAttribute pool) (if table.isEmpty then 0 else 1))) := by
    unfold emitBootstraps?
    split
    · exact .pure (Spans.times_zero _)
    · have hattribute : Puts p (emitAttribute bootstrapAttribute (pure (encodeBootstraps table)))
          Framed := framed (.pure htable)
      exact ⟨hattribute.singles, (hattribute.holds.spans_classAttribute pool).times_one⟩
  refine (annotations? (fun _ h => h.spans_classAttribute pool) hannotations).bind
    fun first p₁ _ hfirst => (hbootstraps p₁).bind fun second _ _ hsecond => .pure ?_
  have hcount : Word.Fits 2 ((if annotations.isEmpty then 0 else 1) +
      if table.isEmpty then 0 else 1) := by
    split <;> split <;> decide
  exact Spans.counted hcount (hfirst.times_add hsecond)

end Puts

end Build

/-! ### The file -/

namespace ClassSpec

open Build

/-- Every count, length and text of the class file fits its word. Nothing is said about what the
attributes hold. -/
structure FitsWords (c : ClassSpec) : Prop where
  interfaces : Word.Fits 2 c.interfaces.length
  methods : Word.Fits 2 c.methods.length
  constants : Word.Fits 2 ((c.emit {}).2.constants.length + 1)
  texts : ∀ constant ∈ (c.emit {}).2.constants, constant.TextFits
  annotations : Word.Fits 4 (annotationsSize c.annotations)
  methodAnnotations : ∀ m ∈ c.methods, Word.Fits 4 (annotationsSize m.annotations)
  codes : CodesFit c.methods c.poolBeforeMethods
  bootstraps : Word.Fits 4 (encodeBootstraps (c.emitMembers {}).2.bootstraps).length

instance (c : ClassSpec) : Decidable c.FitsWords :=
  decidable_of_iff (Word.Fits 2 c.interfaces.length ∧ Word.Fits 2 c.methods.length ∧
      Word.Fits 2 ((c.emit {}).2.constants.length + 1) ∧
      (∀ constant ∈ (c.emit {}).2.constants, constant.TextFits) ∧
      Word.Fits 4 (annotationsSize c.annotations) ∧
      (∀ m ∈ c.methods, Word.Fits 4 (annotationsSize m.annotations)) ∧
      CodesFit c.methods c.poolBeforeMethods ∧
      Word.Fits 4 (encodeBootstraps (c.emitMembers {}).2.bootstraps).length)
    ⟨fun ⟨h₁, h₂, h₃, h₄, h₅, h₆, h₇, h₈⟩ => ⟨h₁, h₂, h₃, h₄, h₅, h₆, h₇, h₈⟩,
     fun ⟨h₁, h₂, h₃, h₄, h₅, h₆, h₇, h₈⟩ => ⟨h₁, h₂, h₃, h₄, h₅, h₆, h₇, h₈⟩⟩

/-- The members of a class, read with any pool. -/
theorem puts_emitMembers {c : ClassSpec} (h : c.FitsWords) (pool : ConstantPool) :
    Puts {} c.emitMembers (fun (_, _, interfaces, methods) =>
      Spans (times (readClassName pool) c.interfaces.length) interfaces ∧
      Spans (times (readMethod pool) c.methods.length) methods) := by
  have hparent (p : PoolBuilder) : Puts p c.emitParent fun _ => True := by
    unfold emitParent
    split
    · exact Puts.classRef _
    · exact .pure trivial
  refine (Puts.classRef c.name).bind fun this p₁ hthis _ =>
    (hparent p₁).bind fun parent p₂ hrun _ =>
    (Puts.classRefs pool c.interfaces).bind fun interfaces p₃ hinterfaces hnames =>
    (Puts.methods pool h.methodAnnotations ?_).bind fun methods _ _ hmethods =>
      .pure ⟨hnames, hmethods⟩
  have hcodes := h.codes
  rwa [poolBeforeMethods, hthis, hrun, hinterfaces] at hcodes

/-- A reader that gets through a written file stops at its end. -/
theorem spans_toBytes {c : ClassSpec} (h : c.FitsWords) : Spans readImage c.toBytes := by
  obtain ⟨⟨this, parent, interfaces, methods⟩, p, hmembers⟩ :
    ∃ members p, c.emitMembers {} = (members, p) := ⟨_, _, rfl⟩
  obtain ⟨attributes, final, hattributes⟩ :
    ∃ attributes final, emitClassAttributes c.annotations p.bootstraps p = (attributes, final) :=
    ⟨_, _, rfl⟩
  have hemit := emit_run hmembers hattributes
  -- The pool is not known before it is read, so all else is looked at with any pool.
  have hfirst (pool : ConstantPool) :
      p.Singles ∧ Spans (times (readClassName pool) c.interfaces.length) interfaces ∧
        Spans (times (readMethod pool) c.methods.length) methods := by
    have hput := puts_emitMembers h pool
    have hsingles := hput.singles nofun
    have hholds := hput.holds
    rw [hmembers] at hsingles hholds
    exact ⟨hsingles, hholds⟩
  have hlast (pool : ConstantPool) :
      final.Singles ∧ Spans (counted (readClassAttribute pool)) attributes := by
    have htable := h.bootstraps
    rw [hmembers] at htable
    have hput := Puts.classAttributes (p := p) pool h.annotations htable
    have hsingles := hput.singles (hfirst pool).1
    have hholds := hput.holds
    rw [hattributes] at hsingles hholds
    exact ⟨hsingles, hholds⟩
  have hconstants := h.constants
  have htexts := h.texts
  rw [hemit] at hconstants htexts
  obtain ⟨pool, hpool⟩ :=
    PoolBuilder.exists_reads_encode (hlast final.pool).1 hconstants htexts
  obtain ⟨-, hinterfaces, hmethods⟩ := hfirst pool
  rw [toBytes, StateT.run, hemit]
  simp only
  rw [List.append_assoc, List.append_assoc, List.append_assoc]
  refine (Reads.u32 (by decide)).spans_bind ?_
  simp only [ne_eq, not_true_eq_false, if_false]
  refine (Reads.u16 (by decide)).spans_bind ((Reads.word_cut 2 c.major).spans_bind ?_)
  split_ifs with hnew
  · exact Spans.throw _ _
  · exact hpool.spans_bind ((Spans.u16 _).bind fun _ =>
      (spans_readClassName pool this).bind fun _ =>
      (spans_readSuperName pool parent).bind fun _ =>
      (Spans.counted h.interfaces hinterfaces).bind fun _ =>
      (Reads.counted_zero skipField).spans_bind <|
      (Spans.counted h.methods hmethods).bind fun _ => (hlast pool).2.bind_pure)

end ClassSpec

end CallForest.ClassFile
