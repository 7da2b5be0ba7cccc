import CallForest.Proofs.ClassFile.Annotations
import CallForest.Proofs.ClassFile.Calls

/-!
# Methods survive writing and reading

A method is written with its name, its descriptor, its code if it has a body, and its annotations
if it has any. Reading gives back all of these, the code as bytes in which the calls of the body are
found. The bootstrap table is an attribute of the class that is written after all methods, and so
are the annotations of the class.

## Main definitions

* `MethodSpec.Fits`, `MethodSpec.codeLength` — what can be written in full;
* `MethodSpec.WrittenAs` — how a method looks when it is read.

## Main results

* `Build.Yields.method`, `Build.Yields.methods` — methods are read back;
* `Build.Yields.classRefs` — names of classes are read back;
* `BootstrapTable.reads_encode` — so is the bootstrap table;
* `Build.Yields.classAttributes` — so are the attributes of a class.
-/

namespace CallForest.ClassFile

open Decoder

variable {pool : ConstantPool} {bytes : List UInt8}

/-! ### Attributes -/

/-- A decoder that reads the name and the length of an attribute and goes on from there. -/
theorem AttributeOf.reads {α : Type} {a : α} {name : String} {Q : List UInt8 → Prop}
    {k : String → Nat → Decoder α} (h : AttributeOf pool name Q bytes)
    (hk : ∀ body, Q body → Reads (k name body.length) body a) :
    Reads (do
      let name ← readText pool
      let length ← u32
      k name length) bytes a := by
  obtain ⟨i, body, rfl, hi, hlength, hbody⟩ := h
  rw [List.append_assoc]
  exact hi.reads.bind ((Reads.u32 hlength).bind (hk body hbody))

theorem reads_methodCode {code : List UInt8}
    (h : AttributeOf pool codeAttribute (Reads readCode · code) bytes) :
    Reads (readMethodAttribute pool) bytes (.code code) := by
  refine h.reads fun body hbody => ?_
  rw [if_pos rfl]
  exact (Reads.within rfl hbody).bind_pure

theorem reads_methodAnnotations {annotations : List AnnotationUse}
    (h : AttributeOf pool visibleAnnotations (Reads (readAnnotations pool) · annotations) bytes) :
    Reads (readMethodAttribute pool) bytes (.annotations annotations) := by
  refine h.reads fun body hbody => ?_
  rw [if_neg (by decide), if_pos (by decide)]
  exact (Reads.within rfl hbody).bind_pure

theorem reads_classAnnotations {annotations : List AnnotationUse}
    (h : AttributeOf pool visibleAnnotations (Reads (readAnnotations pool) · annotations) bytes) :
    Reads (readClassAttribute pool) bytes (.annotations annotations) := by
  refine h.reads fun body hbody => ?_
  rw [if_neg (by decide), if_pos (by decide)]
  exact (Reads.within rfl hbody).bind_pure

theorem reads_classBootstraps {table : BootstrapTable}
    (h : AttributeOf pool bootstrapAttribute (Reads BootstrapTable.read · table) bytes) :
    Reads (readClassAttribute pool) bytes (.bootstrap table) := by
  refine h.reads fun body hbody => ?_
  rw [if_pos rfl]
  exact (Reads.within rfl hbody).bind_pure

/-- Code without handlers and inner attributes is read back, whatever the limits before it are. -/
theorem reads_code {limits code : List UInt8} (hlimits : limits.length = 4)
    (hcode : Word.Fits 4 code.length) :
    Reads readCode (limits ++ (Word.encode 4 code.length ++
      (code ++ (Word.encode 2 0 ++ Word.encode 2 0)))) code := by
  have hnone : Reads (counted skipAttribute) (Word.encode 2 0) [] :=
    Reads.counted_zero skipAttribute
  refine (Reads.skip hlimits).bind ((Reads.u32 hcode).bind ((Reads.take rfl).bind
    ((Reads.u16 (by decide)).bind ?_)))
  exact Reads.bind_nil (Reads.skip (by simp)) (Reads.bind_pure hnone.bind_pure)

/-! ### Methods -/

/-- The texts, flags and annotations of a method fit, and so do the instructions of its body. -/
structure MethodSpec.Fits (m : MethodSpec) : Prop where
  name : TextFits m.name
  descriptor : TextFits m.descriptor
  accessFlags : Word.Fits 2 m.accessFlags
  annotations : AnnotationsFit m.annotations
  items : ∀ body ∈ m.body, ∀ item ∈ body, item.Fits

instance (m : MethodSpec) : Decidable m.Fits :=
  decidable_of_iff (TextFits m.name ∧ TextFits m.descriptor ∧ Word.Fits 2 m.accessFlags ∧
      AnnotationsFit m.annotations ∧ ∀ body ∈ m.body, ∀ item ∈ body, item.Fits)
    ⟨fun h => ⟨h.1, h.2.1, h.2.2.1, h.2.2.2.1, h.2.2.2.2⟩,
      fun h => ⟨h.name, h.descriptor, h.accessFlags, h.annotations, h.items⟩⟩

/-- The number of bytes of the code of a method that is written at the pool `p`. The code is written
after the name and the descriptor. -/
def MethodSpec.codeLength (m : MethodSpec) (p : PoolBuilder) : Nat :=
  match m.body with
  | none => 0
  | some body =>
    (emitBody 0 body (Build.utf8 m.descriptor (Build.utf8 m.name p).2).2).1.length

/-- The length of each code attribute fits its word when the methods are written from the pool `p`
on. -/
def CodesFit : List MethodSpec → PoolBuilder → Prop
  | [], _ => True
  | m :: rest, p => Word.Fits 4 (m.codeLength p + 12) ∧ CodesFit rest (emitMethod m p).2

/-- Whether the codes fit can be computed. -/
def decideCodesFit : (specs : List MethodSpec) → (p : PoolBuilder) → Decidable (CodesFit specs p)
  | [], _ => inferInstanceAs (Decidable True)
  | m :: rest, p =>
    have := decideCodesFit rest (emitMethod m p).2
    inferInstanceAs (Decidable (Word.Fits 4 (m.codeLength p + 12) ∧
      CodesFit rest (emitMethod m p).2))

instance (specs : List MethodSpec) (p : PoolBuilder) : Decidable (CodesFit specs p) :=
  decideCodesFit specs p

/-- A method that is read is the given one, with code that makes the calls of its body. -/
structure MethodSpec.WrittenAs (pool : ConstantPool) (table : BootstrapTable) (m : MethodSpec)
    (raw : RawMethod) : Prop where
  accessFlags : raw.accessFlags = m.accessFlags
  name : raw.name = m.name
  descriptor : raw.descriptor = m.descriptor
  annotations : raw.annotations = m.annotations
  code : Option.Rel (fun body code => Calls pool table 0 code (body.filterMap BodyItem.call?))
    m.body raw.code

/-! ### Optional attributes -/

/-- The code attribute of a method, if it has a body. -/
def emitCode? (m : MethodSpec) : Build (List UInt8) :=
  match m.body with
  | some body => emitCode m.descriptor body
  | none => pure []

/-- The attribute with the given annotations, if there are any. -/
def emitAnnotations? (annotations : List AnnotationUse) : Build (List UInt8) :=
  if annotations.isEmpty then pure [] else emitAnnotations annotations

theorem emitMethod_eq (m : MethodSpec) : emitMethod m = (do
    let name ← Build.utf8 m.name
    let descriptor ← Build.utf8 m.descriptor
    let code ← emitCode? m
    let annotations ← emitAnnotations? m.annotations
    return Word.encode 2 m.accessFlags ++ (Word.encode 2 name ++ (Word.encode 2 descriptor ++
      (Word.encode 2 (m.body.toList.length + if m.annotations.isEmpty then 0 else 1) ++
        (code ++ annotations))))) := by
  unfold emitMethod emitCode? emitAnnotations?
  simp only [List.append_assoc]
  cases m.body <;> cases m.annotations <;> rfl

namespace Build.Yields

variable {q p : PoolBuilder}

/-- The code attribute holds code that makes the calls of the body. -/
theorem code (hslots : q.bootstraps.length ≤ 65535) (p : PoolBuilder) (descriptor : String)
    (body : List BodyItem) :
    Yields q p ((∀ item ∈ body, item.Fits) ∧ Word.Fits 4 ((emitBody 0 body p).1.length + 12))
      (emitCode descriptor body) (AttributeOf q.pool codeAttribute fun bytes =>
        ∃ code, Reads readCode bytes code ∧
          Calls q.pool q.table 0 code (body.filterMap BodyItem.call?)) := by
  refine attributeOf (by decide) (((Yields.body hslots p 0 body).of_imp And.left).bind
    fun code p₁ hrun => Yields.pure ?_)
  rintro ⟨⟨-, hlength⟩, hcalls⟩
  have hcode : Word.Fits 4 (code.length + 12) := by
    rwa [hrun] at hlength
  rw [Word.fits_four] at hcode
  refine ⟨?_, code, ?_, hcalls⟩
  · rw [Word.fits_four]
    simp only [List.length_append, Word.length_encode]
    omega
  · have hfits : Word.Fits 4 code.length := Word.fits_four.mpr (by omega)
    have hreads := reads_code (show (Word.encode 2 16 ++
      Word.encode 2 (slotsOf descriptor + 1)).length = 4 by simp) hfits
    simpa only [List.append_assoc] using hreads

/-- A method has a code attribute if and only if it has a body. -/
theorem code? (hslots : q.bootstraps.length ≤ 65535) (p : PoolBuilder) (m : MethodSpec) :
    Yields q p (∀ body ∈ m.body, (∀ item ∈ body, item.Fits) ∧
        Word.Fits 4 ((emitBody 0 body p).1.length + 12))
      (emitCode? m) (fun bytes => ∃ code : Option (List UInt8),
        Reads (times (readMethodAttribute q.pool) m.body.toList.length) bytes
          (code.toList.map MethodAttribute.code) ∧
        Option.Rel (fun body code => Calls q.pool q.table 0 code (body.filterMap BodyItem.call?))
          m.body code) := by
  unfold emitCode?
  cases hbody : m.body with
  | none => exact Yields.pure fun _ => ⟨none, Reads.times_zero _, .none⟩
  | some body =>
    refine ((code hslots p m.descriptor body).of_imp fun h => h body rfl).mono ?_
    rintro - bytes ⟨i, content, hbytes, hi, hlength, code, hcode, hcalls⟩
    have hattribute := reads_methodCode ⟨i, content, hbytes, hi, hlength, hcode⟩
    exact ⟨some code, hattribute.times_one, .some hcalls⟩

/-- There is an annotation attribute if and only if there are annotations. -/
theorem annotations? {α : Type} {d : Decoder α} {a : α} {annotations : List AnnotationUse}
    (hd : ∀ bytes, AttributeOf q.pool visibleAnnotations
      (Reads (readAnnotations q.pool) · annotations) bytes → Reads d bytes a) :
    Yields q p (AnnotationsFit annotations) (emitAnnotations? annotations) (fun bytes =>
      Reads (times d (if annotations.isEmpty then 0 else 1)) bytes
        (if annotations.isEmpty then [] else [a])) := by
  unfold emitAnnotations?
  split
  · exact Yields.pure fun _ => Reads.times_zero d
  · refine (Yields.annotations q p annotations).mono fun _ bytes hattribute => ?_
    exact (hd bytes hattribute).times_one

/-- A method is read back. -/
theorem method (hslots : q.bootstraps.length ≤ 65535) (p : PoolBuilder) (m : MethodSpec) :
    Yields q p (m.Fits ∧ Word.Fits 4 (m.codeLength p + 12)) (emitMethod m) (fun bytes =>
      ∃ raw, Reads (readMethod q.pool) bytes raw ∧ m.WrittenAs q.pool q.table raw) := by
  rw [emitMethod_eq]
  refine (utf8 fun h => h.1.name).bind fun i p₁ hname =>
    (utf8 fun h => h.1.1.descriptor).bind fun j p₂ hdescriptor =>
    ((code? hslots p₂ m).of_imp ?_).bind fun code p₃ _ =>
    ((annotations? fun _ => reads_methodAnnotations).of_imp fun h => h.1.1.1.1.annotations).bind
      fun annotations p₄ _ => Yields.pure ?_
  · -- The length of the code is counted from the pool after the name and the descriptor.
    rintro ⟨⟨⟨hfits, hlength⟩, -⟩, -⟩ body hbody
    rw [Option.mem_def] at hbody
    refine ⟨hfits.items body hbody, ?_⟩
    rw [MethodSpec.codeLength, hbody, hname, hdescriptor] at hlength
    exact hlength
  · rintro ⟨⟨⟨⟨⟨hfits, -⟩, hi⟩, hj⟩, code, hcode, hcalls⟩, hannotations⟩
    have hcount : Word.Fits 2 (m.body.toList.length + if m.annotations.isEmpty then 0 else 1) := by
      rw [Word.fits_two]
      cases m.body <;> split <;> simp
    have hattributes := (Reads.times_add _ _ _).symm ▸ hcode.bind hannotations.bind_pure
    refine ⟨_, (Reads.u16 hfits.accessFlags).bind (hi.reads.bind (hj.reads.bind
      ((Reads.u16 hcount).bind hattributes).bind_pure)), rfl, rfl, rfl, ?_, ?_⟩
    · cases code <;> cases m.annotations <;> simp [MethodAttribute.annotationList]
    · have hlast : ((code.toList.map MethodAttribute.code ++ if m.annotations.isEmpty then [] else
          [MethodAttribute.annotations m.annotations]).filterMap
            MethodAttribute.code?).getLast? = code := by
        cases code <;> cases m.annotations <;> rfl
      exact hlast.symm ▸ hcalls

/-- Methods are read back one after the other. -/
theorem methods (hslots : q.bootstraps.length ≤ 65535) (p : PoolBuilder)
    (specs : List MethodSpec) :
    Yields q p ((∀ m ∈ specs, m.Fits) ∧ CodesFit specs p) (emitMethods specs) (fun bytes =>
      ∃ raws, Reads (times (readMethod q.pool) specs.length) bytes raws ∧
        List.Forall₂ (MethodSpec.WrittenAs q.pool q.table) specs raws) := by
  induction specs generalizing p with
  | nil => exact Yields.pure fun _ => ⟨[], Reads.times_zero _, .nil⟩
  | cons m rest ih =>
    refine ((method hslots p m).of_imp fun h => ⟨h.1 m List.mem_cons_self, h.2.1⟩).bind
      fun first p₁ hrun => ((ih p₁).of_imp ?_).bind fun others p₂ _ => Yields.pure ?_
    · rintro ⟨⟨hfit, -, hcodes⟩, -⟩
      rw [hrun] at hcodes
      exact ⟨fun m' hm' => hfit m' (List.mem_cons_of_mem m hm'), hcodes⟩
    · rintro ⟨⟨-, raw, hfirst, hraw⟩, raws, hothers, hraws⟩
      exact ⟨raw :: raws, hfirst.bind hothers.bind_pure, .cons hraw hraws⟩

/-- Names of classes are read back one after the other. -/
theorem classRefs (q p : PoolBuilder) (names : List String) :
    Yields q p (∀ name ∈ names, TextFits name) (emitClassRefs names) (fun bytes =>
      Reads (times (readClassName q.pool) names.length) bytes names) := by
  induction names generalizing p with
  | nil => exact Yields.pure fun _ => Reads.times_zero _
  | cons name rest ih =>
    refine (classRef fun h => h name List.mem_cons_self).bind fun i p₁ _ =>
      ((ih p₁).of_imp fun h other ho => h.1 other (List.mem_cons_of_mem name ho)).bind
        fun others p₂ _ => Yields.pure ?_
    rintro ⟨⟨-, hi⟩, hothers⟩
    exact Reads.times_cons hi.reads hothers

end Build.Yields

/-! ### The bootstrap table -/

theorem reads_words {words : List Nat} (hwords : ∀ n ∈ words, Word.Fits 2 n) :
    Reads (times u16 words.length) (words.flatMap (Word.encode 2)) words := by
  induction words with
  | nil => exact Reads.times_zero _
  | cons n words ih =>
    rw [List.forall_mem_cons] at hwords
    exact Reads.times_cons (Reads.u16 hwords.1) (ih hwords.2)

/-- A bootstrap table with few arguments is read back. -/
theorem BootstrapTable.reads_encode {methods : List BootstrapMethod}
    (hcount : Word.Fits 2 methods.length) (hfit : ∀ m ∈ methods, m.Fits) :
    Reads BootstrapTable.read (encodeBootstraps methods) ⟨methods.toArray⟩ := by
  refine Reads.bind_pure (Reads.counted hcount ?_)
  clear hcount
  induction methods with
  | nil => exact Reads.times_zero _
  | cons m rest ih =>
    rw [List.forall_mem_cons] at hfit
    have harguments : Word.Fits 2 m.arguments.length := Nat.lt_of_le_of_lt hfit.1.few (by decide)
    rw [List.flatMap_cons, List.append_assoc (Word.encode 2 m.handle)]
    refine Reads.times_cons ((Reads.u16 hfit.1.handle).bind ?_) (ih hfit.2)
    exact (Reads.counted harguments (reads_words hfit.1.arguments)).bind_pure

/-- A bootstrap table with few arguments is not too long for an attribute. -/
theorem length_encodeBootstraps {methods : List BootstrapMethod}
    (hcount : Word.Fits 2 methods.length) (hfit : ∀ m ∈ methods, m.Fits) :
    Word.Fits 4 (encodeBootstraps methods).length := by
  have hentries : (methods.flatMap fun m => Word.encode 2 m.handle ++
      Word.encode 2 m.arguments.length ++ m.arguments.flatMap (Word.encode 2)).length ≤
        methods.length * 10 := by
    clear hcount
    induction methods with
    | nil => simp
    | cons m rest ih =>
      rw [List.forall_mem_cons] at hfit
      have hfew := hfit.1.few
      have hrest := ih hfit.2
      have hfirst : (m.arguments.flatMap (Word.encode 2)).length = m.arguments.length * 2 := by
        simp [List.length_flatMap, List.map_const']
      simp only [List.flatMap_cons, List.length_append, Word.length_encode, List.length_cons,
        hfirst] at hrest ⊢
      omega
  rw [Word.fits_two] at hcount
  rw [Word.fits_four, encodeBootstraps, List.length_append, Word.length_encode]
  omega

/-! ### Attributes of a class -/

/-- The bootstrap attribute, if there are bootstrap methods. -/
def emitBootstraps? (methods : List BootstrapMethod) : Build (List UInt8) :=
  if methods.isEmpty then pure [] else
    emitAttribute bootstrapAttribute (pure (encodeBootstraps methods))

/-- The attributes of a class: its annotations and the bootstrap table. -/
def emitClassAttributes (annotations : List AnnotationUse) (methods : List BootstrapMethod) :
    Build (List UInt8) := do
  let first ← emitAnnotations? annotations
  let second ← emitBootstraps? methods
  return Word.encode 2 ((if annotations.isEmpty then 0 else 1) +
    if methods.isEmpty then 0 else 1) ++ (first ++ second)

namespace Build.Yields

/-- There is a bootstrap attribute if and only if there are bootstrap methods. -/
theorem bootstraps? (q p : PoolBuilder) (methods : List BootstrapMethod) :
    Yields q p (Word.Fits 2 methods.length ∧ ∀ m ∈ methods, m.Fits) (emitBootstraps? methods)
      (fun bytes => Reads (times (readClassAttribute q.pool) (if methods.isEmpty then 0 else 1))
        bytes (if methods.isEmpty then [] else [.bootstrap ⟨methods.toArray⟩])) := by
  unfold emitBootstraps?
  split
  · exact Yields.pure fun _ => Reads.times_zero _
  · have hbody : Yields q p (Word.Fits 2 methods.length ∧ ∀ m ∈ methods, m.Fits)
        (pure (encodeBootstraps methods)) (fun bytes => Word.Fits 4 bytes.length ∧
          Reads BootstrapTable.read bytes ⟨methods.toArray⟩) :=
      Yields.pure fun h =>
        ⟨length_encodeBootstraps h.1 h.2, BootstrapTable.reads_encode h.1 h.2⟩
    refine (attributeOf (by decide) hbody).mono fun _ bytes hattribute => ?_
    exact (reads_classBootstraps hattribute).times_one

/-- The attributes of a class are read back. -/
theorem classAttributes (q p : PoolBuilder) (annotations : List AnnotationUse)
    (methods : List BootstrapMethod) :
    Yields q p (AnnotationsFit annotations ∧ Word.Fits 2 methods.length ∧ ∀ m ∈ methods, m.Fits)
      (emitClassAttributes annotations methods) (fun bytes =>
        ∃ attributes, Reads (counted (readClassAttribute q.pool)) bytes attributes ∧
          attributes.flatMap ClassAttribute.annotationList = annotations ∧
          ((attributes.filterMap ClassAttribute.bootstrap?).getLast?).getD {} =
            ⟨methods.toArray⟩) := by
  refine ((annotations? fun _ => reads_classAnnotations).of_imp And.left).bind fun first p₁ _ =>
    ((bootstraps? q p₁ methods).of_imp fun h => h.1.2).bind fun second p₂ _ => Yields.pure ?_
  rintro ⟨⟨-, hfirst⟩, hsecond⟩
  have hcount : Word.Fits 2 ((if annotations.isEmpty then 0 else 1) +
      if methods.isEmpty then 0 else 1) := by
    split <;> split <;> decide
  have hattributes := (Reads.times_add _ _ _).symm ▸ hfirst.bind hsecond.bind_pure
  refine ⟨_, (Reads.u16 hcount).bind hattributes, ?_, ?_⟩
  · cases annotations <;> cases methods <;> simp [ClassAttribute.annotationList]
  · cases annotations <;> cases methods <;> rfl

end Build.Yields

end CallForest.ClassFile
