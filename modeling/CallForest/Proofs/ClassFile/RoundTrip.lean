import CallForest.Proofs.ClassFile.Members

/-!
# Reading a class file undoes writing it

A class that stays within the limits of the format is written and read back with all that its
specification says: names, flags, and one record per method with its parameters, its way to be
entered and the methods it calls. Only the bridges to a method of the same name and parameter types
are left out.

The pool that the reader finds is the one that the writer ends with, while the bootstrap table that
it finds is the one that stands when the last method has been written. What is said about the
methods is therefore said about the pool with these constants and that table.

## Main definitions

* `ClassSpec.WithinLimits` — what the format can hold;
* `ClassSpec.info`, `ClassSpec.record`, `ClassSpec.IsShadow` — what a class file should say.

## Main results

* `ClassSpec.reads_toBytes` — the file is read back as an image of the class;
* `ClassImage.record_eq`, `withoutShadows_rel` — the image is interpreted as the class says;
* `parseClass_encode` — reading a class file undoes writing it.
-/

namespace CallForest.ClassFile

open Decoder Build

/-! ### What a class file should say -/

/-- The call site of a method, whose parameters are taken to be none if they cannot be told
apart. -/
def MemberRef.callSite (target : MemberRef) : CallSite where
  signature := methodSignature target.owner target.name target.descriptor
  owner := target.owner
  name := target.name
  descriptor := target.descriptor
  parameters := (Descriptor.parameters? target.descriptor).getD []

namespace MethodSpec

/-- The methods that a method calls or makes a lambda of, each signature once. -/
def callees (m : MethodSpec) : List CallSite :=
  CallSite.distinct [] (((m.body.getD []).filterMap BodyItem.call?).map fun call => call.2.callSite)

/-- The part of a method's identity inside its class. -/
def key (m : MethodSpec) : String × String :=
  (m.name, Descriptor.identifying m.descriptor)

/-- The shape of a method for the classification of entry points. -/
def shape (m : MethodSpec) : MethodShape where
  name := m.name
  isPublic := Access.isPublic m.accessFlags
  isStatic := Access.isStatic m.accessFlags
  isSynthetic := Access.isSynthetic m.accessFlags

/-- The parameters of the method and of all methods it calls can be told apart. -/
structure Divisible (m : MethodSpec) : Prop where
  own : (Descriptor.parameters? m.descriptor).isSome
  called : ∀ call ∈ (m.body.getD []).filterMap BodyItem.call?,
    (Descriptor.parameters? call.2.descriptor).isSome

instance (m : MethodSpec) : Decidable m.Divisible :=
  decidable_of_iff ((Descriptor.parameters? m.descriptor).isSome ∧
      ∀ call ∈ (m.body.getD []).filterMap BodyItem.call?,
        (Descriptor.parameters? call.2.descriptor).isSome)
    ⟨fun h => ⟨h.1, h.2⟩, fun h => ⟨h.own, h.called⟩⟩

end MethodSpec

namespace ClassSpec

/-- The class as its records see it. -/
def info (c : ClassSpec) : ClassInfo where
  name := c.name
  superName := if c.superName = some objectClass then "" else c.superName.getD ""
  interfaces := c.interfaces
  basePath := (ClassMapping.of c.annotations).basePath

/-- The record of a method of the class. -/
def record (c : ClassSpec) (m : MethodSpec) : MethodRecord where
  signature := methodSignature c.name m.name m.descriptor
  name := m.name
  descriptor := m.descriptor
  parameters := (Descriptor.parameters? m.descriptor).getD []
  owner := c.info
  isAbstract := Access.isAbstract m.accessFlags
  entryKind := (EntryPoint.classify (.of c.annotations) m.shape m.annotations).kind
  mappingPath := (EntryPoint.classify (.of c.annotations) m.shape m.annotations).path
  requestMethods := (EntryPoint.classify (.of c.annotations) m.shape m.annotations).requestMethods
  callees := m.callees

/-- The method is a bridge, and a method with its name and parameter types is there that is
none. -/
def IsShadow (c : ClassSpec) (m : MethodSpec) : Prop :=
  Access.isBridge m.accessFlags = true ∧
    ∃ m' ∈ c.methods, Access.isBridge m'.accessFlags = false ∧ m'.key = m.key

instance (c : ClassSpec) : DecidablePred c.IsShadow :=
  fun m => inferInstanceAs (Decidable (Access.isBridge m.accessFlags = true ∧
    ∃ m' ∈ c.methods, Access.isBridge m'.accessFlags = false ∧ m'.key = m.key))

end ClassSpec

/-! ### Interpreting what was read -/

section Interpretation

variable {pool : ConstantPool} {table : BootstrapTable}

theorem callSite_of? (target : MemberRef)
    (h : (Descriptor.parameters? target.descriptor).isSome) :
    CallSite.of? target.owner target.name target.descriptor = some target.callSite := by
  obtain ⟨parameters, hparameters⟩ := Option.isSome_iff_exists.mp h
  rw [CallSite.of?, MemberRef.callSite, hparameters]
  rfl

/-- The call sites of code that makes the given calls. -/
theorem callSites_eq {code : List UInt8} {calls : List (InvokeKind × MemberRef)}
    (hcalls : Calls pool table 0 code calls)
    (hdivisible : ∀ call ∈ calls, (Descriptor.parameters? call.2.descriptor).isSome) :
    callSites pool table none code =
      .ok (CallSite.distinct [] (calls.map fun call => call.2.callSite)) := by
  obtain ⟨found, hfound, rfl⟩ := hcalls.invocations_eq
  simp only [callSites, hfound, bind, Except.bind, Option.all_none, List.filter_true]
  rw [mapM_eq_ok_map (g := fun call : Invocation => call.target.callSite), List.map_map]
  · rfl
  · intro call hcall
    rw [callSite_of? call.target (hdivisible call.callee (List.mem_map_of_mem hcall))]

/-- A method is recorded as its class says. -/
theorem ClassImage.record_eq {c : ClassSpec} {image : ClassImage} {m : MethodSpec}
    {raw : RawMethod} (hinfo : image.info = c.info)
    (hannotations : image.annotations = c.annotations)
    (hraw : m.WrittenAs image.pool image.bootstrap raw) (hm : m.Divisible) :
    image.record none raw = .ok (c.record m) := by
  obtain ⟨flags, name, descriptor, annotations, code⟩ := raw
  obtain ⟨hflags, hname, hdescriptor, hlist, hcode⟩ := hraw
  subst hflags hname hdescriptor hlist
  obtain ⟨parameters, hparameters⟩ := Option.isSome_iff_exists.mp hm.own
  have hblank : MethodRecord.of? image.info m.name m.descriptor = some
      { signature := methodSignature c.name m.name m.descriptor, name := m.name,
        descriptor := m.descriptor, parameters, owner := c.info } := by
    rw [MethodRecord.of?, hparameters, hinfo]
    rfl
  have hcalled := hm.called
  simp only [ClassImage.record, hblank, ClassSpec.record, ClassImage.mapping, hannotations,
    hparameters, MethodSpec.callees]
  cases hbody : m.body with
  | none =>
    rw [hbody] at hcode
    cases hcode
    rfl
  | some body =>
    rw [hbody] at hcode hcalled
    cases hcode with
    | some hcalls =>
      simp only [callSites_eq hcalls hcalled]
      rfl

/-- The methods that are left are those that are no shadows. -/
theorem withoutShadows_rel {c : ClassSpec} {raws : List RawMethod}
    (hraws : List.Forall₂ (MethodSpec.WrittenAs pool table) c.methods raws) :
    List.Forall₂ (MethodSpec.WrittenAs pool table) (c.methods.filter fun m => ¬ c.IsShadow m)
      (withoutShadows raws) := by
  have hkey {m : MethodSpec} {raw : RawMethod} (h : m.WrittenAs pool table raw) :
      m.key = raw.key := by
    rw [RawMethod.key, MethodSpec.key, h.name, h.descriptor]
  have hkeys : (c.methods.filter fun m => !Access.isBridge m.accessFlags).map MethodSpec.key =
      (raws.filter fun raw => !Access.isBridge raw.accessFlags).map RawMethod.key := by
    rw [← List.forall₂_eq_eq_eq, List.forall₂_map_left_iff, List.forall₂_map_right_iff]
    refine (List.rel_filter ?_ hraws).imp fun _ _ h => hkey h
    intro m raw h
    simp only [h.accessFlags]
  refine List.rel_filter ?_ hraws
  intro m raw h
  simp only [← hkeys, ← hkey h, h.accessFlags, ClassSpec.IsShadow]
  simp [and_assoc]

/-- An image whose methods are those of the class is interpreted as the class says. -/
theorem ClassImage.parsed_eq {c : ClassSpec} {image : ClassImage} (hinfo : image.info = c.info)
    (hannotations : image.annotations = c.annotations)
    (hraws : List.Forall₂ (MethodSpec.WrittenAs image.pool image.bootstrap) c.methods image.methods)
    (hdivisible : ∀ m ∈ c.methods, m.Divisible) :
    image.parsed none = .ok
      { info := c.info, accessFlags := image.accessFlags,
        methods := (c.methods.filter fun m => ¬ c.IsShadow m).map c.record } := by
  have hkept : ∀ m ∈ c.methods.filter fun m => ¬ c.IsShadow m, m.Divisible :=
    fun m hm => hdivisible m (List.mem_of_mem_filter hm)
  have hrecords := ((List.forall₂_and_left _ _).mpr ⟨hkept, withoutShadows_rel hraws⟩).imp
    fun m raw h => ClassImage.record_eq hinfo hannotations h.2 h.1
  rw [ClassImage.parsed, mapM_of_forall₂ hrecords, hinfo]
  rfl

end Interpretation

/-! ### Limits -/

namespace ClassSpec

/-- The index of the superclass, zero for none. -/
def emitParent (c : ClassSpec) : Build Nat :=
  match c.superName with
  | some name => Build.classRef name
  | none => pure 0

/-- All but the attributes of a class: the indices of the class and its superclass, the interfaces
and the methods. -/
def emitMembers (c : ClassSpec) : Build (Nat × Nat × List UInt8 × List UInt8) := do
  let this ← Build.classRef c.name
  let parent ← c.emitParent
  let interfaces ← emitClassRefs c.interfaces
  let methods ← emitMethods c.methods
  return (this, parent, interfaces, methods)

/-- The pool when the first method is written. -/
def poolBeforeMethods (c : ClassSpec) : PoolBuilder :=
  (emitClassRefs c.interfaces (c.emitParent (Build.classRef c.name {}).2).2).2

/-- What the format can hold: every text, count, index and length fits its word, the version is
known, annotations are not too deep, bytes are plain instructions, and parameters can be told
apart. -/
structure WithinLimits (c : ClassSpec) : Prop where
  name : TextFits c.name
  superName : ∀ name ∈ c.superName, TextFits name
  interfaceCount : c.interfaces.length ≤ 65535
  interfaces : ∀ name ∈ c.interfaces, TextFits name
  accessFlags : Word.Fits 2 c.accessFlags
  major : c.major ≤ newestMajor
  annotations : AnnotationsFit c.annotations
  methodCount : c.methods.length ≤ 65535
  methods : ∀ m ∈ c.methods, m.Fits
  codes : CodesFit c.methods c.poolBeforeMethods
  divisible : ∀ m ∈ c.methods, m.Divisible
  pool : (c.emit {}).2.InLimits

instance (c : ClassSpec) : Decidable c.WithinLimits :=
  decidable_of_iff (TextFits c.name ∧ (∀ name ∈ c.superName, TextFits name) ∧
      c.interfaces.length ≤ 65535 ∧ (∀ name ∈ c.interfaces, TextFits name) ∧
      Word.Fits 2 c.accessFlags ∧ c.major ≤ newestMajor ∧ AnnotationsFit c.annotations ∧
      c.methods.length ≤ 65535 ∧ (∀ m ∈ c.methods, m.Fits) ∧
      CodesFit c.methods c.poolBeforeMethods ∧ (∀ m ∈ c.methods, m.Divisible) ∧
      (c.emit {}).2.InLimits)
    ⟨fun ⟨h₁, h₂, h₃, h₄, h₅, h₆, h₇, h₈, h₉, h₁₀, h₁₁, h₁₂⟩ =>
      ⟨h₁, h₂, h₃, h₄, h₅, h₆, h₇, h₈, h₉, h₁₀, h₁₁, h₁₂⟩,
     fun ⟨h₁, h₂, h₃, h₄, h₅, h₆, h₇, h₈, h₉, h₁₀, h₁₁, h₁₂⟩ =>
      ⟨h₁, h₂, h₃, h₄, h₅, h₆, h₇, h₈, h₉, h₁₀, h₁₁, h₁₂⟩⟩

/-! ### Writing and reading the file -/

theorem ite_bind {α β : Type} (b : Prop) [Decidable b] (x y : Build α) (f : α → Build β) :
    (if b then x else y) >>= f = if b then x >>= f else y >>= f := by
  split <;> rfl

theorem emit_eq (c : ClassSpec) : c.emit = (do
    let (this, parent, interfaces, methods) ← c.emitMembers
    let bootstraps := (← get).bootstraps
    let attributes ← emitClassAttributes c.annotations bootstraps
    return Word.encode 2 c.accessFlags ++ (Word.encode 2 this ++ (Word.encode 2 parent ++
      ((Word.encode 2 c.interfaces.length ++ interfaces) ++ (Word.encode 2 0 ++
        ((Word.encode 2 c.methods.length ++ methods) ++ attributes)))))) := by
  unfold emit emitMembers emitParent emitClassAttributes emitAnnotations? emitBootstraps?
  cases c.superName <;> simp only [List.append_assoc, bind_assoc, pure_bind, ite_bind]

/-- No class stands at index zero. -/
theorem ne_zero_of_className {q : PoolBuilder} {name : String} {i : Nat}
    (h : Finds q.pool.className name i) : i ≠ 0 := by
  rintro rfl
  have hclass : q.pool.className 0 = .error (.invalidConstant 0 .classRef) := by
    simp [ConstantPool.className, ConstantPool.get?, PoolBuilder.pool]
  rw [Finds, hclass] at h
  cases h.2

/-- The superclass is read back, as empty where it is of no interest. -/
theorem yields_emitParent (q p : PoolBuilder) (c : ClassSpec) :
    Yields q p (∀ name ∈ c.superName, TextFits name) c.emitParent (fun i =>
      Reads (readSuperName q.pool) (Word.encode 2 i) c.info.superName) := by
  unfold emitParent info
  cases c.superName with
  | none =>
    refine Yields.pure fun _ => (Reads.u16 (by decide)).bind_last ?_
    rw [if_pos rfl]
    exact Reads.pure ""
  | some name =>
    refine (Yields.classRef fun h => h name rfl).mono fun _ i hi => ?_
    refine (Reads.u16 hi.1).bind_last ?_
    simp only [ne_zero_of_className hi, if_false, hi.2, Option.some.injEq, Option.getD_some]
    exact Reads.pure _

/-- The members of a class are read back. -/
theorem yields_emitMembers {q : PoolBuilder} (hslots : q.bootstraps.length ≤ 65535)
    (c : ClassSpec) :
    Yields q {} c.WithinLimits c.emitMembers (fun (this, parent, interfaces, methods) =>
      Finds q.pool.className c.name this ∧
      Reads (readSuperName q.pool) (Word.encode 2 parent) c.info.superName ∧
      Reads (times (readClassName q.pool) c.interfaces.length) interfaces c.interfaces ∧
      ∃ raws, Reads (times (readMethod q.pool) c.methods.length) methods raws ∧
        List.Forall₂ (MethodSpec.WrittenAs q.pool q.table) c.methods raws) := by
  refine (Yields.classRef WithinLimits.name).bind fun this p₁ hthis =>
    ((yields_emitParent q p₁ c).of_imp fun h => h.1.superName).bind fun parent p₂ hparent =>
    ((Yields.classRefs q p₂ c.interfaces).of_imp fun h => h.1.1.interfaces).bind
      fun interfaces p₃ hinterfaces =>
    ((Yields.methods hslots p₃ c.methods).of_imp ?_).bind fun methods p₄ _ => Yields.pure ?_
  · rintro ⟨⟨⟨h, -⟩, -⟩, -⟩
    refine ⟨h.methods, ?_⟩
    have hcodes := h.codes
    rwa [poolBeforeMethods, hthis, hparent, hinterfaces] at hcodes
  · rintro ⟨⟨⟨⟨-, hname⟩, hsuper⟩, hnames⟩, hmethods⟩
    exact ⟨hname, hsuper, hnames, hmethods⟩

theorem emit_run {c : ClassSpec} {this parent : Nat} {interfaces methods attributes : List UInt8}
    {p final : PoolBuilder} (hmembers : c.emitMembers {} = ((this, parent, interfaces, methods), p))
    (hattributes : emitClassAttributes c.annotations p.bootstraps p = (attributes, final)) :
    c.emit {} = (Word.encode 2 c.accessFlags ++ (Word.encode 2 this ++ (Word.encode 2 parent ++
      ((Word.encode 2 c.interfaces.length ++ interfaces) ++ (Word.encode 2 0 ++
        ((Word.encode 2 c.methods.length ++ methods) ++ attributes))))), final) := by
  rw [emit_eq]
  simp only [bind, StateT.bind, hmembers, get, getThe, MonadStateOf.get, StateT.get, pure,
    hattributes]
  rfl

/-- The file is read back as an image of the class. -/
theorem reads_toBytes {c : ClassSpec} (h : c.WithinLimits) :
    ∃ image : ClassImage, Reads readImage c.toBytes image ∧ image.info = c.info ∧
      image.accessFlags = c.accessFlags ∧ image.annotations = c.annotations ∧
      List.Forall₂ (MethodSpec.WrittenAs image.pool image.bootstrap) c.methods image.methods := by
  obtain ⟨⟨this, parent, interfaces, methods⟩, p, hmembers⟩ :
    ∃ members p, c.emitMembers {} = (members, p) := ⟨_, _, rfl⟩
  obtain ⟨attributes, final, hattributes⟩ :
    ∃ attributes final, emitClassAttributes c.annotations p.bootstraps p = (attributes, final) :=
    ⟨_, _, rfl⟩
  have hemit := emit_run hmembers hattributes
  have hlimits : final.InLimits := by
    have hpool := h.pool
    rwa [hemit] at hpool
  have hgrows : p ≤ final := by
    have hgrows := (Yields.classAttributes final p c.annotations p.bootstraps).grows
    rwa [hattributes] at hgrows
  -- The methods are read with the final constants and the table as it stands after them.
  let q : PoolBuilder := { constants := final.constants, bootstraps := p.bootstraps }
  have hslots : q.bootstraps.length ≤ 65535 := (hlimits.mono hgrows).bootstraps
  have hread := (yields_emitMembers hslots c).holds h hlimits.constants
  rw [hmembers] at hread
  obtain ⟨hadds, hname, hsuper, hinterfaces, raws, hmethods, hraws⟩ :=
    hread ⟨hgrows.1, List.prefix_rfl⟩
  have hsound := hadds.sound PoolBuilder.sound_empty
  have hlast := (Yields.classAttributes final p c.annotations p.bootstraps).holds
    ⟨h.annotations, Nat.lt_succ_of_le hslots, hsound.bootstraps⟩ hlimits.constants
  rw [hattributes] at hlast
  obtain ⟨hadds', list, hlist, hannotations, htable⟩ := hlast (le_refl final)
  refine ⟨{ pool := final.pool, accessFlags := c.accessFlags, name := c.name,
            superName := c.info.superName, interfaces := c.interfaces, methods := raws,
            annotations := list.flatMap ClassAttribute.annotationList,
            bootstrap := ((list.filterMap ClassAttribute.bootstrap?).getLast?).getD {} },
    ?_, ?_, rfl, hannotations, ?_⟩
  · rw [toBytes, StateT.run, hemit]
    simp only
    rw [List.append_assoc, List.append_assoc, List.append_assoc]
    refine (Reads.u32 (by decide)).bind ?_
    simp only [ne_eq, not_true_eq_false, if_false]
    have hmajor : Word.Fits 2 c.major := Nat.lt_of_le_of_lt h.major (by decide)
    refine (Reads.u16 (by decide)).bind ((Reads.u16 hmajor).bind ?_)
    simp only [Nat.not_lt.mpr h.major, if_false]
    have hinterfaceCount := Nat.lt_succ_of_le h.interfaceCount
    have hmethodCount := Nat.lt_succ_of_le h.methodCount
    have hpool := PoolBuilder.reads_encode (hadds'.sound hsound).constants hlimits.constants
    exact hpool.bind ((Reads.u16 h.accessFlags).bind (hname.reads.bind (hsuper.bind
      ((Reads.counted hinterfaceCount hinterfaces).bind ((Reads.counted_zero skipField).bind
        (((Reads.u16 hmethodCount).bind hmethods).bind hlist.bind_pure))))))
  · simp only [ClassImage.info, ClassImage.mapping, hannotations]
    rfl
  · rw [htable]
    exact hraws

/-- Every descriptor that has to be counted belongs to the method or to one that it calls. -/
theorem isSome_of_mem_countedDescriptors {m : MethodSpec} (hm : m.Divisible) {descriptor : String}
    (hcounted : descriptor ∈ m.countedDescriptors) :
    (Descriptor.parameters? descriptor).isSome := by
  have hcalled := hm.called
  unfold MethodSpec.countedDescriptors at hcounted
  split at hcounted
  · exact absurd hcounted List.not_mem_nil
  · rename_i body hbody
    rw [hbody, Option.getD_some] at hcalled
    rcases List.mem_cons.mp hcounted with rfl | hcounted
    · exact hm.own
    · obtain ⟨item, hitem, hsome⟩ := List.mem_filterMap.mp hcounted
      split at hsome
      · rename_i target
        cases hsome
        exact hcalled (.interface, target) (List.mem_filterMap.mpr ⟨_, hitem, rfl⟩)
      · cases hsome

/-- Nothing keeps the class from being written if all parameters can be told apart. -/
theorem indivisible?_eq_none {c : ClassSpec} (h : ∀ m ∈ c.methods, m.Divisible) :
    c.indivisible? = none := by
  rw [indivisible?, List.find?_eq_none]
  intro descriptor hdescriptor
  obtain ⟨m, hm, hcounted⟩ := List.mem_flatMap.mp hdescriptor
  have hsome := isSome_of_mem_countedDescriptors (h m hm) hcounted
  rw [← Option.not_isSome, hsome]
  decide

end ClassSpec

/-- Reading a class file undoes writing it: within the limits of the format a class can be written,
and what is read back are its names and flags and the record of each of its methods, in order,
except for the bridges to a method that is there too. -/
theorem parseClass_encode (c : ClassSpec) (h : c.WithinLimits) :
    ∃ bytes, c.encode = .ok bytes ∧ parseClass bytes none = .ok
      { info := c.info, accessFlags := c.accessFlags,
        methods := (c.methods.filter fun m => ¬ c.IsShadow m).map c.record } := by
  refine ⟨c.toBytes, ?_, ?_⟩
  · rw [ClassSpec.encode, ClassSpec.indivisible?_eq_none h.divisible]
  · obtain ⟨image, himage, hinfo, hflags, hannotations, hraws⟩ := ClassSpec.reads_toBytes h
    have hparsed := ClassImage.parsed_eq hinfo hannotations hraws h.divisible
    rw [hflags] at hparsed
    rw [parseClass, himage.decode_eq]
    exact hparsed

/-- A controller with annotations, calls of every kind, switches, an abstract method, and a bridge
to one of its methods. -/
def orderController : ClassSpec where
  name := "com/acme/Orders"
  superName := some "com/acme/Base"
  interfaces := ["com/acme/Api", "java/io/Closeable"]
  annotations := [⟨requestMapping, [("value", .array [.const "/orders"])]⟩]
  methods := [
    { name := "list"
      descriptor := "(IJ)Lcom/acme/Page;"
      annotations := [⟨"Lorg/springframework/web/bind/annotation/GetMapping;",
        [("path", .const "/all"),
          ("limit", .nested "Lcom/acme/Limit;" [("unit", .enum "LUnit;" "DAY")])]⟩]
      body := some [
        .loadString "orders",
        .invoke .interface ⟨"com/acme/Store", "find", "(J)V"⟩,
        .tableSwitch (-1) 2,
        .invoke .virtual ⟨"com/acme/Base", "audit", "()V"⟩,
        .lookupSwitch [7],
        .lambda .static ⟨"com/acme/Orders", "page", "(Ljava/lang/Object;)V"⟩,
        .dynamic "com/acme/Linker" "concat",
        .raw [0x84, 0x01, 0x01],
        .invoke .interface ⟨"com/acme/Store", "find", "(J)V"⟩] },
    { name := "list"
      descriptor := "(IJ)Ljava/lang/Object;"
      accessFlags := 0x1041
      body := some [.invoke .virtual ⟨"com/acme/Orders", "list", "(IJ)Lcom/acme/Page;"⟩] },
    .abstract "close" "()V"]

theorem withinLimits_orderController : orderController.WithinLimits := by
  decide +kernel

theorem parseClass_encode_orderController : orderController.WithinLimits ∧
    ∃ bytes, orderController.encode = .ok bytes ∧ parseClass bytes none = .ok
      { info := orderController.info, accessFlags := orderController.accessFlags,
        methods := (orderController.methods.filter fun m => ¬ orderController.IsShadow m).map
          orderController.record } :=
  ⟨withinLimits_orderController, parseClass_encode orderController withinLimits_orderController⟩

end CallForest.ClassFile
