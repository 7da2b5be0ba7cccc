import CallForest.ClassFile.ParsedClass
import Mathlib.Tactic.SplitIfs

/-!
# Faults that concern one file

Most faults concern the file that is read and nothing else. A decoder is contained when it fails
with such faults only, whatever the bytes are. Decoders made of contained decoders are contained, so
everything that reads a class file is. The same holds for what is looked up in the constant pool and
for the calls of a piece of code.

That the whole file is read by decoders made of a few basic ones is said once, for any property that
the basic ones have and that is kept when decoders are put together.

## Main definitions

* `NotFatal` — a result that is no fatal fault;
* `Decoder.Contained` — a decoder that never fails with a fatal fault;
* `Decoder.Closed` — a property that is kept when decoders are put together.

## Main results

* `NotFatal.bind`, `NotFatal.mapM` — results one after the other;
* `notFatal_invocations` — the calls of a piece of code;
* `Decoder.Closed.readImage` — such a property holds of the decoder of class files;
* `contained_readImage` — a class file as a whole.
-/

namespace CallForest.ClassFile

/-- A value, or a fault that concerns one file only. -/
def NotFatal {α : Type} (result : Except Fault α) : Prop :=
  ∀ fault, result = .error fault → fault.isFatal = false

namespace NotFatal

variable {α β : Type}

theorem ok (a : α) : NotFatal (.ok a) := nofun

theorem error {fault : Fault} (h : fault.isFatal = false) :
    NotFatal (.error fault : Except Fault α) := by
  rintro _ ⟨⟩
  exact h

instance : (result : Except Fault α) → Decidable (NotFatal result)
  | .ok a => isTrue (ok a)
  | .error fault => decidable_of_iff (fault.isFatal = false) ⟨error, fun h => h fault rfl⟩

protected theorem pure (a : α) : NotFatal (pure a : Except Fault α) :=
  ok a

protected theorem bind {result : Except Fault α} {f : α → Except Fault β}
    (hresult : NotFatal result) (hf : ∀ a, NotFatal (f a)) : NotFatal (result >>= f) := by
  cases result with
  | error fault => exact error (hresult fault rfl)
  | ok a => exact hf a

/-- The first member that fails decides the fault. -/
protected theorem mapM {f : α → Except Fault β} (hf : ∀ a, NotFatal (f a)) (l : List α) :
    NotFatal (l.mapM f) := by
  induction l with
  | nil => exact .ok []
  | cons a l ih =>
    rw [List.mapM_cons]
    refine (hf a).bind fun b => ih.bind fun bs => .pure _

end NotFatal

namespace Decoder

variable {α β : Type}

/-- The decoder never fails with a fatal fault. -/
def Contained (d : Decoder α) : Prop :=
  ∀ c fault c', d c = .error fault c' → fault.isFatal = false

namespace Contained

variable {d : Decoder α} {f : α → Decoder β}

protected theorem pure (a : α) : Contained (pure a) := nofun

theorem throw {fault : Fault} (h : fault.isFatal = false) :
    Contained (throw fault : Decoder α) := by
  rintro c _ _ ⟨⟩
  exact h

protected theorem bind (hd : Contained d) (hf : ∀ a, Contained (f a)) : Contained (d >>= f) := by
  intro c fault c' herror
  simp only [Bind.bind, EStateM.bind] at herror
  cases hfirst : d c with
  | ok a c₁ =>
    rw [hfirst] at herror
    exact hf a c₁ fault c' herror
  | error first c₁ =>
    rw [hfirst] at herror
    cases herror
    exact hd c fault c' hfirst

/-- A decoder that looks at the cursor first. -/
theorem of_get {g : Cursor → Decoder α} (hg : ∀ c, Contained (g c)) : Contained (get >>= g) :=
  fun c => hg c c

theorem take (n : Nat) : Contained (Decoder.take n) := by
  intro c fault c' herror
  simp only [Decoder.take] at herror
  split at herror
  · cases herror
    rfl
  · cases herror

theorem within (n : Nat) (hd : Contained d) : Contained (Decoder.within n d) := by
  refine (take n).bind fun bytes => ?_
  cases hrun : d.run (.start bytes) with
  | ok a c => exact .pure a
  | error fault c => exact .throw (hd _ _ _ hrun)

theorem decode (hd : Contained d) (bytes : List UInt8) : NotFatal (d.decode bytes) := by
  intro fault herror
  cases hrun : d.run (.start bytes) with
  | ok a c => simp [Decoder.decode, hrun] at herror
  | error first c =>
    simp only [Decoder.decode, hrun, Except.error.injEq] at herror
    exact herror ▸ hd _ _ _ hrun

end Contained

/-! ### Decoders made of decoders -/

/-- A property that the basic decoders have and that is kept when decoders are put together. The
decoder of a stretch of known length need not have it, as long as it is contained. -/
structure Closed (P : {α : Type} → Decoder α → Prop) : Prop where
  protected pure {α : Type} (a : α) : P (pure a)
  throw {α : Type} {fault : Fault} (h : fault.isFatal = false) : P (throw fault : Decoder α)
  protected bind {α β : Type} {d : Decoder α} {f : α → Decoder β} (hd : P d)
    (hf : ∀ a, P (f a)) : P (d >>= f)
  take (n : Nat) : P (Decoder.take n)
  within {α : Type} (n : Nat) {d : Decoder α} (hd : d.Contained) : P (Decoder.within n d)

theorem closed_contained : Closed @Contained where
  pure := Contained.pure
  throw := Contained.throw
  bind := Contained.bind
  take := Contained.take
  within n _ hd := hd.within n

namespace Closed

variable {P : {α : Type} → Decoder α → Prop} (hP : Closed P)

include hP

/-- A decoder whose value is only changed. -/
theorem bind_pure {d : Decoder α} {g : α → β} (hd : P d) : P (d >>= fun a => pure (g a)) :=
  hP.bind hd fun a => hP.pure (g a)

theorem lift {result : Except Fault α} (h : NotFatal result) : P (Decoder.lift result) := by
  cases result with
  | ok a => exact hP.pure a
  | error fault => exact hP.throw (h fault rfl)

theorem skip (n : Nat) : P (Decoder.skip n) :=
  hP.bind_pure (hP.take n)

theorem word (width : Nat) : P (Decoder.word width) :=
  hP.bind_pure (hP.take width)

theorem u8 : P Decoder.u8 := hP.word 1

theorem u16 : P Decoder.u16 := hP.word 2

theorem u32 : P Decoder.u32 := hP.word 4

theorem i32 : P Decoder.i32 := hP.bind_pure hP.u32

theorem u64 : P Decoder.u64 :=
  hP.bind hP.u32 fun _ => hP.bind_pure hP.u32

theorem times {d : Decoder α} (hd : P d) (n : Nat) : P (Decoder.times d n) := by
  induction n with
  | zero => exact hP.pure []
  | succ n ih => exact hP.bind hd fun _ => hP.bind_pure ih

theorem counted {d : Decoder α} (hd : P d) : P (Decoder.counted d) :=
  hP.bind hP.u16 fun n => hP.times hd n

end Closed

end Decoder

/-! ### The constant pool -/

open Decoder

namespace Decoder.Closed

variable {P : {α : Type} → Decoder α → Prop} (hP : Closed P)

include hP

theorem readConstant (entry : Nat) : P (Constant.read entry) := by
  have one {g : Nat → Constant} : P (do return g (← Decoder.u16)) := hP.bind_pure hP.u16
  have two {g : Nat → Nat → Constant} : P (do return g (← Decoder.u16) (← Decoder.u16)) :=
    hP.bind hP.u16 fun _ => hP.bind_pure hP.u16
  refine hP.bind hP.u8 fun tag => ?_
  split
  · exact hP.bind hP.u16 fun _ => hP.bind_pure (hP.take _)
  · exact hP.bind_pure hP.i32
  · exact hP.bind_pure hP.u32
  · exact hP.bind_pure hP.u64
  · exact hP.bind_pure hP.u64
  · exact one
  · exact one
  · exact two
  · exact two
  · exact two
  · exact two
  · exact hP.bind hP.u8 fun _ => hP.bind_pure hP.u16
  · exact one
  · exact two
  · exact two
  · exact one
  · exact one
  · exact hP.throw rfl

theorem readSlots (count entry : Nat) : P (ConstantPool.readSlots count entry) := by
  fun_induction ConstantPool.readSlots count entry with
  | case1 => exact hP.pure _
  | case2 entry =>
    refine hP.bind (hP.readConstant entry) fun constant => ?_
    split
    · exact hP.throw rfl
    · exact hP.pure _
  | case3 count entry ihwide ih =>
    refine hP.bind (hP.readConstant entry) fun constant => ?_
    split
    · exact hP.bind_pure ihwide
    · exact hP.bind_pure ih

theorem readPool : P ConstantPool.read := by
  refine hP.bind hP.u16 fun count => ?_
  split
  · exact hP.throw rfl
  · exact hP.bind_pure (hP.readSlots _ _)

end Decoder.Closed

namespace ConstantPool

variable (pool : ConstantPool) (index : Nat)

theorem notFatal_utf8 : NotFatal (pool.utf8 index) := by
  rw [utf8]
  split
  · exact .ok _
  · exact .error rfl

theorem notFatal_className : NotFatal (pool.className index) := by
  rw [className]
  split
  · exact pool.notFatal_utf8 _
  · exact .error rfl

theorem notFatal_nameAndType : NotFatal (pool.nameAndType index) := by
  rw [nameAndType]
  split
  · exact (pool.notFatal_utf8 _).bind fun _ => (pool.notFatal_utf8 _).bind fun _ => .pure _
  · exact .error rfl

theorem notFatal_methodRef : NotFatal (pool.methodRef index) := by
  rw [methodRef]
  split
  · exact (pool.notFatal_className _).bind fun _ =>
      (pool.notFatal_nameAndType _).bind fun _ => .pure _
  · exact (pool.notFatal_className _).bind fun _ =>
      (pool.notFatal_nameAndType _).bind fun _ => .pure _
  · exact .error rfl

theorem notFatal_methodHandle : NotFatal (pool.methodHandle index) := by
  rw [methodHandle]
  split
  · exact .ok _
  · exact .error rfl

theorem notFatal_invokeDynamic : NotFatal (pool.invokeDynamic index) := by
  rw [invokeDynamic]
  split
  · exact .ok _
  · exact .error rfl

theorem notFatal_text (tag : Nat) : NotFatal (pool.text index tag) := by
  rw [text]
  split
  all_goals first | exact .ok _ | exact .error rfl

end ConstantPool

/-! ### Code -/

namespace Instruction

theorem notFatal_intAfter (base : Nat) (rest : List UInt8) (k : Nat) :
    NotFatal (intAfter base rest k) := by
  rw [intAfter]
  split
  · exact .error rfl
  split
  · exact .error rfl
  · exact .ok _

theorem notFatal_operandCount (offset opcode : Nat) (rest : List UInt8) :
    NotFatal (operandCount offset opcode rest) := by
  have hannounced : NotFatal (announced offset opcode rest) := by
    unfold announced
    split
    · exact .ok _
    · refine (notFatal_intAfter _ _ _).bind fun low => ?_
      refine (notFatal_intAfter _ _ _).bind fun high => ?_
      split
      · exact .error rfl
      · exact .pure _
    · refine (notFatal_intAfter _ _ _).bind fun pairs => ?_
      split
      · exact .error rfl
      · exact .pure _
    · split
      · exact .error rfl
      · exact .ok _
    · exact .error rfl
  refine hannounced.bind fun n => ?_
  split
  · exact .pure _
  · exact .error rfl

/-- The fault that ends a walk is that of the instruction there. -/
theorem notFatal_walk {offset : Nat} {code : List UInt8} {fault : Fault}
    (h : (walk offset code).2 = some fault) : fault.isFatal = false := by
  fun_induction walk offset code with
  | case1 => cases h
  | case2 offset b rest first hcount =>
    cases h
    exact notFatal_operandCount _ _ _ _ hcount
  | case3 offset b rest n hcount more last hmore ih =>
    rw [hmore] at ih
    exact ih h

end Instruction

theorem BootstrapTable.notFatal_lambdaTarget (table : BootstrapTable) (pool : ConstantPool)
    (site : Nat) : NotFatal (table.lambdaTarget pool site) := by
  refine (pool.notFatal_invokeDynamic site).bind fun slot => ?_
  split
  · exact .error rfl
  refine (pool.notFatal_methodHandle _).bind fun factoryHandle => ?_
  refine (pool.notFatal_methodRef _).bind fun factory => ?_
  split
  · exact .pure _
  split
  · exact .pure _
  refine (pool.notFatal_methodHandle _).bind ?_
  rintro ⟨referenceKind, target⟩
  dsimp only
  split
  · exact .pure _
  · exact (pool.notFatal_methodRef _).bind fun _ => .pure _

theorem notFatal_invocation? (pool : ConstantPool) (table : BootstrapTable)
    (i : Instruction.Placed) : NotFatal (invocation? pool table i) := by
  rw [invocation?]
  split
  · exact (pool.notFatal_methodRef _).bind fun _ => .pure _
  split
  · refine (table.notFatal_lambdaTarget pool _).bind fun target => ?_
    split
    · exact .pure _
    · exact .pure _
  · exact .pure _

/-- The calls of a piece of code, whatever the code is. -/
theorem notFatal_invocations (pool : ConstantPool) (table : BootstrapTable) (code : List UInt8) :
    NotFatal (invocations pool table code) := by
  refine (NotFatal.mapM (notFatal_invocation? pool table) _).bind fun calls => ?_
  split
  · rename_i fault hfault
    exact .error (Instruction.notFatal_walk hfault)
  · exact .pure _

/-! ### The file -/

namespace Decoder.Closed

variable {P : {α : Type} → Decoder α → Prop} (hP : Closed P) (pool : ConstantPool)

include hP

theorem readText : P (readText pool) :=
  hP.bind hP.u16 fun _ => hP.lift (pool.notFatal_utf8 _)

theorem skipAttributes : P skipAttributes := by
  have hskip : P skipAttribute :=
    hP.bind (hP.skip 2) fun _ => hP.bind hP.u32 fun _ => hP.skip _
  exact hP.bind_pure (hP.counted hskip)

theorem readCode : P readCode := by
  refine hP.bind (hP.skip 4) fun _ => hP.bind hP.u32 fun length => ?_
  refine hP.bind (hP.take length) fun code => hP.bind hP.u16 fun handlers => ?_
  exact hP.bind (hP.skip _) fun _ => hP.bind_pure hP.skipAttributes

theorem readBootstraps : P BootstrapTable.read :=
  hP.bind_pure (hP.counted (hP.bind hP.u16 fun _ => hP.bind_pure (hP.counted hP.u16)))

theorem readAnnotationWith {element : Decoder ElementValue} (h : P element) (depth : Nat) :
    P (readAnnotationWith pool element depth) := by
  rw [ClassFile.readAnnotationWith]
  split
  · exact hP.throw rfl
  refine hP.bind (hP.readText pool) fun type => hP.bind_pure (hP.counted ?_)
  exact hP.bind (hP.readText pool) fun _ => hP.bind_pure h

theorem readElement (fuel depth : Nat) : P (readElement pool fuel depth) := by
  induction fuel generalizing depth with
  | zero => exact hP.throw rfl
  | succ fuel ih =>
    refine hP.bind hP.u8 fun tag => ?_
    split_ifs with hconstant henum hliteral hnested harray
    · exact hP.bind hP.u16 fun _ => hP.bind_pure (hP.lift (pool.notFatal_text _ _))
    · exact hP.bind (hP.readText pool) fun _ => hP.bind_pure (hP.readText pool)
    · exact hP.bind_pure (hP.readText pool)
    · exact hP.bind_pure (hP.readAnnotationWith pool (ih _) _)
    · exact hP.bind_pure (hP.counted (ih _))
    · exact hP.throw rfl

end Decoder.Closed

/-- The fuel for annotations is the number of bytes, which only a contained decoder may look at. -/
theorem contained_readAnnotations (pool : ConstantPool) : (readAnnotations pool).Contained := by
  refine Contained.of_get fun _ => closed_contained.counted ?_
  exact closed_contained.readAnnotationWith pool (closed_contained.readElement pool _ _) _

namespace Decoder.Closed

variable {P : {α : Type} → Decoder α → Prop} (hP : Closed P) (pool : ConstantPool)

include hP

theorem readMethodAttribute : P (readMethodAttribute pool) := by
  refine hP.bind (hP.readText pool) fun name => hP.bind hP.u32 fun length => ?_
  split_ifs with hcode hannotations
  · exact hP.bind_pure (hP.within length closed_contained.readCode)
  · exact hP.bind_pure (hP.within length (contained_readAnnotations pool))
  · exact hP.bind_pure (hP.skip length)

theorem readMethod : P (readMethod pool) := by
  refine hP.bind hP.u16 fun accessFlags => hP.bind (hP.readText pool) fun name => ?_
  refine hP.bind (hP.readText pool) fun descriptor => ?_
  exact hP.bind_pure (hP.counted (hP.readMethodAttribute pool))

theorem readClassAttribute : P (readClassAttribute pool) := by
  refine hP.bind (hP.readText pool) fun name => hP.bind hP.u32 fun length => ?_
  split_ifs with hbootstraps hannotations
  · exact hP.bind_pure (hP.within length closed_contained.readBootstraps)
  · exact hP.bind_pure (hP.within length (contained_readAnnotations pool))
  · exact hP.bind_pure (hP.skip length)

theorem readClassName : P (readClassName pool) :=
  hP.bind hP.u16 fun _ => hP.lift (pool.notFatal_className _)

theorem readSuperName : P (readSuperName pool) := by
  refine hP.bind hP.u16 fun index => ?_
  split
  · exact hP.pure _
  · exact hP.bind_pure (hP.lift (pool.notFatal_className index))

/-- The decoder of class files is made of the basic decoders. -/
theorem readImage : P readImage := by
  refine hP.bind hP.u32 fun magic => ?_
  split
  · exact hP.throw rfl
  refine hP.bind hP.u16 fun minor => hP.bind hP.u16 fun major => ?_
  split
  · exact hP.throw rfl
  refine hP.bind hP.readPool fun pool => hP.bind hP.u16 fun accessFlags => ?_
  refine hP.bind (hP.readClassName pool) fun name => ?_
  refine hP.bind (hP.readSuperName pool) fun superName => ?_
  refine hP.bind (hP.counted (hP.readClassName pool)) fun interfaces => ?_
  have hfield : P skipField := hP.bind (hP.skip 6) fun _ => hP.skipAttributes
  refine hP.bind (hP.counted hfield) fun _ => ?_
  refine hP.bind (hP.counted (hP.readMethod pool)) fun methods => ?_
  exact hP.bind_pure (hP.counted (hP.readClassAttribute pool))

end Decoder.Closed

/-- Whatever the bytes are, reading them fails with no fatal fault. -/
theorem contained_readImage : readImage.Contained :=
  closed_contained.readImage

end CallForest.ClassFile
