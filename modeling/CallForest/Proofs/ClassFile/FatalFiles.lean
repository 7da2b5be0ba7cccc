import CallForest.Proofs.ClassFile.Faults
import CallForest.Proofs.ClassFile.Walking
import CallForest.Proofs.Descriptor
import CallForest.Proofs.Sequence

/-!
# Class files that end the work

Reading the bytes of a class file never ends the work as a whole. The records of its methods are
made from descriptors, though, that of the method itself and those of the calls that are kept, and
a descriptor that cannot be cut apart does. So a class file ends the work exactly when such a
descriptor is needed and no earlier method has a fault of its own.

## Main definitions

* `ClassImage.Needs` — the record of a method is made from a descriptor.

## Main results

* `ClassImage.exists_needs_of_record`, `ClassImage.exists_record_eq_error` — the methods that end
  the work;
* `parseClass_fatal_iff` — the class files that end the work, and the only fault that does.
-/

namespace CallForest.ClassFile

open Descriptor (Indivisible)

/-! ### Calls -/

/-- The call site of a call. -/
def Invocation.site (call : Invocation) : Except Fault CallSite :=
  match CallSite.of? call.target.owner call.target.name call.target.descriptor with
  | some site => .ok site
  | none => .error (.indivisible call.target.descriptor)

theorem Invocation.site_eq_ok_iff {call : Invocation} {site : CallSite} :
    call.site = .ok site ↔
      CallSite.of? call.target.owner call.target.name call.target.descriptor = some site := by
  unfold Invocation.site
  split
  · rename_i found hfound
    rw [hfound, Option.some_inj, Except.ok.injEq]
  · rename_i hnone
    simp [hnone]

theorem Invocation.site_eq_error_iff {call : Invocation} {fault : Fault} :
    call.site = .error fault ↔
      Indivisible call.target.descriptor ∧ fault = .indivisible call.target.descriptor := by
  unfold Invocation.site
  split
  · rename_i site hsite
    have hdivisible : ¬ Indivisible call.target.descriptor := by
      rw [← CallSite.of?_eq_none_iff, hsite]
      exact Option.some_ne_none site
    simp [hdivisible]
  · rename_i hnone
    simp [CallSite.of?_eq_none_iff.mp hnone, eq_comm]

section Calls

variable (pool : ConstantPool) (table : BootstrapTable) (scope : Option String)
variable (code : List UInt8)

theorem callSites_eq_mapM_site : callSites pool table scope code = (do
    let calls ← invocations pool table code
    let sites ← (calls.filter fun call => scope.all (inNamespace call.target.owner)).mapM
      Invocation.site
    return CallSite.distinct [] sites) :=
  rfl

variable {pool table scope code} {calls : List Invocation} {call : Invocation} {fault : Fault}

/-- Only the descriptor of a call that is kept can end the work. -/
theorem exists_call_of_callSites (h : callSites pool table scope code = .error fault)
    (hfatal : fault.isFatal = true) :
    ∃ calls, invocations pool table code = .ok calls ∧ ∃ call ∈ calls,
      scope.all (inNamespace call.target.owner) = true ∧
      Indivisible call.target.descriptor ∧ fault = .indivisible call.target.descriptor := by
  rw [callSites_eq_mapM_site] at h
  cases hcalls : invocations pool table code with
  | error first =>
    rw [hcalls] at h
    cases h
    rw [notFatal_invocations pool table code fault hcalls] at hfatal
    cases hfatal
  | ok calls =>
    rw [hcalls] at h
    obtain ⟨front, call, back, hkept, -, hcall⟩ :=
      exists_split_of_mapM_eq_error (bind_pure_eq_error_iff.mp h)
    have hmem : call ∈ front ++ call :: back := by simp
    rw [← hkept, List.mem_filter] at hmem
    exact ⟨calls, rfl, call, hmem.1, hmem.2, Invocation.site_eq_error_iff.mp hcall⟩

/-- A call that is kept and whose descriptor cannot be cut apart is enough. -/
theorem exists_callSites_eq_error (hcalls : invocations pool table code = .ok calls)
    (hcall : call ∈ calls) (hscope : scope.all (inNamespace call.target.owner) = true)
    (hdescriptor : Indivisible call.target.descriptor) :
    ∃ descriptor, callSites pool table scope code = .error (.indivisible descriptor) := by
  -- An earlier call may be the one that is reported, but it fails for the same reason.
  have hkept : call ∈ calls.filter fun call => scope.all (inNamespace call.target.owner) :=
    List.mem_filter.mpr ⟨hcall, hscope⟩
  obtain ⟨fault, hfault⟩ :=
    exists_mapM_eq_error hkept (Invocation.site_eq_error_iff.mpr ⟨hdescriptor, rfl⟩)
  obtain ⟨-, first, -, -, -, hfirst⟩ := exists_split_of_mapM_eq_error hfault
  obtain ⟨-, rfl⟩ := Invocation.site_eq_error_iff.mp hfirst
  refine ⟨first.target.descriptor, ?_⟩
  rw [callSites_eq_mapM_site, hcalls]
  exact bind_pure_eq_error_iff.mpr hfault

end Calls

/-! ### Methods -/

namespace ClassImage

variable {image : ClassImage} {scope : Option String} {m : RawMethod}

/-- The record of the method is made from the descriptor: it is that of the method, or of a call
in its code into the package. There are no calls if one of them cannot be found. -/
inductive Needs (image : ClassImage) (scope : Option String) (m : RawMethod) : String → Prop
  | own : Needs image scope m m.descriptor
  | call {code : List UInt8} {calls : List Invocation} {call : Invocation}
      (hcode : m.code = some code)
      (hcalls : invocations image.pool image.bootstrap code = .ok calls) (hcall : call ∈ calls)
      (hscope : scope.all (inNamespace call.target.owner) = true) :
      Needs image scope m call.target.descriptor

/-- Only a descriptor that the record is made from can end the work. -/
theorem exists_needs_of_record {fault : Fault} (h : image.record scope m = .error fault)
    (hfatal : fault.isFatal = true) :
    ∃ descriptor, image.Needs scope m descriptor ∧ Indivisible descriptor ∧
      fault = .indivisible descriptor := by
  unfold record at h
  split at h
  · rename_i hnone
    cases h
    exact ⟨m.descriptor, .own, MethodRecord.of?_eq_none_iff.mp hnone, rfl⟩
  · cases hcode : m.code with
    | none =>
      rw [hcode] at h
      cases h
    | some code =>
      rw [hcode] at h
      obtain ⟨calls, hcalls, call, hcall, hscope, hdescriptor⟩ :=
        exists_call_of_callSites (bind_pure_eq_error_iff.mp h) hfatal
      exact ⟨_, .call hcode hcalls hcall hscope, hdescriptor⟩

/-- A descriptor that the record is made from and that cannot be cut apart is enough. -/
theorem exists_record_eq_error {descriptor : String} (hneeds : image.Needs scope m descriptor)
    (hdescriptor : Indivisible descriptor) :
    ∃ first, image.record scope m = .error (.indivisible first) := by
  unfold record
  split
  · exact ⟨m.descriptor, rfl⟩
  · rename_i blank hblank
    cases hneeds with
    | own =>
      rw [MethodRecord.of?_eq_none_iff.mpr hdescriptor] at hblank
      cases hblank
    | call hcode hcalls hcall hscope =>
      obtain ⟨first, hfirst⟩ := exists_callSites_eq_error hcalls hcall hscope hdescriptor
      rw [hcode]
      exact ⟨first, bind_pure_eq_error_iff.mpr hfirst⟩

end ClassImage

/-! ### Class files -/

section Files

variable {bytes : List UInt8} {scope : Option String}

/-- Only a descriptor that a record is made from can end the work, and no earlier method has a
fault then. -/
theorem exists_method_of_parseClass {fault : Fault} (h : parseClass bytes scope = .error fault)
    (hfatal : fault.isFatal = true) :
    ∃ image front m back descriptor, readImage.decode bytes = .ok image ∧
      withoutShadows image.methods = front ++ m :: back ∧
      (∀ q ∈ front, ∃ r, image.record scope q = .ok r) ∧
      image.Needs scope m descriptor ∧ Indivisible descriptor ∧
      fault = .indivisible descriptor := by
  unfold parseClass at h
  cases himage : readImage.decode bytes with
  | error first =>
    rw [himage] at h
    cases h
    rw [contained_readImage.decode bytes fault himage] at hfatal
    cases hfatal
  | ok image =>
    rw [himage] at h
    obtain ⟨front, m, back, hmethods, hfront, hm⟩ :=
      exists_split_of_mapM_eq_error (bind_pure_eq_error_iff.mp h)
    obtain ⟨descriptor, hneeds⟩ := ClassImage.exists_needs_of_record hm hfatal
    exact ⟨image, front, m, back, descriptor, rfl, hmethods, hfront, hneeds⟩

theorem exists_parseClass_eq_error {image : ClassImage} {front back : List RawMethod}
    {m : RawMethod} {descriptor : String} (himage : readImage.decode bytes = .ok image)
    (hmethods : withoutShadows image.methods = front ++ m :: back)
    (hfront : ∀ q ∈ front, ∃ r, image.record scope q = .ok r)
    (hneeds : image.Needs scope m descriptor) (hdescriptor : Indivisible descriptor) :
    ∃ first, parseClass bytes scope = .error (.indivisible first) := by
  obtain ⟨first, hfirst⟩ := ClassImage.exists_record_eq_error hneeds hdescriptor
  refine ⟨first, ?_⟩
  unfold parseClass
  rw [himage]
  refine bind_pure_eq_error_iff.mpr ?_
  rw [hmethods]
  exact mapM_eq_error_of_split hfront hfirst

end Files

/-- Whatever the bytes and the package are, reading a class file ends the work exactly when the
record of a method is made from a descriptor that cannot be cut apart and all methods before it have
records. Such a descriptor is then the fault, so no instruction is ever sought outside of the code:
the instructions lie in the code whole, and those that call have the bytes of an index. -/
theorem parseClass_fatal_iff (bytes : List UInt8) (scope : Option String) :
    ((∃ fault, parseClass bytes scope = .error fault ∧ fault.isFatal = true) ↔
      ∃ image front m back descriptor, readImage.decode bytes = .ok image ∧
        withoutShadows image.methods = front ++ m :: back ∧
        (∀ q ∈ front, ∃ r, image.record scope q = .ok r) ∧
        image.Needs scope m descriptor ∧ Indivisible descriptor) ∧
      (∀ fault, parseClass bytes scope = .error fault → fault.isFatal = true →
        ∃ descriptor, fault = .indivisible descriptor ∧ Indivisible descriptor) ∧
      ∀ code, ∀ i ∈ (Instruction.walk 0 code).1, i.offset + i.length ≤ code.length ∧
        (¬ Instruction.Silent i.opcode → 2 ≤ i.operands.length) := by
  refine ⟨⟨?_, ?_⟩, ?_, ?_⟩
  · rintro ⟨fault, hfault, hfatal⟩
    obtain ⟨image, front, m, back, descriptor, himage, hmethods, hfront, hneeds, hdescriptor, -⟩ :=
      exists_method_of_parseClass hfault hfatal
    exact ⟨image, front, m, back, descriptor, himage, hmethods, hfront, hneeds, hdescriptor⟩
  · rintro ⟨image, front, m, back, descriptor, himage, hmethods, hfront, hneeds, hdescriptor⟩
    obtain ⟨first, hfirst⟩ :=
      exists_parseClass_eq_error himage hmethods hfront hneeds hdescriptor
    exact ⟨_, hfirst, rfl⟩
  · intro fault hfault hfatal
    obtain ⟨-, -, -, -, descriptor, -, -, -, -, hdescriptor, heq⟩ :=
      exists_method_of_parseClass hfault hfatal
    exact ⟨descriptor, heq, hdescriptor⟩
  · intro code i hi
    obtain ⟨before, b, after, hcode, hoffset, -, -⟩ := Instruction.exists_split_of_mem_walk hi
    refine ⟨?_, Instruction.two_le_length_operands hi⟩
    rw [hcode, hoffset, Instruction.Placed.length]
    simp only [List.length_append, List.length_cons]
    omega

/-- The class `a/A` with the abstract method `m(é)V`. -/
def strayParameter : List UInt8 :=
  [0xca, 0xfe, 0xba, 0xbe, 0, 0, 0, 0x34, 0, 5,
   1, 0, 3, 0x61, 0x2f, 0x41,
   7, 0, 1,
   1, 0, 1, 0x6d,
   1, 0, 5, 0x28, 0xc3, 0xa9, 0x29, 0x56,
   4, 0x21, 0, 2, 0, 0, 0, 0, 0, 0,
   0, 1, 4, 1, 0, 3, 0, 4, 0, 0,
   0, 0]

/-- The parameter of the method ends the work. -/
theorem parseClass_strayParameter :
    ∃ fault, parseClass strayParameter none = .error fault ∧ fault.isFatal = true := by
  have hfatal : (match parseClass strayParameter none with
      | .error fault => fault.isFatal
      | .ok _ => false) = true := by
    decide +kernel
  cases hresult : parseClass strayParameter none with
  | error fault =>
    rw [hresult] at hfatal
    exact ⟨fault, rfl, hfatal⟩
  | ok parsed =>
    rw [hresult] at hfatal
    cases hfatal

end CallForest.ClassFile
