import CallForest.ClassFile.Emission
import CallForest.Proofs.ClassFile.Building
import CallForest.Proofs.ClassFile.Walking
import CallForest.Proofs.Sequence

/-!
# The calls of a body survive writing and reading

A body is written instruction by instruction, each at the offset that the instructions before it
leave, and the calls found in the written code are those of the body, in order. A call names its
method through the pool. A lambda is a dynamic call site: the method it stands for is found through
the bootstrap table, which is written only after the code.

## Main definitions

* `Calls` — a stretch of code makes the given calls;
* `BodyItem.call?` — the call that an instruction of a body makes;
* `BodyItem.Fits` — an instruction that can be written in full.

## Main results

* `Calls.append` — one stretch after the other;
* `Calls.invocations_eq` — the calls found in the whole code;
* `Build.Yields.item`, `Build.Yields.body` — the written code makes the calls of the body.
-/

namespace CallForest.ClassFile

open Instruction

/-! ### Code and its calls -/

section Calls

variable {pool : ConstantPool} {table : BootstrapTable} {offset : Nat} {code code' : List UInt8}
variable {calls calls' : List (InvokeKind × MemberRef)} {placed : List Placed} {i : Placed}

/-- What a call calls, without the place it stands at. -/
def Invocation.callee (call : Invocation) : InvokeKind × MemberRef :=
  (call.kind, call.target)

/-- The code walks, and the calls found in it are the given ones. -/
def Calls (pool : ConstantPool) (table : BootstrapTable) (offset : Nat) (code : List UInt8)
    (calls : List (InvokeKind × MemberRef)) : Prop :=
  ∃ placed found, Walks offset code placed ∧
    placed.mapM (invocation? pool table) = .ok found ∧
    (found.filterMap id).map Invocation.callee = calls

namespace Calls

theorem append (hfirst : Calls pool table offset code calls)
    (hsecond : Calls pool table (offset + code.length) code' calls') :
    Calls pool table offset (code ++ code') (calls ++ calls') := by
  obtain ⟨placed, found, hwalks, hfound, rfl⟩ := hfirst
  obtain ⟨placed', found', hwalks', hfound', rfl⟩ := hsecond
  refine ⟨placed ++ placed', found ++ found', hwalks.append hwalks', ?_, by simp⟩
  rw [List.mapM_append, hfound, hfound']
  rfl

theorem single {call : Option Invocation} (hwalks : Walks offset code [i])
    (hcall : invocation? pool table i = .ok call) :
    Calls pool table offset code (call.map Invocation.callee).toList := by
  refine ⟨[i], [call], hwalks, ?_, by cases call <;> rfl⟩
  rw [List.mapM_cons, hcall]
  rfl

theorem invocation?_of_silent (h : Silent i.opcode) : invocation? pool table i = .ok none := by
  obtain ⟨hkind, hdynamic⟩ := silent_iff.mp h
  simp only [invocation?, hkind, if_neg hdynamic]
  rfl

/-- Instructions that make no call. -/
theorem silent (hwalks : Walks offset code placed) (hsilent : ∀ i ∈ placed, Silent i.opcode) :
    Calls pool table offset code [] := by
  refine ⟨placed, placed.map fun _ => none, hwalks, ?_, by simp⟩
  exact mapM_eq_ok_map fun i hi => invocation?_of_silent (hsilent i hi)

/-- The calls found in the whole code. -/
theorem invocations_eq (h : Calls pool table 0 code calls) :
    ∃ found, invocations pool table code = .ok found ∧ found.map Invocation.callee = calls := by
  obtain ⟨placed, found, hwalks, hfound, hcalls⟩ := h
  refine ⟨found.filterMap id, ?_, hcalls⟩
  simp only [invocations, hwalks.walk_eq, hfound]
  rfl

end Calls

/-! ### Call sites -/

theorem Instruction.index_eq {opcode n : Nat} {more : List UInt8} (hn : Word.Fits 2 n) :
    Placed.index ⟨offset, opcode, Word.encode 2 n ++ more⟩ = n := by
  have hword : Word.decode (Word.encode 2 n) = n := Word.decode_encode_of_fits hn
  rw [Placed.index, List.take_left' (Word.length_encode 2 n), hword]

/-- A call names its target by index; a call through an interface has two more operands. -/
theorem calls_invoke {kind : InvokeKind} {target : MemberRef} {n : Nat} {count : List UInt8}
    (hn : Finds pool.methodRef target n)
    (hcount : count.length = if kind = .interface then 2 else 0) :
    Calls pool table offset (.ofNat kind.opcode :: (Word.encode 2 n ++ count))
      [(kind, target)] := by
  have hlayout : Layout.of (UInt8.ofNat kind.opcode).toNat =
      .fixed (Word.encode 2 n ++ count).length := by
    rw [List.length_append, Word.length_encode, hcount]
    cases kind <;> decide
  have hkind : InvokeKind.ofOpcode? (UInt8.ofNat kind.opcode).toNat = some kind := by
    cases kind <;> decide
  have hcall : invocation? pool table ⟨offset, (UInt8.ofNat kind.opcode).toNat,
      Word.encode 2 n ++ count⟩ = .ok (some ⟨kind, target, offset⟩) := by
    simp only [invocation?, hkind, Instruction.index_eq hn.1, hn.2]
    rfl
  exact Calls.single (Walks.fixed hlayout) hcall

/-- A dynamic call site calls what its lambda stands for. -/
theorem calls_site {site : Nat} {target : Option (InvokeKind × MemberRef)}
    (hsite : Word.Fits 2 site) (htarget : table.lambdaTarget pool site = .ok target) :
    Calls pool table offset (emitSite site) target.toList := by
  have hlayout : Layout.of (UInt8.ofNat dynamicOpcode).toNat =
      .fixed (Word.encode 2 site ++ Word.encode 2 0).length := by
    rw [List.length_append, Word.length_encode, Word.length_encode]
    decide
  have hkind : InvokeKind.ofOpcode? (UInt8.ofNat dynamicOpcode).toNat = none := by decide
  have hcall : invocation? pool table ⟨offset, (UInt8.ofNat dynamicOpcode).toNat,
      Word.encode 2 site ++ Word.encode 2 0⟩ =
        .ok (target.map fun target => ⟨target.1, target.2, offset⟩) := by
    simp only [invocation?, hkind, Instruction.index_eq hsite, htarget]
    cases target <;> rfl
  have h := Calls.single (Walks.fixed hlayout) hcall
  cases target <;> exact h

/-- A site that is linked by the lambda factory stands for the method that its second argument
names. -/
theorem lambdaTarget_eq {kind : InvokeKind} {target factory : MemberRef}
    {site slot handle erased implementation instantiated link linkKind reference : Nat}
    (hsite : Finds pool.invokeDynamic slot site)
    (hslot : table.methods[slot]? = some ⟨handle, [erased, implementation, instantiated]⟩)
    (hhandle : Finds pool.methodHandle (linkKind, link) handle)
    (hfactory : Finds pool.methodRef factory link) (howner : factory.owner = lambdaFactory)
    (himplementation : Finds pool.methodHandle (kind.referenceKind, reference) implementation)
    (hreference : Finds pool.methodRef target reference) :
    table.lambdaTarget pool site = .ok (some (kind, target)) := by
  have hkind : InvokeKind.ofReferenceKind? kind.referenceKind = some kind := by
    cases kind <;> decide
  simp only [BootstrapTable.lambdaTarget, hsite.2, hslot, hhandle.2, hfactory.2, howner, bind,
    Except.bind, ne_eq, not_true_eq_false, if_false, implementationArgument,
    List.getElem?_cons_succ, List.getElem?_cons_zero, himplementation.2, hkind, hreference.2]
  rfl

/-- A site that is linked without arguments stands for no method, whoever links it. -/
theorem lambdaTarget_eq_none {factory : MemberRef} {site slot handle link linkKind : Nat}
    (hsite : Finds pool.invokeDynamic slot site)
    (hslot : table.methods[slot]? = some ⟨handle, []⟩)
    (hhandle : Finds pool.methodHandle (linkKind, link) handle)
    (hfactory : Finds pool.methodRef factory link) :
    table.lambdaTarget pool site = .ok none := by
  simp only [BootstrapTable.lambdaTarget, hsite.2, hslot, hhandle.2, hfactory.2, bind, Except.bind,
    List.getElem?_nil]
  split <;> rfl

end Calls

/-! ### Instructions of a body -/

namespace BodyItem

/-- The call that an instruction makes. What an arbitrary dynamic call site calls is not known. -/
def call? : BodyItem → Option (InvokeKind × MemberRef)
  | .invoke kind target | .lambda kind target => some (kind, target)
  | _ => none

/-- The texts of an instruction fit their words, a switch has a range or a count that can be
written, and bytes are plain instructions. -/
def Fits : BodyItem → Prop
  | .invoke _ target | .lambda _ target => target.Fits
  | .dynamic owner name => TextFits owner ∧ TextFits name
  | .loadString text => TextFits text
  | .tableSwitch low high => low ≤ high ∧ Word.FitsInt low ∧ Word.FitsInt high ∧
      Word.FitsInt (high - low + 1)
  | .lookupSwitch keys => Word.FitsInt keys.length
  | .raw bytes => PlainCode bytes

instance : (item : BodyItem) → Decidable item.Fits
  | .invoke _ target | .lambda _ target => inferInstanceAs (Decidable target.Fits)
  | .dynamic owner name => inferInstanceAs (Decidable (TextFits owner ∧ TextFits name))
  | .loadString text => inferInstanceAs (Decidable (TextFits text))
  | .tableSwitch low high => inferInstanceAs (Decidable (low ≤ high ∧ Word.FitsInt low ∧
      Word.FitsInt high ∧ Word.FitsInt (high - low + 1)))
  | .lookupSwitch keys => inferInstanceAs (Decidable (Word.FitsInt keys.length))
  | .raw bytes => inferInstanceAs (Decidable (PlainCode bytes))

end BodyItem

theorem textFits_plainFactoryDescriptor : TextFits plainFactoryDescriptor := by
  decide

namespace Build.Yields

/-- The written instruction makes the call of the item. -/
theorem item {q : PoolBuilder} (hslots : q.bootstraps.length ≤ 65535) (p : PoolBuilder)
    (offset : Nat) (item : BodyItem) :
    Yields q p item.Fits (emitItem offset item) (fun code =>
      Calls q.pool q.table offset code item.call?.toList) := by
  cases item with
  | invoke kind target =>
    refine (methodRef id).bind fun n p₁ _ => Yields.pure ?_
    rintro ⟨-, hn⟩
    refine calls_invoke hn ?_
    split <;> simp
  | lambda kind target =>
    -- From the site to the target it takes a slot of the table and two handles.
    refine (methodRef id).bind fun reference p₁ _ =>
      (methodHandle (fun _ => by cases kind <;> decide) fun h => h.2.1).bind
        fun implementation p₂ _ =>
      (methodType fun _ => by decide).bind fun erased p₃ _ =>
      (methodType fun h => h.1.1.1.descriptor).bind fun instantiated p₄ _ =>
      (methodRef fun _ => by decide +kernel).bind fun link p₅ _ =>
      (methodHandle (fun _ => by decide) fun h => h.2.1).bind fun handle p₆ _ => ?_
    refine (bootstrap (fun _ => hslots) ?_).bind fun slot p₇ _ =>
      (invokeDynamic (fun h => h.2.1) (fun _ => by decide) fun _ => by decide).bind
        fun site p₈ _ => Yields.pure ?_
    · rintro ⟨⟨⟨⟨⟨⟨-, -⟩, himplementation⟩, herased⟩, hinstantiated⟩, -⟩, hhandle⟩
      refine ⟨hhandle.1, by simp, ?_⟩
      intro i hi
      simp only [List.mem_cons, List.not_mem_nil, or_false] at hi
      rcases hi with rfl | rfl | rfl
      · exact herased.1
      · exact himplementation.1
      · exact hinstantiated.1
    · rintro ⟨⟨⟨⟨⟨⟨⟨⟨-, hreference⟩, himplementation⟩, -⟩, -⟩, hlink⟩, hhandle⟩, hslot⟩, hsite⟩
      exact calls_site hsite.1
        (lambdaTarget_eq hsite hslot.2 hhandle hlink rfl himplementation hreference)
  | dynamic owner name =>
    refine (methodRef ?_).bind fun link p₁ _ =>
      (methodHandle (fun _ => by decide) fun h => h.2.1).bind fun handle p₂ _ =>
      (bootstrap (fun _ => hslots) fun h => ⟨h.2.1, by simp, by simp⟩).bind fun slot p₃ _ =>
      (invokeDynamic (fun h => h.2.1) (fun _ => by decide) fun _ => by decide).bind
        fun site p₄ _ => Yields.pure ?_
    · exact fun h => ⟨h.1, h.2, textFits_plainFactoryDescriptor⟩
    · rintro ⟨⟨⟨⟨-, hlink⟩, hhandle⟩, hslot⟩, hsite⟩
      exact calls_site hsite.1 (lambdaTarget_eq_none hsite hslot.2 hhandle hlink)
  | loadString text =>
    refine (string id).bind fun n p₁ _ => Yields.pure fun h => ?_
    split
    · exact Calls.silent (Walks.fixed rfl) (by simp; decide)
    · refine Calls.silent (Walks.fixed ?_) (by simp; decide)
      rw [Word.length_encode]
      decide
  | tableSwitch low high =>
    refine Yields.pure ?_
    rintro ⟨hle, hlow, hhigh, -⟩
    exact Calls.silent (Walks.tableSwitch hlow hhigh hle List.length_replicate
      (Word.length_encode 4 _) (by simp)) (by simp; decide)
  | lookupSwitch keys =>
    refine Yields.pure fun hcount => ?_
    exact Calls.silent (Walks.lookupSwitch hcount List.length_replicate
      (Word.length_encode 4 _) (by simp [List.map_const'])) (by simp; decide)
  | raw bytes =>
    refine Yields.pure fun hplain => ?_
    obtain ⟨placed, hwalks, hall⟩ := hplain.walks offset
    exact Calls.silent hwalks fun i hi => (hall i hi).1

/-- The written code makes the calls of the body, in order. -/
theorem body {q : PoolBuilder} (hslots : q.bootstraps.length ≤ 65535) (p : PoolBuilder)
    (offset : Nat) (items : List BodyItem) :
    Yields q p (∀ item ∈ items, item.Fits) (emitBody offset items) (fun code =>
      Calls q.pool q.table offset code (items.filterMap BodyItem.call?)) := by
  induction items generalizing p offset with
  | nil =>
    refine Yields.pure fun _ => ?_
    exact Calls.silent (Walks.fixed (by decide)) (by simp; decide)
  | cons first rest ih =>
    refine ((item hslots p offset first).of_imp fun h => h first List.mem_cons_self).bind
      fun code p₁ _ => ((ih p₁ (offset + code.length)).of_imp
        fun h item hi => h.1 item (List.mem_cons_of_mem first hi)).bind
      fun more p₂ _ => Yields.pure ?_
    rintro ⟨⟨-, hfirst⟩, hrest⟩
    have hcalls : first.call?.toList ++ rest.filterMap BodyItem.call? =
        (first :: rest).filterMap BodyItem.call? := by
      cases hcall : first.call? <;> simp [hcall]
    exact hcalls ▸ hfirst.append hrest

end Build.Yields

end CallForest.ClassFile
