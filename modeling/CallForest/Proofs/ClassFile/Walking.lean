import CallForest.ClassFile.Code
import CallForest.Proofs.ClassFile.Reading

/-!
# Walking through code

Code is followed instruction by instruction. A stretch of code walks as a list of instructions when
the walk passes through just these and goes on right after the stretch, whatever comes there. Such
stretches can be put one after the other. How many operands an instruction has follows from its
opcode alone, except for the switches, whose operands are aligned and say how many they are.

## Main definitions

* `Instruction.Walks` — a stretch of code walks as a list of instructions;
* `Instruction.Plain`, `Instruction.PlainCode` — whole instructions that neither call nor switch.

## Main results

* `Walks.append` — one stretch after the other;
* `Walks.walk_eq` — the walk through the whole code;
* `Walks.fixed`, `Walks.tableSwitch`, `Walks.lookupSwitch` — single instructions;
* `PlainCode.walks` — plain code walks without calls;
* `plainCode_iff` — whether code is plain can be seen from the walk.
-/

namespace CallForest.ClassFile.Instruction

variable {offset : Nat} {b : UInt8} {code code' operands : List UInt8}
variable {placed placed' : List Placed}

theorem hasAtLeast_eq {α : Type} (n : Nat) (l : List α) :
    hasAtLeast n l = decide (n ≤ l.length) := by
  induction n generalizing l with
  | zero => simp [hasAtLeast]
  | succ n ih => cases l with
    | nil => simp [hasAtLeast]
    | cons a l => simp [hasAtLeast, ih]

/-! ### Stretches of code -/

/-- The walk passes through the code as the given instructions and goes on after it. -/
def Walks (offset : Nat) (code : List UInt8) (placed : List Placed) : Prop :=
  ∀ rest, walk offset (code ++ rest) =
    (placed ++ (walk (offset + code.length) rest).1, (walk (offset + code.length) rest).2)

namespace Walks

theorem nil (offset : Nat) : Walks offset [] [] :=
  fun _ => rfl

theorem append (hfirst : Walks offset code placed)
    (hsecond : Walks (offset + code.length) code' placed') :
    Walks offset (code ++ code') (placed ++ placed') := by
  intro rest
  rw [List.append_assoc, hfirst, hsecond, List.append_assoc, List.length_append, Nat.add_assoc]

theorem walk_eq (h : Walks offset code placed) : walk offset code = (placed, none) := by
  have hend := h []
  simp only [List.append_nil, walk] at hend
  exact hend

/-- An instruction that announces the operands it has. -/
theorem single (h : ∀ rest, announced offset b.toNat (operands ++ rest) = .ok operands.length) :
    Walks offset (b :: operands) [⟨offset, b.toNat, operands⟩] := by
  intro rest
  have hcount : operandCount offset b.toNat (operands ++ rest) = .ok operands.length := by
    simp only [operandCount, h rest, hasAtLeast_eq, List.length_append]
    simp [bind, Except.bind, pure, Except.pure]
  rw [List.cons_append, walk, hcount]
  simp only [List.drop_left, List.take_left, List.length_cons, List.singleton_append]
  rw [Nat.add_assoc, Nat.add_comm 1]

theorem fixed (h : Layout.of b.toNat = .fixed operands.length) :
    Walks offset (b :: operands) [⟨offset, b.toNat, operands⟩] := by
  refine single fun rest => ?_
  simp only [announced, h]

end Walks

/-! ### Switches -/

/-- A signed word after as many bytes as its position says. -/
theorem intAfter_eq {base k : Nat} {n : Int} {bytes front back : List UInt8}
    (hbytes : bytes = front ++ (Word.encode 4 (Word.unsigned 32 n) ++ back))
    (hk : front.length = k) (hn : Word.FitsInt n) : intAfter base bytes k = .ok n := by
  subst hbytes hk
  have hword : (Word.encode 4 (Word.unsigned 32 n) ++ back).take 4 =
      Word.encode 4 (Word.unsigned 32 n) := by
    rw [List.take_left' (Word.length_encode 4 _)]
  have hvalue : Word.decode (Word.encode 4 (Word.unsigned 32 n)) = Word.unsigned 32 n :=
    Word.decode_encode_of_fits (Word.fits_unsigned n)
  simp only [intAfter, hasAtLeast_eq, List.length_append, Word.length_encode, List.drop_left,
    hword, hvalue, Word.signed_unsigned hn]
  rw [if_neg (by simp), if_neg (by simp)]

/-- The operands of a switch over a range: padding, the default, the bounds, and one target for
each key. -/
theorem Walks.tableSwitch {low high : Int} {gap next targets : List UInt8}
    (hlow : Word.FitsInt low) (hhigh : Word.FitsInt high) (hle : low ≤ high)
    (hgap : gap.length = padding offset) (hnext : next.length = 4)
    (htargets : targets.length = (high - low + 1).toNat * 4) :
    Walks offset (0xaa :: gap ++ next ++ Word.encode 4 (Word.unsigned 32 low) ++
        Word.encode 4 (Word.unsigned 32 high) ++ targets)
      [⟨offset, 0xaa, gap ++ next ++ Word.encode 4 (Word.unsigned 32 low) ++
        Word.encode 4 (Word.unsigned 32 high) ++ targets⟩] := by
  simp only [List.cons_append]
  generalize hoperands : gap ++ next ++ Word.encode 4 (Word.unsigned 32 low) ++
    Word.encode 4 (Word.unsigned 32 high) ++ targets = operands
  refine single fun rest => ?_
  have hlower : intAfter (offset + 1) (operands ++ rest) (padding offset + 4) = .ok low := by
    refine intAfter_eq (show operands ++ rest = (gap ++ next) ++ (Word.encode 4 _ ++
      (Word.encode 4 (Word.unsigned 32 high) ++ (targets ++ rest))) by simp [← hoperands]) ?_ hlow
    simp [hgap, hnext]
  have hupper : intAfter (offset + 1) (operands ++ rest) (padding offset + 8) = .ok high := by
    refine intAfter_eq (show operands ++ rest =
      (gap ++ next ++ Word.encode 4 (Word.unsigned 32 low)) ++
        (Word.encode 4 _ ++ (targets ++ rest)) by simp [← hoperands]) ?_ hhigh
    simp [hgap, hnext]
  have hlength : operands.length = padding offset + 12 + (high - low + 1).toNat * 4 := by
    simp only [← hoperands, List.length_append, hgap, hnext, Word.length_encode, htargets]
  have hlayout : Layout.of (0xaa : UInt8).toNat = .tableSwitch := by decide
  simp only [announced, hlayout, hlower, hupper, hlength]
  simp only [bind, Except.bind, if_neg (Int.not_lt.mpr hle)]
  rfl

/-- The operands of a switch over some keys: padding, the default, the number of keys, and a key
and a target for each. -/
theorem Walks.lookupSwitch {count : Nat} {gap next pairs : List UInt8} (hcount : Word.FitsInt count)
    (hgap : gap.length = padding offset) (hnext : next.length = 4)
    (hpairs : pairs.length = count * 8) :
    Walks offset (0xab :: gap ++ next ++ Word.encode 4 count ++ pairs)
      [⟨offset, 0xab, gap ++ next ++ Word.encode 4 count ++ pairs⟩] := by
  simp only [List.cons_append]
  generalize hoperands : gap ++ next ++ Word.encode 4 count ++ pairs = operands
  refine single fun rest => ?_
  have hword : Word.unsigned 32 count = count := Word.unsigned_natCast hcount
  have hnumber : intAfter (offset + 1) (operands ++ rest) (padding offset + 4) =
      .ok (count : Int) := by
    refine intAfter_eq (show operands ++ rest = (gap ++ next) ++ (Word.encode 4 _ ++
      (pairs ++ rest)) by simp [← hoperands, hword]) ?_ hcount
    simp [hgap, hnext]
  have hlength : operands.length = padding offset + 8 + count * 8 := by
    simp only [← hoperands, List.length_append, hgap, hnext, Word.length_encode, hpairs]
  have hlayout : Layout.of (0xab : UInt8).toNat = .lookupSwitch := by decide
  have hnonneg : ¬ (count : Int) < 0 := Int.not_lt.mpr (Int.natCast_nonneg count)
  simp only [announced, hlayout, hnumber, hlength]
  simp only [bind, Except.bind, if_neg hnonneg, Int.toNat_natCast]
  rfl

/-! ### Plain code -/

/-- An opcode that makes no call: none of `invokevirtual`, `invokespecial`, `invokestatic`,
`invokeinterface` and `invokedynamic`. -/
def Silent (opcode : Nat) : Prop :=
  opcode ∉ [0xb6, 0xb7, 0xb8, 0xb9, 0xba]
deriving Decidable

/-- The opcodes that are silent are those that are not looked at for calls. -/
theorem silent_iff {opcode : Nat} :
    Silent opcode ↔ InvokeKind.ofOpcode? opcode = none ∧ opcode ≠ dynamicOpcode := by
  have hkind : InvokeKind.ofOpcode? opcode = none ↔
      opcode ≠ 0xb6 ∧ opcode ≠ 0xb7 ∧ opcode ≠ 0xb8 ∧ opcode ≠ 0xb9 := by
    unfold InvokeKind.ofOpcode?
    grind
  simp [Silent, hkind, dynamicOpcode, and_assoc]

/-- An opcode with all its operands that neither calls nor switches. -/
def Plain (b : UInt8) (operands : List UInt8) : Prop :=
  Silent b.toNat ∧
    match Layout.of b.toNat with
    | .fixed n => operands.length = n
    | .wide => operands.length = if operands.head?.map UInt8.toNat = some iincOpcode then 5 else 3
    | _ => False

/-- Plain instructions, one after the other. -/
inductive PlainCode : List UInt8 → Prop
  | nil : PlainCode []
  | cons {b : UInt8} {operands code : List UInt8} (first : Plain b operands)
      (rest : PlainCode code) : PlainCode (b :: (operands ++ code))

theorem Plain.walks (h : Plain b operands) (offset : Nat) :
    Walks offset (b :: operands) [⟨offset, b.toNat, operands⟩] := by
  obtain ⟨-, hlayout⟩ := h
  split at hlayout
  · rename_i n hof
    exact Walks.fixed (hlayout ▸ hof)
  · rename_i hof
    refine Walks.single fun rest => ?_
    cases operands with
    | nil => simp at hlayout
    | cons next more =>
      simp only [announced, hof, List.cons_append]
      rw [hlayout]
      simp
  · exact hlayout.elim

/-- An instruction that neither calls nor switches. -/
def Placed.IsPlain (i : Placed) : Prop :=
  Silent i.opcode ∧ Layout.of i.opcode ≠ .tableSwitch ∧ Layout.of i.opcode ≠ .lookupSwitch
deriving Decidable

theorem Plain.isPlain (h : Plain b operands) (offset : Nat) :
    Placed.IsPlain ⟨offset, b.toNat, operands⟩ := by
  obtain ⟨hsilent, hlayout⟩ := h
  refine ⟨hsilent, fun hof => ?_, fun hof => ?_⟩ <;> rw [hof] at hlayout <;> exact hlayout

/-- Plain code walks at every offset as plain instructions. -/
theorem PlainCode.walks (h : PlainCode code) (offset : Nat) :
    ∃ placed, Walks offset code placed ∧ ∀ i ∈ placed, i.IsPlain := by
  induction h generalizing offset with
  | nil => exact ⟨[], Walks.nil offset, fun _ hi => absurd hi List.not_mem_nil⟩
  | @cons b operands code first rest ih =>
    obtain ⟨placed, hwalks, hplain⟩ := ih (offset + (b :: operands).length)
    refine ⟨_, (first.walks offset).append hwalks, ?_⟩
    intro i hi
    rcases List.mem_append.mp hi with hfirst | hrest
    · rw [List.mem_singleton.mp hfirst]
      exact first.isPlain offset
    · exact hplain i hrest

theorem operandCount_inv {opcode n : Nat} {rest : List UInt8}
    (h : operandCount offset opcode rest = .ok n) :
    announced offset opcode rest = .ok n ∧ n ≤ rest.length := by
  unfold operandCount at h
  cases hannounced : announced offset opcode rest with
  | error fault => simp [hannounced, bind, Except.bind] at h
  | ok k =>
    simp only [hannounced, bind, Except.bind, hasAtLeast_eq, decide_eq_true_eq] at h
    split at h
    · cases h
      exact ⟨rfl, ‹_›⟩
    · cases h

/-- An instruction of the walk that neither calls nor switches is plain. -/
theorem plain_of_operandCount {rest : List UInt8} {n : Nat}
    (hcount : operandCount offset b.toNat rest = .ok n)
    (hplain : Placed.IsPlain ⟨offset, b.toNat, rest.take n⟩) : Plain b (rest.take n) := by
  obtain ⟨hsilent, htable, hlookup⟩ := hplain
  obtain ⟨hannounced, hle⟩ := operandCount_inv hcount
  refine ⟨hsilent, ?_⟩
  unfold announced at hannounced
  cases hof : Layout.of b.toNat with
  | fixed k =>
    simp only [hof, Except.ok.injEq] at hannounced
    rw [List.length_take_of_le hle, hannounced]
  | tableSwitch => exact absurd hof htable
  | lookupSwitch => exact absurd hof hlookup
  | wide =>
    rw [hof] at hannounced
    -- The first operand is the opcode that is widened, and it decides how many there are.
    cases rest with
    | nil => cases hannounced
    | cons next more =>
      simp only [Except.ok.injEq] at hannounced
      have hpos : n ≠ 0 := by
        rw [← hannounced]
        split <;> simp
      rw [List.length_take_of_le hle, List.head?_take, if_neg hpos, ← hannounced]
      simp
  | unknown => simp [hof] at hannounced

/-- Every instruction of a walk stands in the code whole, and has the operands that it announces
there. -/
theorem exists_split_of_mem_walk {i : Placed} (hi : i ∈ (walk offset code).1) :
    ∃ before b after, code = before ++ b :: (i.operands ++ after) ∧
      i.offset = offset + before.length ∧ i.opcode = b.toNat ∧
      operandCount i.offset i.opcode (i.operands ++ after) = .ok i.operands.length := by
  fun_induction walk offset code with
  | case1 => cases hi
  | case2 => cases hi
  | case3 offset b rest n hcount more fault hwalk ih =>
    have hlength : (rest.take n).length = n := List.length_take_of_le (operandCount_inv hcount).2
    rcases List.mem_cons.mp hi with rfl | hmore
    · refine ⟨[], b, rest.drop n, ?_, rfl, rfl, ?_⟩
      · rw [List.take_append_drop, List.nil_append]
      · rw [List.take_append_drop, hlength, hcount]
    · rw [hwalk] at ih
      obtain ⟨before, c, after, hcode, hoffset, hopcode, hi⟩ := ih hmore
      refine ⟨b :: rest.take n ++ before, c, after, ?_, ?_, hopcode, hi⟩
      · rw [List.cons_append, List.cons_append, List.append_assoc, ← hcode,
          List.take_append_drop]
      · rw [hoffset, List.length_append, List.length_cons, hlength]
        omega

/-- The operands of a call begin with an index. -/
theorem layout_of_not_silent {opcode : Nat} (hcall : ¬ Silent opcode) :
    Layout.of opcode = .fixed 2 ∨ Layout.of opcode = .fixed 4 := by
  have hopcode : opcode ∈ [0xb6, 0xb7, 0xb8, 0xb9, 0xba] := Decidable.not_not.mp hcall
  simp only [List.mem_cons, List.not_mem_nil, or_false] at hopcode
  rcases hopcode with rfl | rfl | rfl | rfl | rfl <;> decide

/-- An instruction that calls has the two bytes of an index. -/
theorem two_le_of_operandCount {opcode n : Nat} {rest : List UInt8}
    (hcount : operandCount offset opcode rest = .ok n) (hcall : ¬ Silent opcode) : 2 ≤ n := by
  have hannounced := (operandCount_inv hcount).1
  unfold announced at hannounced
  rcases layout_of_not_silent hcall with hlayout | hlayout
  · simp only [hlayout, Except.ok.injEq] at hannounced
    omega
  · simp only [hlayout, Except.ok.injEq] at hannounced
    omega

theorem two_le_length_operands {i : Placed} (hi : i ∈ (walk offset code).1)
    (hcall : ¬ Silent i.opcode) : 2 ≤ i.operands.length := by
  obtain ⟨-, -, after, -, -, -, hcount⟩ := exists_split_of_mem_walk hi
  exact two_le_of_operandCount hcount hcall

theorem plainCode_of_walk (hfault : (walk offset code).2 = none)
    (hplain : ∀ i ∈ (walk offset code).1, i.IsPlain) : PlainCode code := by
  fun_induction walk offset code with
  | case1 => exact PlainCode.nil
  | case2 offset b rest fault hcount => cases hfault
  | case3 offset b rest n hcount more fault hwalk ih =>
    rw [List.forall_mem_cons] at hplain
    rw [hwalk] at ih
    have hrest := PlainCode.cons (plain_of_operandCount hcount hplain.1) (ih hfault hplain.2)
    rwa [List.take_append_drop] at hrest

/-- Code is plain if the walk meets plain instructions only and no fault. -/
theorem plainCode_iff : PlainCode code ↔
    (walk 0 code).2 = none ∧ ∀ i ∈ (walk 0 code).1, i.IsPlain := by
  constructor
  · intro h
    obtain ⟨placed, hwalks, hplain⟩ := h.walks 0
    rw [hwalks.walk_eq]
    exact ⟨rfl, hplain⟩
  · rintro ⟨hfault, hplain⟩
    exact plainCode_of_walk hfault hplain

instance : DecidablePred PlainCode :=
  fun _ => decidable_of_iff _ plainCode_iff.symm

end CallForest.ClassFile.Instruction
