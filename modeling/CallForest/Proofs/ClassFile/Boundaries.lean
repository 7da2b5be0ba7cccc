import Mathlib.Data.List.Chain
import Mathlib.Data.List.Pairwise
import CallForest.Proofs.ClassFile.Calls
import CallForest.Proofs.ClassFile.Faults

/-!
# Instruction boundaries

The walk through the code of a method visits an offset, takes the length of the instruction there
and goes on behind it. If it comes through, the visited offsets cut the code into instructions: they
increase, each is the one before plus the length of the instruction there, the last instruction ends
where the code ends, and so every byte belongs to exactly one instruction. The calls found are those
of the visited instructions, one for each that calls something.

The walk follows the code as a list that gets shorter. The same calls are found by a loop that keeps
the code whole and fetches each byte at its offset, where a fetch from outside the code is a fault
of its own. That fault never arises, so nothing outside the code is ever read.

## Main definitions

* `Instruction.Visits` — the offsets that the lengths of the instructions lead through;
* `Instruction.Cuts` — offsets that cut the code into instructions;
* `fetchLength` — the length of the instruction at an offset, each byte fetched at its offset;
* `callsFrom` — the calls from an offset on, read the same way;
* `MadeAt` — the calls that the instruction at an offset makes.

## Main results

* `Instruction.Visits.cuts` — the visited offsets cut the code into instructions;
* `Instruction.visits_walk` — the walk visits them;
* `invocations_eq_callsFrom` — the walk and the loop find the same calls;
* `invocations_exact` — the calls found are those of the instructions, and no byte is read outside
  the code.
-/

namespace CallForest.ClassFile

namespace Instruction

variable {code : List UInt8} {offset n k p : Nat} {offsets more : List Nat}

/-! ### Offsets that are visited -/

/-- Going from `offset` on by the lengths of the instructions leads through the given offsets and
ends exactly where the code ends. -/
inductive Visits (code : List UInt8) : Nat → List Nat → Prop
  | done : Visits code code.length []
  | step {offset n : Nat} {more : List Nat} (hlength : lengthAt code offset = .ok n)
      (hmore : Visits code (offset + n) more) : Visits code offset (offset :: more)

/-- The offsets, with the length of the code after them, go up from zero by the lengths of the
instructions, and every byte belongs to one instruction. -/
structure Cuts (code : List UInt8) (offsets : List Nat) : Prop where
  first : (offsets ++ [code.length]).head? = some 0
  next : (offsets ++ [code.length]).IsChain fun p q => p < q ∧ lengthAt code p = .ok (q - p)
  covers : ∀ k < code.length, ∃! p, p ∈ offsets ∧
    ∃ n, lengthAt code p = .ok n ∧ p ≤ k ∧ k < p + n

theorem lengthAt_append (front rest : List UInt8) (b : UInt8) :
    lengthAt (front ++ b :: rest) front.length =
      (operandCount front.length b.toNat rest).map (1 + ·) := by
  simp only [lengthAt, List.drop_left]
  cases operandCount front.length b.toNat rest <;> rfl

theorem lengthAt_eq_ok {front rest : List UInt8} {b : UInt8}
    (hcount : operandCount front.length b.toNat rest = .ok n) :
    lengthAt (front ++ b :: rest) front.length = .ok (1 + n) := by
  rw [lengthAt_append, hcount]
  rfl

/-- The code behind an instruction, as the rest of the same code. -/
theorem append_behind (front rest : List UInt8) (b : UInt8) (n : Nat) :
    front ++ b :: rest = (front ++ b :: rest.take n) ++ rest.drop n := by
  rw [List.append_assoc, List.cons_append, List.take_append_drop]

/-- An instruction has at least its opcode and ends inside the code. -/
theorem lengthAt_bounds (h : lengthAt code offset = .ok n) : 0 < n ∧ offset + n ≤ code.length := by
  unfold lengthAt at h
  split at h
  · cases h
  · rename_i b rest hdrop
    have hlength := congrArg List.length hdrop
    rw [List.length_drop, List.length_cons] at hlength
    cases hcount : operandCount offset b.toNat rest with
    | error fault =>
      rw [hcount] at h
      cases h
    | ok operands =>
      rw [hcount] at h
      cases h
      have hle := (operandCount_inv hcount).2
      omega

namespace Visits

theorem head (h : Visits code offset offsets) :
    (offsets ++ [code.length]).head? = some offset := by
  cases h <;> rfl

theorem isChain (h : Visits code offset offsets) :
    (offsets ++ [code.length]).IsChain fun p q => p < q ∧ lengthAt code p = .ok (q - p) := by
  induction h with
  | done => exact List.isChain_singleton _
  | @step offset n more hlength hmore ih =>
    rw [List.cons_append, List.isChain_cons]
    refine ⟨fun q hq => ?_, ih⟩
    rw [hmore.head, Option.mem_some_iff] at hq
    subst hq
    have hpos := (lengthAt_bounds hlength).1
    exact ⟨by omega, by rw [Nat.add_sub_cancel_left, hlength]⟩

theorem le_of_mem (h : Visits code offset offsets) : ∀ p ∈ offsets, offset ≤ p := by
  induction h with
  | done => exact fun p hp => absurd hp List.not_mem_nil
  | step hlength _ ih =>
    rw [List.forall_mem_cons]
    exact ⟨Nat.le_refl _, fun p hp => Nat.le_trans (Nat.le_add_right _ _) (ih p hp)⟩

theorem pairwise_lt (h : Visits code offset offsets) : offsets.Pairwise (· < ·) := by
  induction h with
  | done => exact List.Pairwise.nil
  | step hlength hmore ih =>
    refine List.Pairwise.cons (fun p hp => ?_) ih
    have hpos := (lengthAt_bounds hlength).1
    have hle := hmore.le_of_mem p hp
    omega

/-- A byte from the first visited offset on belongs to a visited instruction. -/
theorem exists_covering (h : Visits code offset offsets) (hlow : offset ≤ k)
    (hhigh : k < code.length) :
    ∃ p ∈ offsets, ∃ n, lengthAt code p = .ok n ∧ p ≤ k ∧ k < p + n := by
  induction h with
  | done => omega
  | @step offset n more hlength _ ih =>
    by_cases hk : k < offset + n
    · exact ⟨offset, List.mem_cons_self, n, hlength, hlow, hk⟩
    · obtain ⟨p, hp, hcovers⟩ := ih (by omega)
      exact ⟨p, List.mem_cons_of_mem _ hp, hcovers⟩

/-- An instruction ends before the next one begins. -/
theorem end_le (h : Visits code offset offsets) {q : Nat} (hp : p ∈ offsets) (hq : q ∈ offsets)
    (hlt : p < q) (hlength : lengthAt code p = .ok n) : p + n ≤ q := by
  induction h with
  | done => cases hp
  | @step offset m more hfirst hmore ih =>
    rcases List.mem_cons.mp hq with rfl | hq'
    · have := (Visits.step hfirst hmore).le_of_mem p hp
      omega
    rcases List.mem_cons.mp hp with rfl | hp'
    · rw [hfirst] at hlength
      cases hlength
      exact hmore.le_of_mem q hq'
    · exact ih hp' hq'

/-- No byte belongs to two instructions. -/
theorem covering_unique (h : Visits code offset offsets) {q m : Nat} (hp : p ∈ offsets)
    (hq : q ∈ offsets) (hlength : lengthAt code p = .ok n) (hlength' : lengthAt code q = .ok m)
    (hk : p ≤ k ∧ k < p + n) (hk' : q ≤ k ∧ k < q + m) : p = q := by
  rcases Nat.lt_trichotomy p q with hlt | heq | hlt
  · have := h.end_le hp hq hlt hlength
    omega
  · exact heq
  · have := h.end_le hq hp hlt hlength'
    omega

/-- What is visited from the beginning cuts the code into instructions. -/
theorem cuts (h : Visits code 0 offsets) : Cuts code offsets where
  first := h.head
  next := h.isChain
  covers k hk := by
    obtain ⟨p, hp, n, hlength, hcovers⟩ := h.exists_covering (Nat.zero_le k) hk
    refine ⟨p, ⟨hp, n, hlength, hcovers⟩, ?_⟩
    rintro q ⟨hq, m, hlength', hcovers'⟩
    exact h.covering_unique hq hp hlength' hlength hcovers' hcovers

end Visits

/-- A walk that comes through visits the offsets of its instructions. -/
theorem visits_walk {front rest : List UInt8} (hfront : front.length = offset)
    (hfault : (walk offset rest).2 = none) :
    Visits (front ++ rest) offset ((walk offset rest).1.map Placed.offset) := by
  fun_induction walk offset rest generalizing front with
  | case1 offset =>
    subst hfront
    rw [List.map_nil, List.append_nil]
    exact Visits.done
  | case2 => cases hfault
  | case3 offset b rest n hcount more fault hwalk ih =>
    subst hfront
    rw [hwalk] at ih
    have hle := (operandCount_inv hcount).2
    apply Visits.step (lengthAt_eq_ok hcount)
    rw [append_behind front rest b n, ← Nat.add_assoc]
    refine ih ?_ hfault
    rw [List.length_append, List.length_cons, List.length_take_of_le hle]
    omega

/-- An instruction of the walk has the length that is found at its offset. -/
theorem lengthAt_of_mem_walk {i : Placed} (hi : i ∈ (walk 0 code).1) :
    lengthAt code i.offset = .ok i.length := by
  obtain ⟨before, b, after, hcode, hoffset, hopcode, hcount⟩ := exists_split_of_mem_walk hi
  rw [Nat.zero_add] at hoffset
  rw [hoffset, hopcode] at hcount
  rw [hcode, hoffset, lengthAt_append, hcount]
  rfl

namespace Walks

variable {placed : List Placed} {i : Placed}

theorem offset_bounds (h : Walks offset code placed) (hi : i ∈ placed) :
    offset ≤ i.offset ∧ i.offset < offset + code.length := by
  have hmem : i ∈ (walk offset code).1 := by rwa [h.walk_eq]
  obtain ⟨before, b, after, hcode, hoffset, -⟩ := exists_split_of_mem_walk hmem
  rw [hcode, List.length_append, List.length_cons]
  omega

/-- A walk begins where its code begins. -/
theorem offset_mem (h : Walks offset code placed) (hcode : code ≠ []) :
    offset ∈ placed.map Placed.offset := by
  cases code with
  | nil => exact absurd rfl hcode
  | cons b rest =>
    have hwalk := h.walk_eq
    rw [walk] at hwalk
    cases hcount : operandCount offset b.toNat rest with
    | error fault => simp [hcount] at hwalk
    | ok n =>
      simp only [hcount, Prod.mk.injEq] at hwalk
      rw [← hwalk.1]
      exact List.mem_cons_self

end Walks

end Instruction

/-! ### Bytes fetched at their offsets -/

open Instruction

section Fetch

variable {pool : ConstantPool} {table : BootstrapTable} {code front rest : List UInt8} {b : UInt8}
variable {p n : Nat} {i : Placed} {placed : List Placed}

/-- The byte at an offset of the code. It is a fault to fetch one that is not there. -/
def byteAt (code : List UInt8) (offset : Nat) : Except Fault UInt8 :=
  match code[offset]? with
  | some b => .ok b
  | none => .error (.outsideCode offset)

/-- The length that the instruction with the given opcode at an offset announces. -/
def announcedAt (code : List UInt8) (offset opcode : Nat) : Except Fault Nat :=
  let base := offset + 1 + padding offset
  match Layout.of opcode with
  | .fixed n => .ok (1 + n)
  | .tableSwitch => do
    let low ← intAt code (base + 4)
    let high ← intAt code (base + 8)
    if high < low then .error (.malformed (.emptyTableRange offset))
    else return base + 12 + (high - low + 1).toNat * 4 - offset
  | .lookupSwitch => do
    let pairs ← intAt code (base + 4)
    if pairs < 0 then .error (.malformed (.negativePairCount offset))
    else return base + 8 + pairs.toNat * 8 - offset
  | .wide =>
    if offset + 1 < code.length then do
      let next ← byteAt code (offset + 1)
      return if next.toNat = iincOpcode then 6 else 4
    else .error (.malformed (.truncatedWide offset))
  | .unknown => .error (.malformed (.unknownOpcode opcode offset))

/-- The length of the instruction at an offset, which has to end inside the code. -/
def fetchLength (code : List UInt8) (offset : Nat) : Except Fault Nat := do
  let opcode ← byteAt code offset
  let n ← announcedAt code offset opcode.toNat
  if offset + n ≤ code.length then return n
  else .error (.malformed (.overrun opcode.toNat offset))

/-- The index in the two bytes after the opcode at an offset. -/
def indexAt (code : List UInt8) (offset : Nat) : Except Fault Nat := do
  let high ← byteAt code (offset + 1)
  let low ← byteAt code (offset + 2)
  return Word.decode [high, low]

/-- The call that the instruction at an offset makes, if it makes one. -/
def callAt (pool : ConstantPool) (table : BootstrapTable) (code : List UInt8) (offset : Nat) :
    Except Fault (Option Invocation) := do
  let opcode ← byteAt code offset
  match InvokeKind.ofOpcode? opcode.toNat with
  | some kind =>
    let index ← indexAt code offset
    return some { kind, target := ← pool.methodRef index, offset }
  | none =>
    if opcode.toNat = dynamicOpcode then
      let index ← indexAt code offset
      let found ← table.lambdaTarget pool index
      return found.map fun found => { kind := found.1, target := found.2, offset }
    else return none

theorem byteAt_append (front rest : List UInt8) (b : UInt8) :
    byteAt (front ++ b :: rest) front.length = .ok b := by
  simp [byteAt]

/-- The word at an offset is there if its four bytes are. -/
theorem intAt_eq (code : List UInt8) (offset : Nat) :
    intAt code offset = if code.length < offset then .error (.outOfBounds offset 0 code.length)
      else if code.length < offset + 4 then .error (.outOfBounds offset 4 code.length)
      else .ok (Word.signed 32 (Word.decode ((code.drop offset).take 4))) := by
  have hsize : (Cursor.start code).size = code.length := by simp [Cursor.start, Cursor.size]
  have hbytes : (Cursor.start code).bytes = code := rfl
  simp only [intAt, Decoder.decode, EStateM.run, bind, EStateM.bind, Decoder.seek, hsize, hbytes]
  by_cases hstart : code.length < offset
  · rw [if_pos hstart, if_pos hstart]
  · rw [if_neg hstart, if_neg hstart]
    simp only [Decoder.i32, Decoder.u32, Decoder.word, bind, EStateM.bind, Decoder.take,
      Cursor.position, Cursor.size, List.length_take, List.length_drop, List.length_reverse]
    have hseek : min offset code.length = offset := by omega
    by_cases hend : code.length < offset + 4
    · rw [if_pos (by omega), if_pos hend, hseek, Nat.add_sub_cancel' (by omega)]
    · rw [if_neg (by omega), if_neg hend]
      rfl

/-- A word after an opcode is read as the word at its offset in the code. -/
theorem intAfter_eq_intAt (front rest : List UInt8) (k : Nat) :
    intAfter front.length rest k = intAt (front ++ rest) (front.length + k) := by
  have hdrop : (front ++ rest).drop (front.length + k) = rest.drop k := by
    rw [← List.drop_drop, List.drop_left]
  simp only [intAt_eq, intAfter, hasAtLeast_eq, List.length_append, hdrop, Bool.not_eq_true',
    decide_eq_false_iff_not, Nat.not_le, Nat.add_lt_add_iff_left, Nat.add_assoc]

theorem announcedAt_append (front rest : List UInt8) (b : UInt8) (opcode : Nat) :
    announcedAt (front ++ b :: rest) front.length opcode =
      (announced front.length opcode rest).map (1 + ·) := by
  have hword (k : Nat) : intAt (front ++ b :: rest) (front.length + 1 + padding front.length + k) =
      intAfter (front.length + 1) rest (padding front.length + k) := by
    have := intAfter_eq_intAt (front ++ [b]) rest (padding front.length + k)
    rw [List.append_assoc, List.length_append, List.length_singleton] at this
    rw [this, Nat.add_assoc (front.length + 1)]
    rfl
  cases hof : Layout.of opcode with
  | fixed n => simp only [announcedAt, announced, hof, Except.map]
  | tableSwitch =>
    simp only [announcedAt, announced, hof, hword, bind, Except.bind]
    cases intAfter (front.length + 1) rest (padding front.length + 4) with
    | error fault => rfl
    | ok low =>
      cases intAfter (front.length + 1) rest (padding front.length + 8) with
      | error fault => rfl
      | ok high =>
        by_cases hempty : high < low
        · simp only [if_pos hempty, Except.map]
        · simp only [if_neg hempty, Except.map, pure, Except.pure, Except.ok.injEq]
          omega
  | lookupSwitch =>
    simp only [announcedAt, announced, hof, hword, bind, Except.bind]
    cases intAfter (front.length + 1) rest (padding front.length + 4) with
    | error fault => rfl
    | ok pairs =>
      by_cases hnegative : pairs < 0
      · simp only [if_pos hnegative, Except.map]
      · simp only [if_neg hnegative, Except.map, pure, Except.pure, Except.ok.injEq]
        omega
  | wide =>
    cases rest with
    | nil => simp [announcedAt, announced, hof, Except.map]
    | cons next rest =>
      have hnext : byteAt (front ++ b :: next :: rest) (front.length + 1) = .ok next := by
        have := byteAt_append (front ++ [b]) rest next
        rwa [List.append_assoc, List.length_append, List.length_singleton] at this
      simp only [announcedAt, announced, hof, hnext, bind, Except.bind]
      rw [if_pos (by simp)]
      by_cases hiinc : next.toNat = iincOpcode
      · simp only [if_pos hiinc]
        rfl
      · simp only [if_neg hiinc]
        rfl
  | unknown => simp only [announcedAt, announced, hof, Except.map]

/-- Fetching the bytes of an instruction at their offsets gives its length. -/
theorem fetchLength_eq (code : List UInt8) (offset : Nat) :
    fetchLength code offset = lengthAt code offset := by
  by_cases hoffset : offset < code.length
  · have hsplit : code = code.take offset ++ code[offset] :: code.drop (offset + 1) := by
      rw [← List.drop_eq_getElem_cons hoffset, List.take_append_drop]
    have hfront : (code.take offset).length = offset := List.length_take_of_le (by omega)
    generalize code.take offset = front at hsplit hfront
    generalize code[offset] = b at hsplit
    generalize code.drop (offset + 1) = rest at hsplit
    subst hsplit hfront
    rw [lengthAt_append, fetchLength, byteAt_append, operandCount]
    simp only [bind, Except.bind, announcedAt_append]
    cases announced front.length b.toNat rest with
    | error fault => rfl
    | ok n =>
      simp only [Except.map, hasAtLeast_eq, List.length_append, List.length_cons]
      by_cases hn : n ≤ rest.length
      · rw [if_pos (by omega), if_pos (decide_eq_true hn)]
        rfl
      · rw [if_neg (by omega), if_neg (by simpa using hn)]
        rfl
  · have hnone : code[offset]? = none := List.getElem?_eq_none (by omega)
    have hdrop : code.drop offset = [] := List.drop_eq_nil_of_le (by omega)
    simp only [fetchLength, byteAt, hnone, lengthAt, hdrop]
    rfl

/-- The calls from an offset on. Each round takes the length of one instruction, finds the call that
it makes and goes on behind it. -/
def callsFrom (pool : ConstantPool) (table : BootstrapTable) (code : List UInt8) (offset : Nat) :
    Except Fault (List Invocation) :=
  if offset < code.length then
    match _ : fetchLength code offset with
    | .error fault => .error fault
    | .ok n => do
      let call ← callAt pool table code offset
      let more ← callsFrom pool table code (offset + n)
      return call.toList ++ more
  else .ok []
termination_by code.length - offset
decreasing_by
  have := lengthAt_bounds ((fetchLength_eq code offset).symm.trans ‹_›)
  omega

/-- The calls that the instruction at an offset makes: a call makes one, a dynamic call site as many
as its lambda has targets, and any other instruction none. -/
inductive MadeAt (pool : ConstantPool) (table : BootstrapTable) (code : List UInt8) (p : Nat) :
    List Invocation → Prop
  | call {b : UInt8} {kind : InvokeKind} {index : Nat} {target : MemberRef}
      (hopcode : byteAt code p = .ok b) (hkind : b.toNat = kind.opcode)
      (hindex : indexAt code p = .ok index) (htarget : pool.methodRef index = .ok target) :
      MadeAt pool table code p [⟨kind, target, p⟩]
  | lambda {b : UInt8} {kind : InvokeKind} {index : Nat} {target : MemberRef}
      (hopcode : byteAt code p = .ok b) (hdynamic : b.toNat = dynamicOpcode)
      (hindex : indexAt code p = .ok index)
      (htarget : table.lambdaTarget pool index = .ok (some (kind, target))) :
      MadeAt pool table code p [⟨kind, target, p⟩]
  | unlinked {b : UInt8} {index : Nat} (hopcode : byteAt code p = .ok b)
      (hdynamic : b.toNat = dynamicOpcode) (hindex : indexAt code p = .ok index)
      (htarget : table.lambdaTarget pool index = .ok none) : MadeAt pool table code p []
  | silent {b : UInt8} (hopcode : byteAt code p = .ok b) (hsilent : Silent b.toNat) :
      MadeAt pool table code p []

theorem indexAt_append (front rest : List UInt8) (b : UInt8) (h : 2 ≤ rest.length) :
    indexAt (front ++ b :: rest) front.length = .ok (Word.decode (rest.take 2)) := by
  match rest, h with
  | high :: low :: rest, _ =>
    have hhigh : byteAt (front ++ b :: high :: low :: rest) (front.length + 1) = .ok high := by
      have := byteAt_append (front ++ [b]) (low :: rest) high
      simpa using this
    have hlow : byteAt (front ++ b :: high :: low :: rest) (front.length + 2) = .ok low := by
      have := byteAt_append (front ++ [b, high]) rest low
      simpa using this
    rw [indexAt, hhigh, hlow]
    rfl

theorem callsFrom_of_le (h : code.length ≤ p) : callsFrom pool table code p = .ok [] := by
  rw [callsFrom, if_neg (Nat.not_lt.mpr h)]

theorem callsFrom_of_error {fault : Fault} (hp : p < code.length)
    (h : lengthAt code p = .error fault) : callsFrom pool table code p = .error fault := by
  rw [callsFrom, if_pos hp]
  split
  · rename_i first hfirst
    rw [fetchLength_eq, h] at hfirst
    cases hfirst
    rfl
  · rename_i n hlength
    rw [fetchLength_eq, h] at hlength
    cases hlength

/-- The calls from an instruction on are its own and those from the next one on. -/
theorem callsFrom_of_ok (h : lengthAt code p = .ok n) :
    callsFrom pool table code p = do
      let call ← callAt pool table code p
      let more ← callsFrom pool table code (p + n)
      return call.toList ++ more := by
  have hbounds := lengthAt_bounds h
  rw [callsFrom, if_pos (by omega)]
  split
  · rename_i fault hfault
    rw [fetchLength_eq, h] at hfault
    cases hfault
  · rename_i m hlength
    rw [fetchLength_eq, h] at hlength
    cases hlength
    rfl

/-- What an instruction of the walk calls is what the bytes at its offset call. -/
theorem invocation?_eq_callAt (hcount : operandCount front.length b.toNat rest = .ok n) :
    invocation? pool table ⟨front.length, b.toNat, rest.take n⟩ =
      callAt pool table (front ++ b :: rest) front.length := by
  simp only [callAt, byteAt_append, invocation?, bind, Except.bind]
  by_cases hsilent : Silent b.toNat
  · obtain ⟨hkind, hdynamic⟩ := silent_iff.mp hsilent
    simp only [hkind, if_neg hdynamic]
  · have htwo := two_le_of_operandCount hcount hsilent
    have hle := (operandCount_inv hcount).2
    have hindex : indexAt (front ++ b :: rest) front.length =
        .ok (Placed.index ⟨front.length, b.toNat, rest.take n⟩) := by
      rw [indexAt_append _ _ _ (by omega), Placed.index, List.take_take, Nat.min_eq_left htwo]
    simp only [hindex]
    cases hkind : InvokeKind.ofOpcode? b.toNat with
    | some kind => rfl
    | none =>
      have hdynamic : b.toNat = dynamicOpcode :=
        Decidable.not_not.mp fun h => hsilent (silent_iff.mpr ⟨hkind, h⟩)
      simp only [if_pos hdynamic]
      cases table.lambdaTarget pool (Placed.index ⟨front.length, b.toNat, rest.take n⟩) with
      | error fault => rfl
      | ok found => cases found <;> rfl

/-- The loop resolves the instructions of a walk one by one and fails where the walk does. -/
theorem mapM_walk_eq_callsFrom {offset : Nat} (hfront : front.length = offset) :
    ((walk offset rest).1.mapM (invocation? pool table) >>= fun calls =>
        (walk offset rest).2.elim (pure (calls.filterMap id)) throw) =
      callsFrom pool table (front ++ rest) offset := by
  fun_induction walk offset rest generalizing front with
  | case1 offset =>
    rw [callsFrom_of_le (by simp [hfront])]
    rfl
  | case2 offset b rest fault hcount =>
    subst hfront
    have hlength : lengthAt (front ++ b :: rest) front.length = .error fault := by
      rw [lengthAt_append, hcount]
      rfl
    rw [callsFrom_of_error (by simp) hlength]
    rfl
  | case3 offset b rest n hcount more fault hwalk ih =>
    subst hfront
    have hle := (operandCount_inv hcount).2
    have hfront : (front ++ b :: rest.take n).length = front.length + 1 + n := by
      rw [List.length_append, List.length_cons, List.length_take_of_le hle]
      omega
    have hrest := ih hfront
    rw [hwalk, ← append_behind] at hrest
    rw [callsFrom_of_ok (lengthAt_eq_ok hcount), List.mapM_cons, invocation?_eq_callAt hcount,
      ← Nat.add_assoc, ← hrest]
    cases callAt pool table (front ++ b :: rest) front.length with
    | error first => rfl
    | ok call =>
      cases more.mapM (invocation? pool table) with
      | error first => rfl
      | ok calls => cases fault <;> cases call <;> rfl

/-- The walk through the shrinking list and the loop over the whole code find the same calls. -/
theorem invocations_eq_callsFrom (pool : ConstantPool) (table : BootstrapTable)
    (code : List UInt8) : invocations pool table code = callsFrom pool table code 0 := by
  have hloop := @mapM_walk_eq_callsFrom pool table [] code 0 rfl
  rw [List.nil_append] at hloop
  rw [← hloop, invocations]
  rcases walk 0 code with ⟨placed, _ | fault⟩ <;> rfl

/-! ### Calls of the visited instructions -/

theorem InvokeKind.eq_opcode_of_ofOpcode? {kind : InvokeKind}
    (h : InvokeKind.ofOpcode? n = some kind) : n = kind.opcode := by
  unfold InvokeKind.ofOpcode? at h
  grind [InvokeKind.opcode]

theorem madeAt_of_callAt {call : Option Invocation} (h : callAt pool table code p = .ok call) :
    MadeAt pool table code p call.toList := by
  rw [callAt, bind_eq_ok_iff] at h
  obtain ⟨b, hopcode, h⟩ := h
  cases hkind : InvokeKind.ofOpcode? b.toNat with
  | some kind =>
    simp only [hkind, bind_eq_ok_iff] at h
    obtain ⟨index, hindex, target, htarget, ⟨⟩⟩ := h
    exact .call hopcode (InvokeKind.eq_opcode_of_ofOpcode? hkind) hindex htarget
  | none =>
    by_cases hdynamic : b.toNat = dynamicOpcode
    · simp only [hkind, if_pos hdynamic, bind_eq_ok_iff] at h
      obtain ⟨index, hindex, found, htarget, ⟨⟩⟩ := h
      cases found with
      | none => exact .unlinked hopcode hdynamic hindex htarget
      | some found => exact .lambda hopcode hdynamic hindex htarget
    · simp only [hkind, if_neg hdynamic] at h
      cases h
      exact .silent hopcode (silent_iff.mpr ⟨hkind, hdynamic⟩)

theorem MadeAt.offset_sublist {calls : List Invocation} (h : MadeAt pool table code p calls) :
    (calls.map Invocation.offset).Sublist [p] := by
  cases h with
  | call | lambda => exact List.Sublist.refl _
  | unlinked | silent => exact List.nil_sublist _

theorem MadeAt.offset_eq {calls : List Invocation} {call : Invocation}
    (h : MadeAt pool table code p calls) (hcall : call ∈ calls) : call.offset = p :=
  List.mem_singleton.mp (h.offset_sublist.subset (List.mem_map_of_mem hcall))

/-- The calls from an offset on are made by the instructions that are visited from there. -/
theorem exists_visits_of_callsFrom {calls : List Invocation} (hp : p ≤ code.length)
    (h : callsFrom pool table code p = .ok calls) :
    ∃ offsets made, Visits code p offsets ∧
      List.Forall₂ (MadeAt pool table code) offsets made ∧ calls = made.flatten := by
  fun_induction callsFrom pool table code p generalizing calls with
  | case1 p hlt fault hfault => cases h
  | case2 p hlt n hlength ih =>
    rw [fetchLength_eq] at hlength
    rw [bind_eq_ok_iff] at h
    obtain ⟨call, hcall, h⟩ := h
    rw [bind_eq_ok_iff] at h
    obtain ⟨more, hmore, ⟨⟩⟩ := h
    obtain ⟨offsets, made, hvisits, hmade, rfl⟩ := ih (lengthAt_bounds hlength).2 hmore
    exact ⟨p :: offsets, call.toList :: made, .step hlength hvisits,
      .cons (madeAt_of_callAt hcall) hmade, rfl⟩
  | case3 p hge =>
    cases h
    have hend : p = code.length := by omega
    subst hend
    exact ⟨[], [], .done, .nil, rfl⟩

section Made

variable {offsets : List Nat} {made : List (List Invocation)}

theorem map_offset_sublist (h : List.Forall₂ (MadeAt pool table code) offsets made) :
    (made.flatten.map Invocation.offset).Sublist offsets := by
  induction h with
  | nil => exact List.Sublist.refl _
  | cons hfirst _ ih =>
    rw [List.flatten_cons, List.map_append]
    exact hfirst.offset_sublist.append ih

theorem offset_mem {call : Invocation} (h : List.Forall₂ (MadeAt pool table code) offsets made)
    (hcall : call ∈ made.flatten) : call.offset ∈ offsets :=
  (map_offset_sublist h).subset (List.mem_map_of_mem hcall)

/-- Among the calls of increasing offsets, those at one offset are the ones made there. -/
theorem madeAt_filter (h : List.Forall₂ (MadeAt pool table code) offsets made)
    (hsorted : offsets.Pairwise (· < ·)) (hp : p ∈ offsets) :
    MadeAt pool table code p (made.flatten.filter (·.offset = p)) := by
  induction h with
  | nil => cases hp
  | @cons q first offsets made hfirst hrest ih =>
    rw [List.pairwise_cons] at hsorted
    rw [List.flatten_cons, List.filter_append]
    by_cases hpq : p = q
    · subst hpq
      have hhere : first.filter (·.offset = p) = first := by
        rw [List.filter_eq_self]
        exact fun call hcall => decide_eq_true (hfirst.offset_eq hcall)
      have hlater : made.flatten.filter (·.offset = p) = [] := by
        rw [List.filter_eq_nil_iff]
        intro call hcall hoffset
        have hlt := hsorted.1 _ (offset_mem hrest hcall)
        have := of_decide_eq_true hoffset
        omega
      rwa [hhere, hlater, List.append_nil]
    · have hlater : first.filter (·.offset = p) = [] := by
        rw [List.filter_eq_nil_iff]
        intro call hcall hoffset
        exact hpq ((of_decide_eq_true hoffset).symm.trans (hfirst.offset_eq hcall))
      rw [hlater, List.nil_append]
      exact ih hsorted.2 (List.mem_of_ne_of_mem hpq hp)

end Made

/-- The calls of a piece of code are found without reading a byte outside of it. If they are found,
the visited offsets cut the code into instructions, the calls stand at visited offsets in increasing
order, and at each visited offset they are the calls that the instruction there makes. -/
theorem invocations_exact (pool : ConstantPool) (table : BootstrapTable) (code : List UInt8) :
    invocations pool table code = callsFrom pool table code 0 ∧
      (∀ p, callsFrom pool table code 0 ≠ .error (.outsideCode p)) ∧
      ∀ calls, invocations pool table code = .ok calls → ∃ offsets, Cuts code offsets ∧
        (calls.map Invocation.offset).Pairwise (· < ·) ∧ (∀ call ∈ calls, call.offset ∈ offsets) ∧
        ∀ p ∈ offsets, MadeAt pool table code p (calls.filter (·.offset = p)) := by
  have hloop := invocations_eq_callsFrom pool table code
  refine ⟨hloop, ?_, ?_⟩
  · intro p hfault
    have hfatal := notFatal_invocations pool table code _ (hloop.trans hfault)
    cases hfatal
  · intro calls hcalls
    rw [hloop] at hcalls
    obtain ⟨offsets, made, hvisits, hmade, rfl⟩ :=
      exists_visits_of_callsFrom (Nat.zero_le _) hcalls
    refine ⟨offsets, hvisits.cuts, hvisits.pairwise_lt.sublist (map_offset_sublist hmade), ?_, ?_⟩
    · exact fun call hcall => offset_mem hmade hcall
    · exact fun p hp => madeAt_filter hmade hvisits.pairwise_lt hp

/-- A body with an aligned switch before a call, a lambda, and a call site that is linked by other
means. -/
def loggedSwitch : List BodyItem :=
  [.loadString "day", .tableSwitch 1 3, .invoke .static ⟨"shop/Log", "put", "()V"⟩,
    .lambda .virtual ⟨"shop/Job", "run", "()V"⟩, .dynamic "shop/Link" "site"]

theorem invocations_exact_loggedSwitch :
    let written := (emitBody 0 loggedSwitch).run {}
    let calls : List Invocation :=
      [⟨.static, ⟨"shop/Log", "put", "()V"⟩, 28⟩, ⟨.virtual, ⟨"shop/Job", "run", "()V"⟩, 31⟩]
    invocations written.2.pool written.2.table written.1 = .ok calls ∧
      ∃ offsets, Cuts written.1 offsets ∧ (calls.map Invocation.offset).Pairwise (· < ·) ∧
        (∀ call ∈ calls, call.offset ∈ offsets) ∧
        ∀ p ∈ offsets,
          MadeAt written.2.pool written.2.table written.1 p (calls.filter (·.offset = p)) := by
  intro written calls
  have hcalls : invocations written.2.pool written.2.table written.1 = .ok calls := by
    decide +kernel
  exact ⟨hcalls, (invocations_exact _ _ _).2.2 calls hcalls⟩

end Fetch

end CallForest.ClassFile
