import CallForest.Proofs.ClassFile.Boundaries

/-!
# The layout of a written body

The items of a body are written one after the other, each at the offset where those before it end.
What an item takes up depends on that offset, since the operands of a switch are aligned, and on the
pool, since the load of a string is shorter for a small index. All the same, the walk through the
written code comes through and visits the place where each item begins. An item that is one
instruction is visited once, and an item given by its bytes as often as it has instructions.

A switch has as many bytes of padding as the walk passes over, and its default and all its cases
lead to what comes after it.

## Main definitions

* `BodyItem.Walkable` — an item whose written form can be walked through;
* `emitItems` — the bytes of the items of a body, without the return after the last;
* `StandsAt` — how an item stands in the code of its body.

## Main results

* `isSingle_emitItem` — an item that is not given by its bytes is written as one instruction;
* `exists_walks_emitItems` — the walk comes through what is written for any items;
* `emitBody_layout` — the walk through the code of a body visits the beginning of each item.
-/

namespace CallForest.ClassFile

open Instruction

namespace BodyItem

/-- Whether the item is given by its bytes. -/
def isRaw : BodyItem → Bool
  | .raw _ => true
  | _ => false

/-- Whether the item is a switch. -/
def isSwitch : BodyItem → Bool
  | .tableSwitch .. | .lookupSwitch _ => true
  | _ => false

/-- The walk comes through the written item: a switch has a range that is not empty or a number of
keys that can be written, and bytes are plain instructions. -/
def Walkable : BodyItem → Prop
  | .tableSwitch low high => low ≤ high ∧ Word.FitsInt low ∧ Word.FitsInt high
  | .lookupSwitch keys => Word.FitsInt keys.length
  | .raw bytes => PlainCode bytes
  | _ => True

instance : (item : BodyItem) → Decidable item.Walkable
  | .tableSwitch low high =>
    inferInstanceAs (Decidable (low ≤ high ∧ Word.FitsInt low ∧ Word.FitsInt high))
  | .lookupSwitch keys => inferInstanceAs (Decidable (Word.FitsInt keys.length))
  | .raw bytes => inferInstanceAs (Decidable (PlainCode bytes))
  | .invoke .. | .lambda .. | .dynamic .. | .loadString _ => inferInstanceAs (Decidable True)

/-- What a switch says of itself after its default: its bounds, or the number of its keys. -/
def bounds : BodyItem → List Int
  | .tableSwitch low high => [low, high]
  | .lookupSwitch keys => [keys.length]
  | _ => []

/-- The offsets of the words that hold the targets of a switch at `start`, the default first. -/
def targetOffsets (start : Nat) : BodyItem → List Nat
  | .tableSwitch low high =>
    let base := start + 1 + padding start
    base :: (List.range (high - low + 1).toNat).map fun k => base + 12 + 4 * k
  | .lookupSwitch keys =>
    let base := start + 1 + padding start
    base :: (List.range keys.length).map fun k => base + 8 + 8 * k + 4
  | _ => []

end BodyItem

/-- The bytes of the items of a body from an offset on, one after the other. -/
def emitItems (offset : Nat) : List BodyItem → Build (List UInt8)
  | [] => return []
  | item :: rest => do
    let bytes ← emitItem offset item
    return bytes ++ (← emitItems (offset + bytes.length) rest)

/-- The item stands at `start` in the code as the given bytes, where `offsets` are those that the
walk through the code visits. -/
structure StandsAt (code : List UInt8) (offsets : List Nat) (start : Nat) (bytes : List UInt8)
    (item : BodyItem) : Prop where
  written : bytes <+: code.drop start
  /-- The walk comes to the beginning of the item. -/
  visited : start ∈ offsets
  /-- The walk comes to what follows the item. -/
  next_visited : start + bytes.length ∈ offsets
  /-- An item that is not given by its bytes is one instruction. -/
  single : item.isRaw = false →
    lengthAt code start = .ok bytes.length ∧
      offsets.filter (fun p => start ≤ p ∧ p < start + bytes.length) = [start]
  /-- The operands of a switch are aligned by padding that the walk passes over. -/
  padded : item.isSwitch = true → (start + 1 + padding start) % 4 = 0 ∧
    ∀ k < padding start, byteAt code (start + 1 + k) = .ok 0
  /-- The walk reads the bounds of a switch behind the padding and the default. -/
  bounds_read : ∀ k n, item.bounds[k]? = some n →
    intAt code (start + 1 + padding start + 4 + 4 * k) = .ok n
  /-- The targets of a switch lead to what follows it, if they can be written at all. -/
  targets_read : Word.FitsInt bytes.length → ∀ p ∈ item.targetOffsets start,
    intAt code p = .ok bytes.length

/-! ### One item after the other -/

section Items

variable {offset start : Nat} {item : BodyItem} {items : List BodyItem} {p : PoolBuilder}

theorem emitItems_append (offset : Nat) (before after : List BodyItem) :
    emitItems offset (before ++ after) = do
      let front ← emitItems offset before
      let back ← emitItems (offset + front.length) after
      return front ++ back := by
  induction before generalizing offset with
  | nil => rfl
  | cons item before ih =>
    simp only [List.cons_append, emitItems, ih, bind_assoc, pure_bind, List.append_assoc,
      List.length_append, Nat.add_assoc]

/-- The code of a body around one of its items. -/
theorem emitItems_split {before after : List BodyItem} {front bytes : List UInt8}
    {p q r : PoolBuilder} (hfront : (emitItems 0 before).run p = (front, q))
    (hbytes : (emitItem front.length item).run q = (bytes, r)) :
    ((emitItems 0 (before ++ item :: after)).run p).1 =
      front ++ (bytes ++ ((emitItems (front.length + bytes.length) after).run r).1) := by
  rw [emitItems_append]
  change ((emitItems 0 before).run p).1 ++ ((emitItems (0 + ((emitItems 0 before).run p).1.length)
    (item :: after)).run ((emitItems 0 before).run p).2).1 = _
  rw [hfront, Nat.zero_add]
  change front ++ (((emitItem front.length item).run q).1 ++ ((emitItems (front.length +
    ((emitItem front.length item).run q).1.length) after).run
      ((emitItem front.length item).run q).2).1) = _
  rw [hbytes]

theorem emitBody_eq (offset : Nat) (items : List BodyItem) :
    emitBody offset items = do return (← emitItems offset items) ++ [0xb1] := by
  induction items generalizing offset with
  | nil => rfl
  | cons item items ih =>
    simp only [emitBody, emitItems, ih, bind_assoc, pure_bind, List.append_assoc]

/-! ### The walk through one item -/

/-- The code is one instruction at the offset. -/
def IsSingle (offset : Nat) (code : List UInt8) : Prop :=
  ∃ b operands, code = b :: operands ∧ Walks offset code [⟨offset, b.toNat, operands⟩]

theorem isSingle_fixed {b : UInt8} {operands : List UInt8}
    (h : Layout.of b.toNat = .fixed operands.length) : IsSingle offset (b :: operands) :=
  ⟨b, operands, rfl, Walks.fixed h⟩

theorem isSingle_emitSite (offset site : Nat) : IsSingle offset (emitSite site) := by
  have hlength : (Word.encode 2 site ++ Word.encode 2 0).length = 4 := by
    rw [List.length_append, Word.length_encode, Word.length_encode]
  refine isSingle_fixed ?_
  exact hlength ▸ by decide

/-- What holds of the last step of writing, whatever was put into the pool before. -/
theorem Build.holds_bind {α β : Type} {e : Build α} {f : α → Build β} {Q : β → Prop}
    (h : ∀ a q, Q ((f a).run q).1) (p : PoolBuilder) : Q ((e >>= f).run p).1 :=
  h (e.run p).1 (e.run p).2

open Build in
/-- An item that is not given by its bytes is written as one instruction. -/
theorem isSingle_emitItem (hitem : item.Walkable) (hraw : item.isRaw = false) (offset : Nat) :
    ∀ p, IsSingle offset ((emitItem offset item).run p).1 := by
  cases item with
  | invoke kind target =>
    refine holds_bind fun index _ => isSingle_fixed ?_
    cases kind <;> simp <;> decide
  | lambda kind target =>
    exact holds_bind fun _ => holds_bind fun _ => holds_bind fun _ => holds_bind fun _ =>
      holds_bind fun _ => holds_bind fun _ => holds_bind fun _ => holds_bind fun site _ =>
        isSingle_emitSite offset site
  | dynamic owner name =>
    exact holds_bind fun _ => holds_bind fun _ => holds_bind fun _ => holds_bind fun site _ =>
      isSingle_emitSite offset site
  | loadString text =>
    refine holds_bind fun index _ => ?_
    by_cases hshort : index ≤ 255
    · rw [if_pos hshort]
      exact isSingle_fixed rfl
    · rw [if_neg hshort]
      refine isSingle_fixed ?_
      rw [Word.length_encode]
      decide
  | tableSwitch low high =>
    obtain ⟨hle, hlow, hhigh⟩ := hitem
    intro p
    exact ⟨_, _, rfl, Walks.tableSwitch hlow hhigh hle List.length_replicate
      (Word.length_encode 4 _) (by simp)⟩
  | lookupSwitch keys =>
    intro p
    exact ⟨_, _, rfl, Walks.lookupSwitch hitem List.length_replicate (Word.length_encode 4 _)
      (by simp [List.map_const'])⟩
  | raw bytes => cases hraw

/-! ### The words of a switch -/

theorem intAt_of_split {code front back : List UInt8} {n : Int} {k : Nat}
    (hcode : code = front ++ (Word.encode 4 (Word.unsigned 32 n) ++ back)) (hk : front.length = k)
    (hn : Word.FitsInt n) : intAt code k = .ok n := by
  have hread := intAfter_eq_intAt [] code k
  rw [List.nil_append, List.length_nil, Nat.zero_add] at hread
  rw [← hread]
  exact intAfter_eq hcode hk hn

/-- Pieces of one length with the same bytes after each: the bytes after the piece `j`. -/
theorem exists_split_pieces {pieces : List (List UInt8)} {next : List UInt8} {width j : Nat}
    (hpieces : ∀ piece ∈ pieces, piece.length = width) (hj : j < pieces.length) :
    ∃ front back, pieces.flatMap (· ++ next) = front ++ (next ++ back) ∧
      front.length = (width + next.length) * j + width := by
  induction pieces generalizing j with
  | nil => cases hj
  | cons piece pieces ih =>
    rw [List.forall_mem_cons] at hpieces
    cases j with
    | zero =>
      refine ⟨piece, pieces.flatMap (· ++ next), ?_, by rw [hpieces.1]; omega⟩
      rw [List.flatMap_cons, List.append_assoc]
    | succ j =>
      obtain ⟨front, back, hsplit, hlength⟩ := ih hpieces.2 (Nat.lt_of_succ_lt_succ hj)
      refine ⟨piece ++ next ++ front, back, ?_, ?_⟩
      · rw [List.flatMap_cons, hsplit, List.append_assoc (piece ++ next)]
      · rw [List.length_append, List.length_append, hlength, hpieces.1, Nat.mul_succ]
        omega

/-- What follows the padding stands at a multiple of four. -/
theorem padding_aligned (start : Nat) : (start + 1 + padding start) % 4 = 0 := by
  unfold padding
  omega

/-- The bytes of a switch: padding, the default, what it says of itself, and its cases, each of
which ends with the same target as the default. -/
def switchBytes (opcode : UInt8) (gap : Nat) (next words : List UInt8)
    (pieces : List (List UInt8)) : List UInt8 :=
  opcode :: (List.replicate gap 0 ++ (next ++ (words ++ pieces.flatMap (· ++ next))))

theorem emitItem_tableSwitch (offset : Nat) (low high : Int) (p : PoolBuilder) :
    ((emitItem offset (.tableSwitch low high)).run p).1 =
      switchBytes 0xaa (padding offset)
        (Word.encode 4 (1 + padding offset + 12 + (high - low + 1).toNat * 4))
        (Word.encode 4 (Word.unsigned 32 low) ++ Word.encode 4 (Word.unsigned 32 high))
        (List.replicate (high - low + 1).toNat []) := by
  change _ :: List.replicate _ _ ++ _ ++ _ ++ _ ++ _ = _
  simp [switchBytes, List.flatMap_replicate]

theorem emitItem_lookupSwitch (offset : Nat) (keys : List Int) (p : PoolBuilder) :
    ((emitItem offset (.lookupSwitch keys)).run p).1 =
      switchBytes 0xab (padding offset)
        (Word.encode 4 (1 + padding offset + 8 + keys.length * 8))
        (Word.encode 4 keys.length)
        ((keys.mergeSort (· ≤ ·)).map fun key => Word.encode 4 (Word.unsigned 32 key)) := by
  change _ :: List.replicate _ _ ++ _ ++ _ ++ _ = _
  simp [switchBytes, List.flatMap_map]

section Switch

variable {front back next words : List UInt8} {pieces : List (List UInt8)} {opcode : UInt8}
  {gap width : Nat}

theorem byteAt_switchBytes {k : Nat} (hk : k < gap) :
    byteAt (front ++ (switchBytes opcode gap next words pieces ++ back)) (front.length + 1 + k) =
      .ok 0 := by
  have hget : (front ++ (switchBytes opcode gap next words pieces ++ back))[front.length + 1 + k]? =
      some 0 := by
    rw [Nat.add_assoc, List.getElem?_append_right (Nat.le_add_right _ _), Nat.add_sub_cancel_left,
      switchBytes, List.cons_append, Nat.add_comm 1, List.getElem?_cons_succ, List.append_assoc,
      List.getElem?_append_left (by simpa using hk), List.getElem?_replicate, if_pos hk]
  rw [byteAt, hget]

/-- The default of a switch is read behind its padding. -/
theorem intAt_default {n : Int} (hn : Word.FitsInt n)
    (hnext : next = Word.encode 4 (Word.unsigned 32 n)) :
    intAt (front ++ (switchBytes opcode gap next words pieces ++ back)) (front.length + 1 + gap) =
      .ok n := by
  subst hnext
  have hcode : front ++ (switchBytes opcode gap (Word.encode 4 (Word.unsigned 32 n)) words pieces ++
      back) = (front ++ opcode :: List.replicate gap 0) ++ (Word.encode 4 (Word.unsigned 32 n) ++
        (words ++ pieces.flatMap (· ++ Word.encode 4 (Word.unsigned 32 n)) ++ back)) := by
    simp [switchBytes]
  refine intAt_of_split hcode ?_ hn
  simp
  omega

/-- The cases of a switch are read behind what the switch says of itself. -/
theorem intAt_case {n : Int} (hn : Word.FitsInt n)
    (hnext : next = Word.encode 4 (Word.unsigned 32 n))
    (hpieces : ∀ piece ∈ pieces, piece.length = width) {j k : Nat} (hj : j < pieces.length)
    (hk : k = front.length + 1 + gap + (4 + words.length) + ((width + 4) * j + width)) :
    intAt (front ++ (switchBytes opcode gap next words pieces ++ back)) k = .ok n := by
  subst hnext hk
  obtain ⟨first, rest, hsplit, hlength⟩ := exists_split_pieces hpieces hj
  have hcode : front ++ (switchBytes opcode gap (Word.encode 4 (Word.unsigned 32 n)) words pieces ++
      back) = (front ++ (opcode :: List.replicate gap 0) ++ Word.encode 4 (Word.unsigned 32 n) ++
        words ++ first) ++ (Word.encode 4 (Word.unsigned 32 n) ++ (rest ++ back)) := by
    rw [switchBytes, hsplit]
    simp
  refine intAt_of_split hcode ?_ hn
  rw [Word.length_encode] at hlength
  simp [hlength]
  omega

/-- What a switch says of itself is read behind its default. -/
theorem intAt_words {n : Int} (hn : Word.FitsInt n) (hnext : next.length = 4)
    {before after : List UInt8} (hwords : words = before ++ (Word.encode 4 (Word.unsigned 32 n) ++
      after)) {k : Nat} (hk : before.length = k) :
    intAt (front ++ (switchBytes opcode gap next words pieces ++ back))
      (front.length + 1 + gap + 4 + k) = .ok n := by
  subst hwords hk
  have hcode : front ++ (switchBytes opcode gap next (before ++
      (Word.encode 4 (Word.unsigned 32 n) ++ after)) pieces ++ back) =
      (front ++ (opcode :: List.replicate gap 0) ++ next ++ before) ++
        (Word.encode 4 (Word.unsigned 32 n) ++ (after ++ pieces.flatMap (· ++ next) ++ back)) := by
    simp [switchBytes]
  refine intAt_of_split hcode ?_ hn
  simp [hnext]
  omega

theorem length_switchBytes (hnext : next.length = 4)
    (hpieces : ∀ piece ∈ pieces, piece.length = width) :
    (switchBytes opcode gap next words pieces).length =
      1 + gap + (4 + words.length) + (width + 4) * pieces.length := by
  have hcases : (pieces.flatMap (· ++ next)).length = (width + 4) * pieces.length := by
    induction pieces with
    | nil => rfl
    | cons piece pieces ih =>
      rw [List.forall_mem_cons] at hpieces
      rw [List.flatMap_cons, List.length_append, List.length_append, ih hpieces.2, hpieces.1, hnext,
        List.length_cons, Nat.mul_succ]
      omega
  simp only [switchBytes, List.length_cons, List.length_append, List.length_replicate, hnext,
    hcases]
  omega

theorem forall_mem_replicate_nil {n : Nat} :
    ∀ piece ∈ List.replicate n ([] : List UInt8), piece.length = 0 := by
  intro piece hpiece
  rw [List.eq_of_mem_replicate hpiece, List.length_nil]

theorem forall_mem_map_encode {keys : List Int} :
    ∀ piece ∈ keys.map fun key => Word.encode 4 (Word.unsigned 32 key), piece.length = 4 := by
  rw [List.forall_mem_map]
  exact fun key _ => Word.length_encode 4 _

/-- The padding of a switch is filled with zeros. -/
theorem padding_emitItem (hswitch : item.isSwitch = true) (front back : List UInt8)
    (p : PoolBuilder) {k : Nat} (hk : k < padding front.length) :
    byteAt (front ++ (((emitItem front.length item).run p).1 ++ back)) (front.length + 1 + k) =
      .ok 0 := by
  cases item with
  | tableSwitch low high =>
    rw [emitItem_tableSwitch]
    exact byteAt_switchBytes hk
  | lookupSwitch keys =>
    rw [emitItem_lookupSwitch]
    exact byteAt_switchBytes hk
  | invoke | lambda | dynamic | loadString | raw => cases hswitch

/-- The bounds of a switch stand behind its padding, one word each. -/
theorem bounds_emitItem (hitem : item.Walkable) (front back : List UInt8) (p : PoolBuilder)
    {k : Nat} {n : Int} (hn : item.bounds[k]? = some n) :
    intAt (front ++ (((emitItem front.length item).run p).1 ++ back))
      (front.length + 1 + padding front.length + 4 + 4 * k) = .ok n := by
  cases item with
  | tableSwitch low high =>
    rw [emitItem_tableSwitch]
    obtain ⟨-, hlow, hhigh⟩ := hitem
    match k, hn with
    | 0, rfl => exact intAt_words hlow (Word.length_encode 4 _) (List.nil_append _).symm rfl
    | 1, rfl =>
      have hwords : Word.encode 4 (Word.unsigned 32 low) ++ Word.encode 4 (Word.unsigned 32 high) =
          Word.encode 4 (Word.unsigned 32 low) ++
            (Word.encode 4 (Word.unsigned 32 high) ++ []) := by
        rw [List.append_nil]
      exact intAt_words hhigh (Word.length_encode 4 _) hwords (Word.length_encode 4 _)
  | lookupSwitch keys =>
    rw [emitItem_lookupSwitch]
    match k, hn with
    | 0, rfl =>
      have hwords : Word.encode 4 keys.length =
          [] ++ (Word.encode 4 (Word.unsigned 32 keys.length) ++ []) := by
        rw [Word.unsigned_natCast hitem, List.append_nil, List.nil_append]
      exact intAt_words hitem (Word.length_encode 4 _) hwords rfl
  | invoke | lambda | dynamic | loadString | raw => cases hn

theorem length_emitItem_tableSwitch (offset : Nat) (low high : Int) (p : PoolBuilder) :
    ((emitItem offset (.tableSwitch low high)).run p).1.length =
      1 + padding offset + 12 + (high - low + 1).toNat * 4 := by
  rw [emitItem_tableSwitch, length_switchBytes (Word.length_encode 4 _) forall_mem_replicate_nil,
    List.length_append, Word.length_encode, Word.length_encode, List.length_replicate]
  omega

theorem length_emitItem_lookupSwitch (offset : Nat) (keys : List Int) (p : PoolBuilder) :
    ((emitItem offset (.lookupSwitch keys)).run p).1.length =
      1 + padding offset + 8 + keys.length * 8 := by
  rw [emitItem_lookupSwitch, length_switchBytes (Word.length_encode 4 _) forall_mem_map_encode,
    Word.length_encode, List.length_map, List.length_mergeSort]
  omega

/-- The targets of a written switch are all its own length. -/
theorem targets_emitItem (front back : List UInt8) (p : PoolBuilder)
    (hfits : Word.FitsInt ((emitItem front.length item).run p).1.length) :
    ∀ k ∈ item.targetOffsets front.length,
      intAt (front ++ (((emitItem front.length item).run p).1 ++ back)) k =
        .ok ((emitItem front.length item).run p).1.length := by
  -- The length is written as a word without sign and read back as one with sign.
  have hword {length : Nat} (hlength : Word.FitsInt length) :
      Word.encode 4 length = Word.encode 4 (Word.unsigned 32 length) := by
    rw [Word.unsigned_natCast hlength]
  intro k hk
  cases item with
  | tableSwitch low high =>
    rw [length_emitItem_tableSwitch] at hfits ⊢
    rw [emitItem_tableSwitch]
    rcases List.mem_cons.mp hk with rfl | hk
    · exact intAt_default hfits (hword hfits)
    · obtain ⟨j, hj, rfl⟩ := List.mem_map.mp hk
      rw [List.mem_range] at hj
      refine intAt_case hfits (hword hfits) forall_mem_replicate_nil (j := j) ?_ ?_
      · rwa [List.length_replicate]
      · rw [List.length_append, Word.length_encode, Word.length_encode]
        omega
  | lookupSwitch keys =>
    rw [length_emitItem_lookupSwitch] at hfits ⊢
    rw [emitItem_lookupSwitch]
    rcases List.mem_cons.mp hk with rfl | hk
    · exact intAt_default hfits (hword hfits)
    · obtain ⟨j, hj, rfl⟩ := List.mem_map.mp hk
      rw [List.mem_range] at hj
      refine intAt_case hfits (hword hfits) forall_mem_map_encode (j := j) ?_ ?_
      · rwa [List.length_map, List.length_mergeSort]
      · rw [Word.length_encode]
        omega
  | invoke | lambda | dynamic | loadString | raw => cases hk

end Switch

/-! ### The walk through a body -/

/-- What is written for an item is walked over without a fault. -/
theorem exists_walks_emitItem (hitem : item.Walkable) (offset : Nat) (p : PoolBuilder) :
    ∃ placed, Walks offset ((emitItem offset item).run p).1 placed := by
  cases hraw : item.isRaw with
  | false =>
    obtain ⟨b, operands, -, hwalks⟩ := isSingle_emitItem hitem hraw offset p
    exact ⟨_, hwalks⟩
  | true =>
    cases item with
    | raw bytes =>
      obtain ⟨placed, hwalks, -⟩ := PlainCode.walks hitem offset
      exact ⟨placed, hwalks⟩
    | invoke | lambda | dynamic | loadString | tableSwitch | lookupSwitch => cases hraw

/-- The walk comes through the items of a body, whatever the pool holds. -/
theorem exists_walks_emitItems (hitems : ∀ item ∈ items, item.Walkable) (offset : Nat)
    (p : PoolBuilder) : ∃ placed, Walks offset ((emitItems offset items).run p).1 placed := by
  induction items generalizing offset p with
  | nil => exact ⟨[], Walks.nil offset⟩
  | cons item items ih =>
    rw [List.forall_mem_cons] at hitems
    obtain ⟨first, hfirst⟩ := exists_walks_emitItem hitems.1 offset p
    obtain ⟨rest, hrest⟩ := ih hitems.2 (offset + ((emitItem offset item).run p).1.length)
      ((emitItem offset item).run p).2
    exact ⟨first ++ rest, hfirst.append hrest⟩

/-- An item stands in its code if the walk comes through what is before it and what is after it. -/
theorem standsAt_emitItem (hitem : item.Walkable) {front back : List UInt8} {p : PoolBuilder}
    {before after : List Placed} (hfront : Walks 0 front before)
    (hback : Walks (front.length + ((emitItem front.length item).run p).1.length) back after)
    (hne : back ≠ []) :
    StandsAt (front ++ (((emitItem front.length item).run p).1 ++ back))
      ((walk 0 (front ++ (((emitItem front.length item).run p).1 ++ back))).1.map Placed.offset)
      front.length ((emitItem front.length item).run p).1 item := by
  have hbounds {k : Nat} {n : Int} (hn : item.bounds[k]? = some n) :=
    bounds_emitItem hitem front back p hn
  have htargets := @targets_emitItem item front back p
  have hpadding (hswitch : item.isSwitch = true) {k : Nat} (hk : k < padding front.length) :=
    padding_emitItem hswitch front back p hk
  obtain ⟨inside, hinside⟩ := exists_walks_emitItem hitem front.length p
  have hsingle := fun hraw => isSingle_emitItem hitem hraw front.length p
  generalize ((emitItem front.length item).run p).1 = bytes at *
  have hrest : Walks front.length (bytes ++ back) (inside ++ after) := hinside.append hback
  have hwhole : Walks 0 (front ++ (bytes ++ back)) (before ++ (inside ++ after)) :=
    hfront.append (by rwa [Nat.zero_add])
  have hwalk : (walk 0 (front ++ (bytes ++ back))).1 = before ++ (inside ++ after) := by
    rw [hwhole.walk_eq]
  refine ⟨?_, ?_, ?_, ?_, ?_, ?_, ?_⟩
  · rw [List.drop_left]
    exact List.prefix_append _ _
  · rw [hwalk, List.map_append]
    exact List.mem_append_right _ (hrest.offset_mem (by simp [hne]))
  · rw [hwalk, List.map_append, List.map_append]
    exact List.mem_append_right _ (List.mem_append_right _ (hback.offset_mem hne))
  · intro hraw
    obtain ⟨b, operands, rfl, hone⟩ := hsingle hraw
    have hplaced : inside = [⟨front.length, b.toNat, operands⟩] :=
      congrArg Prod.fst (hinside.walk_eq.symm.trans hone.walk_eq)
    subst hplaced
    constructor
    · have hlength := lengthAt_of_mem_walk (hwalk ▸ List.mem_append_right _ List.mem_cons_self)
      rw [hlength, Placed.length, List.length_cons, Nat.add_comm]
    · have hbefore : (before.map Placed.offset).filter
          (fun q => front.length ≤ q ∧ q < front.length + (b :: operands).length) = [] := by
        simp only [List.filter_eq_nil_iff, List.forall_mem_map, decide_eq_true_eq]
        intro i hi
        have := hfront.offset_bounds hi
        omega
      have hafter : (after.map Placed.offset).filter
          (fun q => front.length ≤ q ∧ q < front.length + (b :: operands).length) = [] := by
        simp only [List.filter_eq_nil_iff, List.forall_mem_map, decide_eq_true_eq]
        intro i hi
        have := hback.offset_bounds hi
        omega
      rw [hwalk, List.map_append, List.map_append, List.filter_append, List.filter_append, hbefore,
        hafter]
      simp
  · intro hswitch
    exact ⟨padding_aligned front.length, fun k hk => hpadding hswitch hk⟩
  · exact fun k n hn => hbounds hn
  · exact htargets

/-- The walk through the code of a body comes through and ends with its return. It visits the
beginning of each item of the body, an item that is not given by its bytes just once, and a switch
has the padding that the walk passes over and leads to the next instruction in all cases. -/
theorem emitBody_layout (items : List BodyItem) (hitems : ∀ item ∈ items, item.Walkable)
    (p : PoolBuilder) :
    ∃ offsets, Cuts ((emitBody 0 items).run p).1 offsets ∧
      (∃ last, offsets.getLast? = some last ∧ last + 1 = ((emitBody 0 items).run p).1.length ∧
        byteAt ((emitBody 0 items).run p).1 last = .ok 0xb1) ∧
      ∀ before item after front q, items = before ++ item :: after →
        (emitItems 0 before).run p = (front, q) →
        StandsAt ((emitBody 0 items).run p).1 offsets front.length
          ((emitItem front.length item).run q).1 item := by
  have hcode : ((emitBody 0 items).run p).1 = ((emitItems 0 items).run p).1 ++ [0xb1] := by
    rw [emitBody_eq]
    rfl
  have hreturn (offset : Nat) : Walks offset [0xb1] [⟨offset, 0xb1, []⟩] := Walks.fixed (by decide)
  obtain ⟨placed, hplaced⟩ := exists_walks_emitItems hitems 0 p
  have hwalk := (hplaced.append (hreturn _)).walk_eq
  refine ⟨(walk 0 ((emitBody 0 items).run p).1).1.map Placed.offset, ?_, ?_, ?_⟩
  · have hvisits := @visits_walk 0 [] ((emitBody 0 items).run p).1 rfl (by rw [hcode, hwalk])
    rw [List.nil_append] at hvisits
    exact hvisits.cuts
  · refine ⟨((emitItems 0 items).run p).1.length, ?_, ?_, ?_⟩
    · rw [hcode, hwalk, List.map_append, List.map_singleton, List.getLast?_concat, Nat.zero_add]
    · rw [hcode, List.length_append, List.length_singleton]
    · rw [hcode]
      exact byteAt_append _ [] _
  · rintro before item after front q rfl hfront
    rw [List.forall_mem_append, List.forall_mem_cons] at hitems
    obtain ⟨hbefore, hitem, hafter⟩ := hitems
    obtain ⟨first, hfirst⟩ := exists_walks_emitItems hbefore 0 p
    rw [hfront] at hfirst
    obtain ⟨rest, hrest⟩ := exists_walks_emitItems hafter _ ((emitItem front.length item).run q).2
    rw [emitItems_split hfront rfl, List.append_assoc, List.append_assoc] at hcode
    rw [hcode]
    exact standsAt_emitItem hitem hfirst (hrest.append (hreturn _)) (by simp)

/-- A body with two switches that need different padding, the second behind bytes that are two
instructions. -/
def switchedBody : List BodyItem :=
  [.raw [0x1b], .tableSwitch 0 2, .loadString "hello", .raw [0x57, 0x1b], .lookupSwitch [9, 3],
    .invoke .static ⟨"shop/Util", "log", "()V"⟩]

theorem emitBody_layout_switchedBody :
    (∀ item ∈ switchedBody, item.Walkable) ∧
      ∃ offsets, Cuts ((emitBody 0 switchedBody).run {}).1 offsets ∧
        StandsAt ((emitBody 0 switchedBody).run {}).1 offsets 32
          ((emitItem 32 (.lookupSwitch [9, 3])).run {}).1 (.lookupSwitch [9, 3]) := by
  have hitems : ∀ item ∈ switchedBody, item.Walkable := by decide +kernel
  obtain ⟨offsets, hcuts, -, hstands⟩ := emitBody_layout switchedBody hitems {}
  refine ⟨hitems, offsets, hcuts, ?_⟩
  have hfront : ((emitItems 0 (switchedBody.take 4)).run {}).1.length = 32 := by decide +kernel
  obtain ⟨front, q, hrun⟩ : ∃ front q, (emitItems 0 (switchedBody.take 4)).run {} = (front, q) :=
    ⟨_, _, rfl⟩
  have hswitch := hstands _ (.lookupSwitch [9, 3]) (switchedBody.drop 5) front q rfl hrun
  rw [hrun] at hfront
  rw [hfront] at hswitch
  exact hswitch

end Items

end CallForest.ClassFile
