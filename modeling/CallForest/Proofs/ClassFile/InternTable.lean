import CallForest.Proofs.ClassFile.Building
import Mathlib.Logic.Function.Basic
import Mathlib.Tactic.SplitIfs

/-!
# Pools with a table of indices

A pool that is being written needs three things of its constants: their bytes, which go into the
file, their number, and a table from which the index of a constant is looked up. With a list of the
constants all three can be had from it, and what ties them together holds of itself. Kept apart,
they have to be changed together: a new constant adds its bytes, counts, and enters the table under
its number.

The number and the indices are words of two bytes. While the list is short enough, both pools hand
out the same indices and come to the same bytes.

## Main definitions

* `InternTable` — bytes, number and indices of the constants put in so far;
* `InternTable.intern` — the index of a constant;
* `InternTable.Represents` — the three are those of a list of constants.

## Main results

* `InternTable.Represents.intern` — a constant gets the same index from both, and they still agree;
* `InternTable.Represents.mapM_intern` — so do constants one after the other;
* `InternTable.encode_mapM_intern` — from the empty pool on, all indices and bytes are the same.
-/

namespace CallForest.ClassFile

/-- The bytes of the constants put in so far, their number, and the index of each. -/
structure InternTable where
  bytes : List UInt8 := []
  count : UInt16 := 0
  index? : Constant → Option UInt16 := fun _ => none

namespace InternTable

/-- The index of a constant, which is put in under the next number unless it is in the table. -/
def intern (constant : Constant) : StateM InternTable UInt16 := fun t =>
  match t.index? constant with
  | some index => (index, t)
  | none =>
    (t.count + 1,
      { bytes := t.bytes ++ constant.encode
        count := t.count + 1
        index? := Function.update t.index? constant (some (t.count + 1)) })

/-- The bytes of the pool: the number of slots, slot zero included, and the constants. -/
def encode (t : InternTable) : List UInt8 :=
  Word.encode 2 (t.count + 1).toNat ++ t.bytes

/-- Bytes, number and indices are those of the constants of a pool. -/
structure Represents (t : InternTable) (p : PoolBuilder) : Prop where
  bytes : t.bytes = p.constants.flatMap Constant.encode
  count : t.count.toNat = p.constants.length
  index (c : Constant) : (t.index? c).map UInt16.toNat = (p.constants.idxOf? c).map (· + 1)

theorem represents_empty : Represents {} {} where
  bytes := rfl
  count := rfl
  index _ := rfl

/-- The position of a member in a list with a new one at its end. -/
theorem idxOf?_concat {l : List Constant} {c : Constant} (hnew : c ∉ l) (d : Constant) :
    (l ++ [c]).idxOf? d = if d = c then some l.length else l.idxOf? d := by
  rw [List.idxOf?, List.findIdx?_append, List.findIdx?_singleton]
  by_cases hd : d = c
  · subst hd
    have hnone : l.findIdx? (· == d) = none := List.idxOf?_eq_none_iff.mpr hnew
    rw [hnone, if_pos (beq_self_eq_true d), if_pos rfl, Option.map_some, Option.none_or,
      Nat.zero_add]
  · rw [if_neg hd, if_neg (mt eq_of_beq (Ne.symm hd)), Option.map_none, Option.or_none]

namespace Represents

variable {t : InternTable} {p : PoolBuilder}

theorem toNat_count_add_one (h : t.Represents p) (hroom : p.constants.length < 65535) :
    (t.count + 1).toNat = p.constants.length + 1 := by
  rw [UInt16.toNat_add, h.count]
  exact Nat.mod_eq_of_lt (Nat.succ_lt_succ hroom)

/-- Both hand out the same index, and what the table does to its three parts is what the list does
when the constant is put at its end. -/
protected theorem intern (h : t.Represents p) (c : Constant)
    (hsize : (Build.intern c p).2.constants.length ≤ 65535) :
    (InternTable.intern c t).1.toNat = (Build.intern c p).1 ∧
      (InternTable.intern c t).2.Represents (Build.intern c p).2 := by
  have hindex := h.index c
  cases hfound : p.constants.idxOf? c with
  | some i =>
    rw [hfound] at hindex
    obtain ⟨index, hsome, heq⟩ := Option.map_eq_some_iff.mp hindex
    simp only [InternTable.intern, Build.intern, hsome, hfound]
    exact ⟨heq, h⟩
  | none =>
    rw [hfound] at hindex
    have hnone : t.index? c = none := Option.map_eq_none_iff.mp hindex
    have hnew : c ∉ p.constants := List.idxOf?_eq_none_iff.mp hfound
    simp only [Build.intern, hfound, List.length_append, List.length_singleton] at hsize
    have hnext := h.toNat_count_add_one hsize
    simp only [InternTable.intern, Build.intern, hnone, hfound]
    refine ⟨hnext, ?_, ?_, ?_⟩
    · rw [h.bytes, List.flatMap_append, List.flatMap_singleton]
    · rw [hnext, List.length_append, List.length_singleton]
    · intro d
      simp only [idxOf?_concat hnew, Function.update_apply]
      split_ifs with hd
      · rw [Option.map_some, Option.map_some, hnext]
      · exact h.index d

/-- No constant is ever taken out. -/
theorem length_le_mapM_intern (constants : List Constant) (p : PoolBuilder) :
    p.constants.length ≤ (constants.mapM Build.intern p).2.constants.length := by
  induction constants generalizing p with
  | nil => exact Nat.le_refl _
  | cons c rest ih =>
    rw [List.mapM_cons]
    refine Nat.le_trans ?_ (ih (Build.intern c p).2)
    rw [Build.intern_eq]
    exact (isPrefix_place p.constants c).length_le

/-- Constants that are put in one after the other get the same indices from both. -/
theorem mapM_intern {constants : List Constant} (h : t.Represents p)
    (hsize : (constants.mapM Build.intern p).2.constants.length ≤ 65535) :
    (constants.mapM InternTable.intern t).1.map UInt16.toNat = (constants.mapM Build.intern p).1 ∧
      (constants.mapM InternTable.intern t).2.Represents (constants.mapM Build.intern p).2 := by
  induction constants generalizing t p with
  | nil => exact ⟨rfl, h⟩
  | cons c rest ih =>
    rw [List.mapM_cons] at hsize ⊢
    rw [List.mapM_cons]
    obtain ⟨hindex, hnext⟩ := h.intern c (Nat.le_trans (length_le_mapM_intern rest _) hsize)
    obtain ⟨hindices, hlast⟩ := ih hnext hsize
    exact ⟨congrArg₂ List.cons hindex hindices, hlast⟩

/-- The bytes of the pool are the same. -/
theorem encode_eq (h : t.Represents p) (hroom : p.constants.length < 65535) :
    t.encode = p.encode := by
  rw [InternTable.encode, PoolBuilder.encode, h.toNat_count_add_one hroom, h.bytes]

end Represents

/-- Constants put into an empty table and into an empty pool get the same indices, and the bytes in
the file are the same. -/
theorem encode_mapM_intern {constants : List Constant}
    (hroom : (constants.mapM Build.intern {}).2.constants.length < 65535) :
    (constants.mapM intern {}).1.map UInt16.toNat = (constants.mapM Build.intern {}).1 ∧
      (constants.mapM intern {}).2.encode = (constants.mapM Build.intern {}).2.encode := by
  obtain ⟨hindices, hlast⟩ := represents_empty.mapM_intern (Nat.le_of_lt hroom)
  exact ⟨hindices, hlast.encode_eq hroom⟩

end InternTable

end CallForest.ClassFile
