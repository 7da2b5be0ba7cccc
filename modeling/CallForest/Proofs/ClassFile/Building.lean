import CallForest.ClassFile.PoolBuilder
import CallForest.Proofs.ClassFile.Reading
import CallForest.Proofs.Text.Encoding
import Mathlib.Order.Defs.PartialOrder

/-!
# What a growing pool keeps

Indices are handed out while the pool still grows, and are looked up only in the finished pool. The
pool grows at its end alone, so an index leads to the same constant in every later pool. A step of
writing is therefore described with respect to the finished pool: it only adds to the pool, and
once the finished pool is known to contain what it has added, its value has some property there.

That a step only adds is needed before anything else is known about it, since the finished pool is
only reached through the steps after it. What a step needs for its property is stated apart, as a
condition.

## Main definitions

* `Constant.Fits`, `BootstrapMethod.Fits` — what can be written in full;
* `PoolBuilder.Sound`, `PoolBuilder.InLimits` — pools that can be read back;
* `PoolBuilder.Distinct` — pools that hold nothing twice;
* `PoolBuilder.pool`, `PoolBuilder.table` — what is read back;
* `Build.Yields` — a step of writing on the way to a finished pool.

## Main results

* `ConstantPool.utf8_eq_ok_iff`, `className_eq_ok_iff` and so on — what a look-up depends on;
* `Build.Yields.bind` — steps one after the other;
* `Build.Yields.intern`, `Build.Yields.bootstrap` — the steps that add;
* `Build.Yields.utf8`, `classRef`, `methodRef` and so on — the look-up finds what was put in;
* `PoolBuilder.reads_encode` — a sound pool is read back.
-/

namespace CallForest.ClassFile

open Decoder

variable {α β : Type}

/-! ### Constants that can be written in full -/

/-- A text whose length in bytes fits its word. -/
def TextFits (text : String) : Prop :=
  text.utf8ByteSize ≤ 65535
deriving Decidable

/-- A method whose owner, name and descriptor fit their words. -/
structure MemberRef.Fits (target : MemberRef) : Prop where
  owner : TextFits target.owner
  name : TextFits target.name
  descriptor : TextFits target.descriptor

instance (target : MemberRef) : Decidable target.Fits :=
  decidable_of_iff (TextFits target.owner ∧ TextFits target.name ∧ TextFits target.descriptor)
    ⟨fun h => ⟨h.1, h.2.1, h.2.2⟩, fun h => ⟨h.owner, h.name, h.descriptor⟩⟩

/-- The constant fills one slot, and its parts fit their words. -/
def Constant.Fits : Constant → Prop
  | .utf8 text => TextFits text
  | .integer value => Word.FitsInt value
  | .float bits => Word.Fits 4 bits
  | .classRef n | .string n | .methodType n | .moduleRef n | .packageRef n => Word.Fits 2 n
  | .fieldRef m n | .methodRef m n | .interfaceMethodRef m n | .nameAndType m n | .dynamic m n
  | .invokeDynamic m n => Word.Fits 2 m ∧ Word.Fits 2 n
  | .methodHandle kind reference => Word.Fits 1 kind ∧ Word.Fits 2 reference
  | .long _ | .double _ | .unusable => False

theorem Constant.isWide_of_fits {c : Constant} (hc : c.Fits) : c.isWide = false := by
  cases c with
  | long | double => exact hc.elim
  | _ => rfl

/-- A constant that fits is read back. -/
theorem Constant.reads_encode {c : Constant} (hc : c.Fits) (entry : Nat) :
    Reads (Constant.read entry) c.encode c := by
  cases c with
  | utf8 text =>
    have hlength : Word.Fits 2 (Text.Utf8.encode text).length := by
      rw [Text.Utf8.length_encode]
      exact Nat.lt_succ_of_le hc
    have htext : Reads (do
        let length ← u16
        return Constant.utf8 (Text.ModifiedUtf8.decode (← take length)))
        (Word.encode 2 (Text.Utf8.encode text).length ++ Text.Utf8.encode text)
        (.utf8 (Text.ModifiedUtf8.decode (Text.Utf8.encode text))) :=
      (Reads.u16 hlength).bind (Reads.take rfl).bind_pure
    rw [Text.ModifiedUtf8.decode_encode_standard] at htext
    exact (Reads.tag 1).bind htext
  | integer => exact (Reads.tag 3).bind (Reads.i32 hc).bind_pure
  | float => exact (Reads.tag 4).bind (Reads.u32 hc).bind_pure
  | classRef => exact (Reads.tag 7).bind (Reads.u16 hc).bind_pure
  | string => exact (Reads.tag 8).bind (Reads.u16 hc).bind_pure
  | fieldRef => exact (Reads.tag 9).bind ((Reads.u16 hc.1).bind (Reads.u16 hc.2).bind_pure)
  | methodRef => exact (Reads.tag 10).bind ((Reads.u16 hc.1).bind (Reads.u16 hc.2).bind_pure)
  | interfaceMethodRef =>
    exact (Reads.tag 11).bind ((Reads.u16 hc.1).bind (Reads.u16 hc.2).bind_pure)
  | nameAndType => exact (Reads.tag 12).bind ((Reads.u16 hc.1).bind (Reads.u16 hc.2).bind_pure)
  | methodHandle => exact (Reads.tag 15).bind ((Reads.u8 hc.1).bind (Reads.u16 hc.2).bind_pure)
  | methodType => exact (Reads.tag 16).bind (Reads.u16 hc).bind_pure
  | dynamic => exact (Reads.tag 17).bind ((Reads.u16 hc.1).bind (Reads.u16 hc.2).bind_pure)
  | invokeDynamic =>
    exact (Reads.tag 18).bind ((Reads.u16 hc.1).bind (Reads.u16 hc.2).bind_pure)
  | moduleRef => exact (Reads.tag 19).bind (Reads.u16 hc).bind_pure
  | packageRef => exact (Reads.tag 20).bind (Reads.u16 hc).bind_pure
  | long | double | unusable => exact hc.elim

/-- The parts of a bootstrap method fit their words, and there are few of them. -/
structure BootstrapMethod.Fits (m : BootstrapMethod) : Prop where
  handle : Word.Fits 2 m.handle
  few : m.arguments.length ≤ 3
  arguments : ∀ i ∈ m.arguments, Word.Fits 2 i

/-! ### Pools -/

namespace PoolBuilder

/-- A later pool starts with what an earlier one has. -/
instance : Preorder PoolBuilder where
  le p q := p.constants <+: q.constants ∧ p.bootstraps <+: q.bootstraps
  le_refl _ := ⟨List.prefix_rfl, List.prefix_rfl⟩
  le_trans _ _ _ h h' := ⟨h.1.trans h'.1, h.2.trans h'.2⟩

/-- All that has been put in can be written in full. -/
structure Sound (p : PoolBuilder) : Prop where
  constants : ∀ c ∈ p.constants, c.Fits
  bootstraps : ∀ m ∈ p.bootstraps, m.Fits

/-- Whatever the second pool has and the first has not can be written in full. -/
structure Adds (p p' : PoolBuilder) : Prop where
  constants : ∀ c ∈ p'.constants, c ∈ p.constants ∨ c.Fits
  bootstraps : ∀ m ∈ p'.bootstraps, m ∈ p.bootstraps ∨ m.Fits

/-- No constant and no bootstrap method is there twice. -/
structure Distinct (p : PoolBuilder) : Prop where
  constants : p.constants.Nodup
  bootstraps : p.bootstraps.Nodup

/-- Every index and every slot fits its word. -/
structure InLimits (p : PoolBuilder) : Prop where
  constants : p.constants.length ≤ 65534
  bootstraps : p.bootstraps.length ≤ 65535

instance (p : PoolBuilder) : Decidable p.InLimits :=
  decidable_of_iff (p.constants.length ≤ 65534 ∧ p.bootstraps.length ≤ 65535)
    ⟨fun h => ⟨h.1, h.2⟩, fun h => ⟨h.constants, h.bootstraps⟩⟩

/-- The constants as a reader finds them. -/
def pool (p : PoolBuilder) : ConstantPool where
  slots := (Constant.unusable :: p.constants).toArray

/-- The bootstrap methods as a reader finds them. -/
def table (p : PoolBuilder) : BootstrapTable where
  methods := p.bootstraps.toArray

theorem sound_empty : ({} : PoolBuilder).Sound :=
  ⟨fun _ h => absurd h List.not_mem_nil, fun _ h => absurd h List.not_mem_nil⟩

theorem distinct_empty : ({} : PoolBuilder).Distinct :=
  ⟨List.nodup_nil, List.nodup_nil⟩

theorem Adds.refl (p : PoolBuilder) : Adds p p :=
  ⟨fun _ => .inl, fun _ => .inl⟩

theorem Adds.trans {p p' p'' : PoolBuilder} (h : Adds p p') (h' : Adds p' p'') : Adds p p'' where
  constants c hc := (h'.constants c hc).elim (h.constants c) .inr
  bootstraps m hm := (h'.bootstraps m hm).elim (h.bootstraps m) .inr

theorem Adds.sound {p p' : PoolBuilder} (h : Adds p p') (hp : p.Sound) : p'.Sound where
  constants c hc := (h.constants c hc).elim (hp.constants c) id
  bootstraps m hm := (h.bootstraps m hm).elim (hp.bootstraps m) id

theorem InLimits.mono {p q : PoolBuilder} (hq : q.InLimits) (h : p ≤ q) : p.InLimits :=
  ⟨Nat.le_trans h.1.length_le hq.constants, Nat.le_trans h.2.length_le hq.bootstraps⟩

theorem get?_pool_succ (p : PoolBuilder) (i : Nat) : p.pool.get? (i + 1) = p.constants[i]? := by
  simp [pool, ConstantPool.get?]

end PoolBuilder

/-! ### What stands at an index -/

namespace ConstantPool

variable {pool : ConstantPool} {i : Nat}

theorem utf8_eq_ok_iff {text : String} :
    pool.utf8 i = .ok text ↔ pool.get? i = some (.utf8 text) := by
  unfold utf8
  split <;> simp_all

theorem className_eq_ok_iff {name : String} : pool.className i = .ok name ↔
    ∃ n, pool.get? i = some (.classRef n) ∧ pool.utf8 n = .ok name := by
  unfold className
  split <;> simp_all

theorem nameAndType_eq_ok_iff {name descriptor : String} :
    pool.nameAndType i = .ok (name, descriptor) ↔ ∃ m n, pool.get? i = some (.nameAndType m n) ∧
      pool.utf8 m = .ok name ∧ pool.utf8 n = .ok descriptor := by
  unfold nameAndType
  split
  · rename_i m n hget
    have hboth : (do return (← pool.utf8 m, ← pool.utf8 n)) = Except.ok (name, descriptor) ↔
        pool.utf8 m = .ok name ∧ pool.utf8 n = .ok descriptor := by
      cases pool.utf8 m <;> cases pool.utf8 n <;> simp [bind, Except.bind, pure, Except.pure]
    rw [hboth]
    constructor
    · exact fun h => ⟨m, n, hget, h⟩
    · rintro ⟨m', n', hsame, h⟩
      cases hget.symm.trans hsame
      exact h
  · simp_all

theorem methodHandle_eq_ok_iff {kind reference : Nat} :
    pool.methodHandle i = .ok (kind, reference) ↔
      pool.get? i = some (.methodHandle kind reference) := by
  unfold methodHandle
  split <;> simp_all

/-- A method of a class and one of an interface are looked up in the same way. -/
theorem methodRef_eq_ok_iff {target : MemberRef} {ofInterface : Bool} {m n : Nat}
    (hget : pool.get? i =
      some (if ofInterface then .interfaceMethodRef m n else .methodRef m n)) :
    pool.methodRef i = .ok target ↔ pool.className m = .ok target.owner ∧
      pool.nameAndType n = .ok (target.name, target.descriptor) := by
  unfold methodRef
  cases target
  cases ofInterface <;> cases hm : pool.className m <;> cases hn : pool.nameAndType n <;>
    simp_all [bind, Except.bind, pure, Except.pure, Prod.ext_iff]

end ConstantPool

/-! ### Lists that hold a member once -/

/-- The position of a member, which is put at the end unless it is there, and the list after
that. -/
def place [DecidableEq α] (l : List α) (a : α) : Nat × List α :=
  match l.idxOf? a with
  | some i => (i, l)
  | none => (l.length, l ++ [a])

theorem isPrefix_place [DecidableEq α] (l : List α) (a : α) : l <+: (place l a).2 := by
  unfold place
  split
  · exact List.prefix_rfl
  · exact List.prefix_append l [a]

theorem forall_mem_place [DecidableEq α] {P : α → Prop} {l : List α} {a : α}
    (hl : ∀ b ∈ l, P b) (ha : P a) : ∀ b ∈ (place l a).2, P b := by
  unfold place
  split
  · exact hl
  · intro b hb
    rcases List.mem_append.mp hb with hold | hnew
    · exact hl b hold
    · exact List.mem_singleton.mp hnew ▸ ha

theorem nodup_place [DecidableEq α] {l : List α} {a : α} (hl : l.Nodup) :
    (place l a).2.Nodup := by
  unfold place
  split
  · exact hl
  · rename_i hnone
    have hnew : a ∉ l := List.idxOf?_eq_none_iff.mp hnone
    refine List.nodup_append.mpr ⟨hl, by simp, ?_⟩
    intro b hb c hc
    rw [List.mem_singleton.mp hc]
    exact ne_of_mem_of_not_mem hb hnew

/-- The member stands at its position, also after the list has grown further. -/
theorem getElem?_place [DecidableEq α] {l l' : List α} {a : α} (h : (place l a).2 <+: l') :
    l'[(place l a).1]? = some a := by
  have hat : (place l a).2[(place l a).1]? = some a := by
    unfold place
    split
    · rename_i i hi
      obtain ⟨hlt, heq, -⟩ := List.idxOf?_eq_some_iff.mp hi
      exact List.getElem?_eq_some_iff.mpr ⟨hlt, heq⟩
    · exact List.getElem?_concat_length
  obtain ⟨hlt, heq⟩ := List.getElem?_eq_some_iff.mp hat
  have hlater := List.prefix_iff_getElem?.mp h _ hlt
  rwa [heq] at hlater

theorem place_lt [DecidableEq α] {l l' : List α} {a : α} (h : (place l a).2 <+: l') :
    (place l a).1 < l'.length := by
  obtain ⟨hlt, -⟩ := List.getElem?_eq_some_iff.mp (getElem?_place h)
  exact hlt

theorem Build.intern_eq (c : Constant) (p : PoolBuilder) : Build.intern c p =
    ((place p.constants c).1 + 1, { p with constants := (place p.constants c).2 }) := by
  unfold Build.intern place
  cases p.constants.idxOf? c <;> rfl

theorem Build.bootstrap_eq (m : BootstrapMethod) (p : PoolBuilder) : Build.bootstrap m p =
    ((place p.bootstraps m).1, { p with bootstraps := (place p.bootstraps m).2 }) := by
  unfold Build.bootstrap place
  cases p.bootstraps.idxOf? m <;> rfl

/-! ### Steps of writing -/

/-- The index fits its word, and looking it up gives the value. -/
def Finds (look : Nat → Except Fault α) (a : α) (index : Nat) : Prop :=
  Word.Fits 2 index ∧ look index = .ok a

/-- A decoder that reads an index and looks it up. -/
theorem Finds.reads {look : Nat → Except Fault α} {a : α} {i : Nat} (h : Finds look a i) :
    Reads (do lift (look (← u16))) (Word.encode 2 i) a := by
  refine (Reads.u16 h.1).bind_last ?_
  rw [h.2]
  exact Reads.lift a

namespace Build

/-- A step of writing at the pool `p`, on the way to the finished pool `q`: it only adds to the
pool, and adds nothing twice. Under the condition `given` what it adds can be written in full and
its value has a property, provided that the finished pool has all it has added and is not too
large. -/
structure Yields (q p : PoolBuilder) (given : Prop) (e : Build α) (post : α → Prop) : Prop where
  grows : p ≤ (e p).2
  distinct : p.Distinct → (e p).2.Distinct
  holds : given → q.constants.length ≤ 65534 → (e p).2 ≤ q → p.Adds (e p).2 ∧ post (e p).1

namespace Yields

variable {q p : PoolBuilder} {given : Prop} {e : Build α} {f : α → Build β}
variable {Q : α → Prop} {R : β → Prop}

protected theorem pure {a : α} (h : given → Q a) : Yields q p given (pure a) Q where
  grows := le_refl p
  distinct := id
  holds hgiven _ _ := ⟨.refl p, h hgiven⟩

/-- Steps one after the other. The second may rely on the property of the first. -/
protected theorem bind (he : Yields q p given e Q)
    (hf : ∀ a p', e p = (a, p') → Yields q p' (given ∧ Q a) (f a) R) :
    Yields q p given (e >>= f) R := by
  have hsecond := hf (e p).1 (e p).2 rfl
  refine ⟨le_trans he.grows hsecond.grows, fun hp => hsecond.distinct (he.distinct hp), ?_⟩
  intro hgiven hcount hq
  obtain ⟨hadds, hpost⟩ := he.holds hgiven hcount (le_trans hsecond.grows hq)
  obtain ⟨hadds', hpost'⟩ := hsecond.holds ⟨hgiven, hpost⟩ hcount hq
  exact ⟨hadds.trans hadds', hpost'⟩

theorem mono {P : α → Prop} (he : Yields q p given e P) (h : given → ∀ a, P a → Q a) :
    Yields q p given e Q := by
  refine ⟨he.grows, he.distinct, fun hgiven hcount hq => ?_⟩
  obtain ⟨hadds, hpost⟩ := he.holds hgiven hcount hq
  exact ⟨hadds, h hgiven _ hpost⟩

theorem of_imp {weaker : Prop} (he : Yields q p weaker e Q) (h : given → weaker) :
    Yields q p given e Q :=
  ⟨he.grows, he.distinct, fun hgiven => he.holds (h hgiven)⟩

/-- The finished pool has the constant at its index. -/
theorem intern {c : Constant} (hc : given → c.Fits) :
    Yields q p given (Build.intern c) (fun i => Word.Fits 2 i ∧ q.pool.get? i = some c) := by
  refine ⟨?_, ?_, ?_⟩ <;> rw [Build.intern_eq]
  · exact ⟨isPrefix_place _ _, List.prefix_rfl⟩
  · exact fun hp => ⟨nodup_place hp.constants, hp.bootstraps⟩
  · intro hgiven hcount hq
    -- The finished pool has the constant at its index, so the index is within the limits.
    have hlt := place_lt hq.1
    have hfits : Word.Fits 2 ((place p.constants c).1 + 1) := Word.fits_two.mpr (by omega)
    refine ⟨⟨forall_mem_place (fun _ => .inl) (.inr (hc hgiven)), fun _ => .inl⟩, hfits, ?_⟩
    rw [PoolBuilder.get?_pool_succ, getElem?_place hq.1]

/-- The finished table has the bootstrap method in its slot. -/
theorem bootstrap {m : BootstrapMethod} (hslots : given → q.bootstraps.length ≤ 65535)
    (hm : given → m.Fits) :
    Yields q p given (Build.bootstrap m)
      (fun slot => Word.Fits 2 slot ∧ q.table.methods[slot]? = some m) := by
  refine ⟨?_, ?_, ?_⟩ <;> rw [Build.bootstrap_eq]
  · exact ⟨List.prefix_rfl, isPrefix_place _ _⟩
  · exact fun hp => ⟨hp.constants, nodup_place hp.bootstraps⟩
  · intro hgiven _ hq
    have hlt := place_lt hq.2
    have hcount := hslots hgiven
    have hfits : Word.Fits 2 (place p.bootstraps m).1 := Word.fits_two.mpr (by omega)
    refine ⟨⟨fun _ => .inl, forall_mem_place (fun _ => .inl) (.inr (hm hgiven))⟩, hfits, ?_⟩
    rw [PoolBuilder.table, List.getElem?_toArray, getElem?_place hq.2]

theorem utf8 {text : String} (ht : given → TextFits text) :
    Yields q p given (Build.utf8 text) (Finds q.pool.utf8 text) := by
  refine (intern ht).mono ?_
  rintro - i ⟨hi, hget⟩
  exact ⟨hi, ConstantPool.utf8_eq_ok_iff.mpr hget⟩

theorem classRef {name : String} (hname : given → TextFits name) :
    Yields q p given (Build.classRef name) (Finds q.pool.className name) := by
  refine (utf8 hname).bind fun n p' _ => ?_
  refine (intern fun h => h.2.1).mono ?_
  rintro ⟨-, -, hn⟩ i ⟨hi, hget⟩
  exact ⟨hi, ConstantPool.className_eq_ok_iff.mpr ⟨n, hget, hn⟩⟩

theorem string {text : String} (ht : given → TextFits text) :
    Yields q p given (Build.string text) (fun i => Word.Fits 2 i ∧
      ∃ n, q.pool.get? i = some (.string n) ∧ q.pool.utf8 n = .ok text) := by
  refine (utf8 ht).bind fun n p' _ => (intern fun h => h.2.1).mono ?_
  rintro ⟨-, -, hn⟩ i ⟨hi, hget⟩
  exact ⟨hi, n, hget, hn⟩

theorem nameAndType {name descriptor : String} (hname : given → TextFits name)
    (hdescriptor : given → TextFits descriptor) :
    Yields q p given (Build.nameAndType name descriptor)
      (Finds q.pool.nameAndType (name, descriptor)) := by
  refine (utf8 hname).bind fun m p' _ => ?_
  refine (utf8 fun h => hdescriptor h.1).bind fun n p'' _ => ?_
  refine (intern ?_).mono ?_
  · exact fun h => ⟨h.1.2.1, h.2.1⟩
  · rintro ⟨⟨-, -, hm⟩, -, hn⟩ i ⟨hi, hget⟩
    exact ⟨hi, ConstantPool.nameAndType_eq_ok_iff.mpr ⟨m, n, hget, hm, hn⟩⟩

/-- A method is found together with whether it is one of an interface. -/
theorem methodRef_kind {target : MemberRef} {ofInterface : Bool} (ht : given → target.Fits) :
    Yields q p given (Build.methodRef target ofInterface) (fun i =>
      Finds q.pool.methodRef target i ∧ ∃ m n, q.pool.get? i =
        some (if ofInterface then .interfaceMethodRef m n else .methodRef m n)) := by
  refine (classRef fun h => (ht h).owner).bind fun m p' _ => ?_
  refine (nameAndType (fun h => (ht h.1).name) fun h => (ht h.1).descriptor).bind fun n p'' _ => ?_
  refine (intern fun h => ?_).mono ?_
  · cases ofInterface <;> exact ⟨h.1.2.1, h.2.1⟩
  · rintro ⟨⟨-, -, hm⟩, -, hn⟩ i ⟨hi, hget⟩
    exact ⟨⟨hi, (ConstantPool.methodRef_eq_ok_iff hget).mpr ⟨hm, hn⟩⟩, m, n, hget⟩

theorem methodRef {target : MemberRef} {ofInterface : Bool} (ht : given → target.Fits) :
    Yields q p given (Build.methodRef target ofInterface) (Finds q.pool.methodRef target) :=
  (methodRef_kind ht).mono fun _ _ => And.left

theorem methodHandle {kind reference : Nat} (hkind : given → Word.Fits 1 kind)
    (hreference : given → Word.Fits 2 reference) :
    Yields q p given (Build.methodHandle kind reference)
      (Finds q.pool.methodHandle (kind, reference)) := by
  refine (intern ?_).mono ?_
  · exact fun h => ⟨hkind h, hreference h⟩
  · rintro - i ⟨hi, hget⟩
    exact ⟨hi, ConstantPool.methodHandle_eq_ok_iff.mpr hget⟩

theorem methodType {descriptor : String} (hdescriptor : given → TextFits descriptor) :
    Yields q p given (Build.methodType descriptor) (fun i => Word.Fits 2 i ∧
      ∃ n, q.pool.get? i = some (.methodType n) ∧ q.pool.utf8 n = .ok descriptor) := by
  refine (utf8 hdescriptor).bind fun n p' _ => (intern fun h => h.2.1).mono ?_
  rintro ⟨-, -, hn⟩ i ⟨hi, hget⟩
  exact ⟨hi, n, hget, hn⟩

/-- A dynamic call site is found together with its name and descriptor. -/
theorem invokeDynamic_member {slot : Nat} {name descriptor : String}
    (hslot : given → Word.Fits 2 slot) (hname : given → TextFits name)
    (hdescriptor : given → TextFits descriptor) :
    Yields q p given (Build.invokeDynamic slot name descriptor) (fun i =>
      Finds q.pool.invokeDynamic slot i ∧ ∃ n, q.pool.get? i = some (.invokeDynamic slot n) ∧
        q.pool.nameAndType n = .ok (name, descriptor)) := by
  refine (nameAndType hname hdescriptor).bind fun n p' _ => ?_
  refine (intern ?_).mono ?_
  · exact fun h => ⟨hslot h.1, h.2.1⟩
  · rintro ⟨-, -, hn⟩ i ⟨hi, hget⟩
    exact ⟨⟨hi, by rw [ConstantPool.invokeDynamic, hget]⟩, n, hget, hn⟩

theorem invokeDynamic {slot : Nat} {name descriptor : String} (hslot : given → Word.Fits 2 slot)
    (hname : given → TextFits name) (hdescriptor : given → TextFits descriptor) :
    Yields q p given (Build.invokeDynamic slot name descriptor)
      (Finds q.pool.invokeDynamic slot) :=
  (invokeDynamic_member hslot hname hdescriptor).mono fun _ _ => And.left

end Yields

end Build

/-! ### Reading the pool back -/

/-- Constants that fit fill one slot each. -/
theorem ConstantPool.reads_slots {constants : List Constant} (hfit : ∀ c ∈ constants, c.Fits)
    (entry : Nat) :
    Reads (readSlots constants.length entry) (constants.flatMap Constant.encode) constants := by
  induction constants generalizing entry with
  | nil => exact Reads.pure []
  | cons c rest ih =>
    rw [List.forall_mem_cons] at hfit
    have hfirst := Constant.reads_encode hfit.1 entry
    have hnarrow := Constant.isWide_of_fits hfit.1
    rw [List.flatMap_cons]
    -- A wide constant would take the slot after it too, and could not stand in the last one.
    cases rest with
    | nil =>
      refine hfirst.bind ?_
      simp only [hnarrow, Bool.false_eq_true, if_false]
      exact Reads.pure [c]
    | cons c' rest =>
      refine hfirst.bind ?_
      simp only [hnarrow, Bool.false_eq_true, if_false]
      exact (ih hfit.2 (entry + 1)).bind_pure

/-- A pool within the limits is read back. -/
theorem PoolBuilder.reads_encode {p : PoolBuilder} (hfit : ∀ c ∈ p.constants, c.Fits)
    (hcount : p.constants.length ≤ 65534) :
    Reads ConstantPool.read p.encode p.pool := by
  have hcount : Word.Fits 2 (p.constants.length + 1) :=
    Nat.lt_succ_of_le (Nat.succ_le_succ hcount)
  refine (Reads.u16 hcount).bind ?_
  simp only [Nat.add_one_ne_zero, if_false, Nat.add_sub_cancel]
  exact (ConstantPool.reads_slots hfit 1).bind_pure

end CallForest.ClassFile
