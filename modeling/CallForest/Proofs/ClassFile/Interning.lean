import CallForest.Proofs.ClassFile.Building
import Mathlib.Data.List.Forall2

/-!
# A pool as a store

Whoever builds a class file asks the pool for one thing after the other and keeps the indices. The
pool that is read back has to answer for all of them at once, however many requests came between an
index and the end. Two facts carry this. The pool grows at its end alone, so an index that was
handed out leads to the same constant for good. And it holds nothing twice, so there is one index
for each thing that was asked for.

Constants and bootstrap methods stand in two tables. Indices are compared within one of them.

## Main definitions

* `PoolRequest` — what a pool can be asked for;
* `PoolRequest.perform`, `performAll` — requests put to a pool;
* `PoolRequest.ResolvesAt` — what a reader finds at the index that was handed out.

## Main results

* `PoolRequest.perform_spec` — a request is answered for every later pool;
* `performAll_spec` — so is a run of requests;
* `PoolRequest.ResolvesAt.request_eq` — a constant answers one request only;
* `PoolRequest.ResolvesAt.index_eq` — a request has one index only;
* `exists_pool_of_performAll` — the pool after a run is read back and answers for the whole run.
-/

namespace CallForest.ClassFile

open Decoder

/-! ### Requests -/

/-- What a pool can be asked for. -/
inductive PoolRequest where
  | utf8 (text : String)
  | classRef (name : String)
  | string (text : String)
  | nameAndType (name descriptor : String)
  | methodRef (target : MemberRef) (ofInterface : Bool)
  | methodHandle (kind reference : Nat)
  | methodType (descriptor : String)
  | invokeDynamic (slot : Nat) (name descriptor : String)
  | bootstrap (method : BootstrapMethod)
deriving DecidableEq, Repr

namespace PoolRequest

/-- Puts the request to the pool. The value is an index, or the slot of a bootstrap method. -/
def perform : PoolRequest → Build Nat
  | utf8 text => Build.utf8 text
  | classRef name => Build.classRef name
  | string text => Build.string text
  | nameAndType name descriptor => Build.nameAndType name descriptor
  | methodRef target ofInterface => Build.methodRef target ofInterface
  | methodHandle kind reference => Build.methodHandle kind reference
  | methodType descriptor => Build.methodType descriptor
  | invokeDynamic slot name descriptor => Build.invokeDynamic slot name descriptor
  | bootstrap method => Build.bootstrap method

/-- The request is for a slot of the bootstrap table. -/
def isBootstrap : PoolRequest → Bool
  | bootstrap _ => true
  | _ => false

theorem isBootstrap_cases (r : PoolRequest) :
    r.isBootstrap = false ∨ ∃ method, r = bootstrap method := by
  cases r with
  | bootstrap method => exact .inr ⟨method, rfl⟩
  | _ => exact .inl rfl

/-- The texts of the request are not too long, and its numbers are words. Bootstrap methods are not
written into the pool, so nothing is asked of them. -/
def Fits : PoolRequest → Prop
  | utf8 text | classRef text | string text | methodType text => TextFits text
  | nameAndType name descriptor => TextFits name ∧ TextFits descriptor
  | methodRef target _ => target.Fits
  | methodHandle kind reference => Word.Fits 1 kind ∧ Word.Fits 2 reference
  | invokeDynamic slot name descriptor => Word.Fits 2 slot ∧ TextFits name ∧ TextFits descriptor
  | bootstrap _ => True

instance : (r : PoolRequest) → Decidable r.Fits
  | utf8 text | classRef text | string text | methodType text =>
    inferInstanceAs (Decidable (TextFits text))
  | nameAndType name descriptor =>
    inferInstanceAs (Decidable (TextFits name ∧ TextFits descriptor))
  | methodRef target _ => inferInstanceAs (Decidable target.Fits)
  | methodHandle kind reference =>
    inferInstanceAs (Decidable (Word.Fits 1 kind ∧ Word.Fits 2 reference))
  | invokeDynamic slot name descriptor =>
    inferInstanceAs (Decidable (Word.Fits 2 slot ∧ TextFits name ∧ TextFits descriptor))
  | bootstrap _ => inferInstanceAs (Decidable True)

/-- At the index a reader finds just what was asked for. -/
def ResolvesAt (pool : ConstantPool) (methods : List BootstrapMethod) : PoolRequest → Nat → Prop
  | utf8 text, i => pool.utf8 i = .ok text
  | classRef name, i => pool.className i = .ok name
  | string text, i => ∃ n, pool.get? i = some (.string n) ∧ pool.utf8 n = .ok text
  | nameAndType name descriptor, i => pool.nameAndType i = .ok (name, descriptor)
  | methodRef target ofInterface, i => pool.methodRef i = .ok target ∧
      ∃ m n, pool.get? i = some (if ofInterface then .interfaceMethodRef m n else .methodRef m n)
  | methodHandle kind reference, i => pool.methodHandle i = .ok (kind, reference)
  | methodType descriptor, i =>
      ∃ n, pool.get? i = some (.methodType n) ∧ pool.utf8 n = .ok descriptor
  | invokeDynamic slot name descriptor, i => pool.invokeDynamic i = .ok slot ∧
      ∃ n, pool.get? i = some (.invokeDynamic slot n) ∧ pool.nameAndType n = .ok (name, descriptor)
  | bootstrap method, slot => methods[slot]? = some method

end PoolRequest

/-- Puts requests to the pool, one after the other. -/
def performAll : List PoolRequest → Build (List Nat)
  | [] => return []
  | r :: rest => do
    let index ← r.perform
    return index :: (← performAll rest)

/-! ### One request -/

namespace PoolRequest

open Build

/-- A request for a constant is a step of writing. So is one for a bootstrap method, as far as the
growth of the pool goes. -/
theorem yields_perform (q p : PoolBuilder) (r : PoolRequest) :
    Yields q p (r.Fits ∧ r.isBootstrap = false) r.perform
      (r.ResolvesAt q.pool q.bootstraps) := by
  cases r with
  | utf8 => exact (Yields.utf8 And.left).mono fun _ _ => And.right
  | classRef => exact (Yields.classRef And.left).mono fun _ _ => And.right
  | string => exact (Yields.string And.left).mono fun _ _ => And.right
  | nameAndType =>
    exact (Yields.nameAndType (fun h => h.1.1) fun h => h.1.2).mono fun _ _ => And.right
  | methodRef =>
    exact (Yields.methodRef_kind And.left).mono fun _ _ h => ⟨h.1.2, h.2⟩
  | methodHandle =>
    exact (Yields.methodHandle (fun h => h.1.1) fun h => h.1.2).mono fun _ _ => And.right
  | methodType => exact (Yields.methodType And.left).mono fun _ _ => And.right
  | invokeDynamic =>
    exact (Yields.invokeDynamic_member (fun h => h.1.1) (fun h => h.1.2.1)
      fun h => h.1.2.2).mono fun _ _ h => ⟨h.1.2, h.2⟩
  | bootstrap =>
    refine (Yields.bootstrap ?_ ?_).mono ?_ <;>
    · rintro ⟨-, hkind⟩
      exact Bool.noConfusion hkind

/-- A request only adds to the pool. -/
theorem le_perform (r : PoolRequest) (p : PoolBuilder) : p ≤ (r.perform p).2 :=
  (yields_perform p p r).grows

/-- A request adds nothing that is there. -/
theorem distinct_perform (r : PoolRequest) {p : PoolBuilder} (hp : p.Distinct) :
    (r.perform p).2.Distinct :=
  (yields_perform p p r).distinct hp

/-- A request that fits adds constants that fit, and its index resolves in every later pool that is
not too large. -/
theorem perform_spec {r : PoolRequest} {p q : PoolBuilder} (hr : r.Fits)
    (hcount : q.constants.length ≤ 65534) (hq : (r.perform p).2 ≤ q) :
    (∀ c ∈ (r.perform p).2.constants, c ∈ p.constants ∨ c.Fits) ∧
      r.ResolvesAt q.pool q.bootstraps (r.perform p).1 := by
  rcases r.isBootstrap_cases with hkind | ⟨method, rfl⟩
  · obtain ⟨hadds, hresolves⟩ := (yields_perform q p r).holds ⟨hr, hkind⟩ hcount hq
    exact ⟨hadds.constants, hresolves⟩
  · rw [perform, Build.bootstrap_eq] at hq ⊢
    exact ⟨fun _ => .inl, getElem?_place hq.2⟩

end PoolRequest

/-! ### Runs of requests -/

theorem performAll_cons (r : PoolRequest) (rest : List PoolRequest) (p : PoolBuilder) :
    performAll (r :: rest) p =
      ((r.perform p).1 :: (performAll rest (r.perform p).2).1,
        (performAll rest (r.perform p).2).2) :=
  rfl

theorem le_performAll (requests : List PoolRequest) (p : PoolBuilder) :
    p ≤ (performAll requests p).2 := by
  induction requests generalizing p with
  | nil => exact le_refl p
  | cons r rest ih => exact le_trans (r.le_perform p) (ih (r.perform p).2)

theorem distinct_performAll (requests : List PoolRequest) {p : PoolBuilder} (hp : p.Distinct) :
    (performAll requests p).2.Distinct := by
  induction requests generalizing p with
  | nil => exact hp
  | cons r rest ih => exact ih (r.distinct_perform hp)

/-- A run of requests that fit adds constants that fit, and all its indices resolve in every later
pool that is not too large. -/
theorem performAll_spec {requests : List PoolRequest} {p q : PoolBuilder}
    (hfit : ∀ r ∈ requests, r.Fits) (hcount : q.constants.length ≤ 65534)
    (hq : (performAll requests p).2 ≤ q) :
    (∀ c ∈ (performAll requests p).2.constants, c ∈ p.constants ∨ c.Fits) ∧
      List.Forall₂ (PoolRequest.ResolvesAt q.pool q.bootstraps) requests
        (performAll requests p).1 := by
  induction requests generalizing p with
  | nil => exact ⟨fun _ => .inl, .nil⟩
  | cons r rest ih =>
    rw [List.forall_mem_cons] at hfit
    rw [performAll_cons] at hq ⊢
    have hfirst := PoolRequest.perform_spec hfit.1 hcount (le_trans (le_performAll rest _) hq)
    obtain ⟨hadds, hrest⟩ := ih hfit.2 hq
    refine ⟨?_, .cons hfirst.2 hrest⟩
    intro c hc
    rcases hadds c hc with hold | hnew
    · exact hfirst.1 c hold
    · exact .inr hnew

/-! ### One index for each request -/

namespace ConstantPool

variable {pool : ConstantPool} {i j : Nat}

/-- No constant stands at two indices. -/
def Distinct (pool : ConstantPool) : Prop :=
  pool.slots.toList.Nodup

namespace Distinct

variable (hpool : pool.Distinct)
include hpool

theorem index_eq {c : Constant} (hi : pool.get? i = some c) (hj : pool.get? j = some c) :
    i = j := by
  unfold get? at hi hj
  rw [← Array.getElem?_toList] at hi hj
  obtain ⟨hlt, -⟩ := List.getElem?_eq_some_iff.mp hi
  exact (List.getElem?_inj hlt hpool).mp (hi.trans hj.symm)

theorem utf8_index_eq {text : String} (hi : pool.utf8 i = .ok text) (hj : pool.utf8 j = .ok text) :
    i = j :=
  hpool.index_eq (utf8_eq_ok_iff.mp hi) (utf8_eq_ok_iff.mp hj)

theorem className_index_eq {name : String} (hi : pool.className i = .ok name)
    (hj : pool.className j = .ok name) : i = j := by
  obtain ⟨m, hi, hm⟩ := className_eq_ok_iff.mp hi
  obtain ⟨n, hj, hn⟩ := className_eq_ok_iff.mp hj
  rw [hpool.utf8_index_eq hm hn] at hi
  exact hpool.index_eq hi hj

theorem nameAndType_index_eq {name descriptor : String}
    (hi : pool.nameAndType i = .ok (name, descriptor))
    (hj : pool.nameAndType j = .ok (name, descriptor)) : i = j := by
  obtain ⟨m, m', hi, hm, hm'⟩ := nameAndType_eq_ok_iff.mp hi
  obtain ⟨n, n', hj, hn, hn'⟩ := nameAndType_eq_ok_iff.mp hj
  rw [hpool.utf8_index_eq hm hn, hpool.utf8_index_eq hm' hn'] at hi
  exact hpool.index_eq hi hj

end Distinct

/-- The request that the constant at an index answers. -/
def requestAt? (pool : ConstantPool) (i : Nat) : Option PoolRequest :=
  match pool.get? i with
  | some (.utf8 text) => some (.utf8 text)
  | some (.classRef n) => (pool.utf8 n).toOption.map .classRef
  | some (.string n) => (pool.utf8 n).toOption.map .string
  | some (.nameAndType _ _) => (pool.nameAndType i).toOption.map fun (name, descriptor) =>
      .nameAndType name descriptor
  | some (.methodRef _ _) => (pool.methodRef i).toOption.map (.methodRef · false)
  | some (.interfaceMethodRef _ _) => (pool.methodRef i).toOption.map (.methodRef · true)
  | some (.methodHandle kind reference) => some (.methodHandle kind reference)
  | some (.methodType n) => (pool.utf8 n).toOption.map .methodType
  | some (.invokeDynamic slot n) => (pool.nameAndType n).toOption.map fun (name, descriptor) =>
      .invokeDynamic slot name descriptor
  | _ => none

end ConstantPool

namespace PoolRequest.ResolvesAt

variable {pool : ConstantPool} {methods : List BootstrapMethod} {r s : PoolRequest} {i j : Nat}

/-- The kind of the constant tells the kind of the request, and what it refers to the rest. -/
theorem requestAt?_eq (h : r.ResolvesAt pool methods i) (hr : r.isBootstrap = false) :
    pool.requestAt? i = some r := by
  unfold ConstantPool.requestAt?
  cases r with
  | utf8 text => rw [ConstantPool.utf8_eq_ok_iff.mp h]
  | classRef name =>
    obtain ⟨n, hi, hn⟩ := ConstantPool.className_eq_ok_iff.mp h
    simp only [hi, hn]
    rfl
  | string text =>
    obtain ⟨n, hi, hn⟩ := h
    simp only [hi, hn]
    rfl
  | nameAndType name descriptor =>
    obtain ⟨m, n, hi, -⟩ := ConstantPool.nameAndType_eq_ok_iff.mp h
    have hfound : pool.nameAndType i = .ok (name, descriptor) := h
    simp only [hi, hfound]
    rfl
  | methodRef target ofInterface =>
    obtain ⟨hfound, m, n, hi⟩ := h
    cases ofInterface <;>
      · simp only [hi, hfound, Bool.false_eq_true, if_true, if_false]
        rfl
  | methodHandle kind reference => rw [ConstantPool.methodHandle_eq_ok_iff.mp h]
  | methodType descriptor =>
    obtain ⟨n, hi, hn⟩ := h
    simp only [hi, hn]
    rfl
  | invokeDynamic slot name descriptor =>
    obtain ⟨-, n, hi, hn⟩ := h
    simp only [hi, hn]
    rfl
  | bootstrap => exact Bool.noConfusion hr

/-- Two requests of one table with the same index are the same. -/
theorem request_eq (hr : r.ResolvesAt pool methods i) (hs : s.ResolvesAt pool methods i)
    (htable : r.isBootstrap = s.isBootstrap) : r = s := by
  rcases r.isBootstrap_cases with hkind | ⟨method, rfl⟩
  · have hfirst := hr.requestAt?_eq hkind
    have hsecond := hs.requestAt?_eq (htable ▸ hkind)
    exact Option.some.inj (hfirst.symm.trans hsecond)
  · rcases s.isBootstrap_cases with hkind | ⟨method', rfl⟩
    · exact Bool.noConfusion (htable.trans hkind)
    · have hfirst : methods[i]? = some method := hr
      have hsecond : methods[i]? = some method' := hs
      rw [Option.some.inj (hfirst.symm.trans hsecond)]

/-- A request has one index, if nothing is there twice. -/
theorem index_eq (hpool : pool.Distinct) (hmethods : methods.Nodup)
    (hi : r.ResolvesAt pool methods i) (hj : r.ResolvesAt pool methods j) : i = j := by
  cases r with
  | utf8 => exact hpool.utf8_index_eq hi hj
  | classRef => exact hpool.className_index_eq hi hj
  | string | methodType =>
    obtain ⟨m, hi, hm⟩ := hi
    obtain ⟨n, hj, hn⟩ := hj
    rw [hpool.utf8_index_eq hm hn] at hi
    exact hpool.index_eq hi hj
  | nameAndType => exact hpool.nameAndType_index_eq hi hj
  | methodRef target ofInterface =>
    -- Here alone the kinds of the two constants could differ, but both come from the request.
    obtain ⟨htarget, m, m', hi⟩ := hi
    obtain ⟨htarget', n, n', hj⟩ := hj
    obtain ⟨hm, hm'⟩ := (ConstantPool.methodRef_eq_ok_iff hi).mp htarget
    obtain ⟨hn, hn'⟩ := (ConstantPool.methodRef_eq_ok_iff hj).mp htarget'
    rw [hpool.className_index_eq hm hn, hpool.nameAndType_index_eq hm' hn'] at hi
    exact hpool.index_eq hi hj
  | methodHandle =>
    exact hpool.index_eq (ConstantPool.methodHandle_eq_ok_iff.mp hi)
      (ConstantPool.methodHandle_eq_ok_iff.mp hj)
  | invokeDynamic =>
    obtain ⟨-, m, hi, hm⟩ := hi
    obtain ⟨-, n, hj, hn⟩ := hj
    rw [hpool.nameAndType_index_eq hm hn] at hi
    exact hpool.index_eq hi hj
  | bootstrap method =>
    have hfirst : methods[i]? = some method := hi
    have hsecond : methods[j]? = some method := hj
    obtain ⟨hlt, -⟩ := List.getElem?_eq_some_iff.mp hfirst
    exact (List.getElem?_inj hlt hmethods).mp (hfirst.trans hsecond.symm)

/-- An index that leads somewhere fits its word, if there are not too many. -/
theorem fits {q : PoolBuilder} (hlimits : q.InLimits) (h : r.ResolvesAt q.pool q.bootstraps i) :
    Word.Fits 2 i := by
  rw [Word.fits_two]
  rcases r.isBootstrap_cases with hkind | ⟨method, rfl⟩
  · have hsome : (q.pool.get? i).isSome := by
      by_contra hnone
      have hrequest := h.requestAt?_eq hkind
      rw [ConstantPool.requestAt?, Option.not_isSome_iff_eq_none.mp hnone] at hrequest
      cases hrequest
    have hlt : i < q.constants.length + 1 := by
      simpa [ConstantPool.get?, PoolBuilder.pool] using hsome
    have hcount := hlimits.constants
    omega
  · obtain ⟨hlt, -⟩ := List.getElem?_eq_some_iff.mp h
    have hcount := hlimits.bootstraps
    omega

end PoolRequest.ResolvesAt

/-! ### The pool after a run -/

/-- A pool that holds no constant twice is read back as one, since slot zero holds none. -/
theorem PoolBuilder.Distinct.pool {q : PoolBuilder} (hq : q.Distinct)
    (hfit : ∀ c ∈ q.constants, c.Fits) : q.pool.Distinct :=
  List.nodup_cons.mpr ⟨fun hmem => hfit _ hmem, hq.constants⟩

/-- The pool answers for the whole run of requests that built it. What is written is read back in
full, with a slot for each constant and slot zero. Every index leads to what was asked for when it
was handed out. Requests of one table have the same index just when they are the same. -/
theorem exists_pool_of_performAll {requests : List PoolRequest} {indices : List Nat}
    {q : PoolBuilder} (hfit : ∀ r ∈ requests, r.Fits)
    (hrun : performAll requests {} = (indices, q)) (hlimits : q.InLimits) :
    ∃ pool : ConstantPool, Reads ConstantPool.read q.encode pool ∧
      pool.size = q.constants.length + 1 ∧
      List.Forall₂ (fun r i => Word.Fits 2 i ∧ r.ResolvesAt pool q.bootstraps i)
        requests indices ∧
      ∀ a ∈ requests.zip indices, ∀ b ∈ requests.zip indices,
        a.1.isBootstrap = b.1.isBootstrap → (a.2 = b.2 ↔ a.1 = b.1) := by
  have hspec := performAll_spec (p := {}) hfit hlimits.constants
  have hdistinct := distinct_performAll requests PoolBuilder.distinct_empty
  rw [hrun] at hspec hdistinct
  obtain ⟨hadds, hresolve⟩ := hspec (le_refl q)
  have hconstants : ∀ c ∈ q.constants, c.Fits := fun c hc =>
    (hadds c hc).resolve_left List.not_mem_nil
  refine ⟨q.pool, ?_, by simp [ConstantPool.size, PoolBuilder.pool], ?_, ?_⟩
  · exact PoolBuilder.reads_encode hconstants hlimits.constants
  · exact hresolve.imp fun r i h => ⟨h.fits hlimits, h⟩
  · rintro ⟨r, i⟩ ha ⟨s, j⟩ hb htable
    have hi := List.forall₂_zip hresolve ha
    have hj := List.forall₂_zip hresolve hb
    refine ⟨?_, ?_⟩
    · rintro (rfl : i = j)
      exact hi.request_eq hj htable
    · rintro (rfl : r = s)
      exact hi.index_eq (hdistinct.pool hconstants) hdistinct.bootstraps hj

/-- A run that asks for some things twice, and for a method both of a class and of an interface. -/
def repeatedRun : List PoolRequest :=
  [.utf8 "run", .methodRef ⟨"shop/Job", "run", "()V"⟩ false, .methodHandle 6 6, .methodType "()V",
    .bootstrap ⟨7, [8, 7, 8, 1]⟩, .invokeDynamic 0 "run" "()V",
    .methodRef ⟨"shop/Job", "run", "()V"⟩ true, .string "run", .classRef "shop/Job",
    .bootstrap ⟨7, [8, 7, 8, 1]⟩, .invokeDynamic 0 "run" "()V", .nameAndType "run" "()V"]

theorem exists_pool_of_performAll_repeatedRun :
    (∀ r ∈ repeatedRun, r.Fits) ∧ (performAll repeatedRun {}).2.InLimits ∧
    (performAll repeatedRun {}).1 = [1, 6, 7, 8, 0, 9, 10, 11, 3, 0, 9, 5] ∧
    ∃ pool : ConstantPool, Reads ConstantPool.read (performAll repeatedRun {}).2.encode pool ∧
      pool.size = (performAll repeatedRun {}).2.constants.length + 1 ∧
      List.Forall₂ (fun r i => Word.Fits 2 i ∧
        r.ResolvesAt pool (performAll repeatedRun {}).2.bootstraps i)
        repeatedRun [1, 6, 7, 8, 0, 9, 10, 11, 3, 0, 9, 5] ∧
      ∀ a ∈ repeatedRun.zip [1, 6, 7, 8, 0, 9, 10, 11, 3, 0, 9, 5],
        ∀ b ∈ repeatedRun.zip [1, 6, 7, 8, 0, 9, 10, 11, 3, 0, 9, 5],
          a.1.isBootstrap = b.1.isBootstrap → (a.2 = b.2 ↔ a.1 = b.1) := by
  have hfit : ∀ r ∈ repeatedRun, r.Fits := by decide
  have hlimits : (performAll repeatedRun {}).2.InLimits := by decide
  have hindices : (performAll repeatedRun {}).1 = [1, 6, 7, 8, 0, 9, 10, 11, 3, 0, 9, 5] := by
    decide
  exact ⟨hfit, hlimits, hindices, exists_pool_of_performAll hfit (Prod.ext hindices rfl) hlimits⟩

end CallForest.ClassFile
