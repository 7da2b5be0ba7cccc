import CallForest.ClassFile.Emission
import CallForest.Proofs.ClassFile.FatalFiles

/-!
# The package only filters calls

A class file can be read with a package, and then only the calls into that package are kept. The
calls are picked before each target is taken once, so a call that is not kept might have been the
one that stood for its signature. If a signature belongs to one owner only, that makes no
difference: picking calls and taking each target once can change places. Nor does the package hide
or cause a fault, because all calls are found before any is picked, and a descriptor that cannot be
cut apart is ruled out. So reading with a package is reading without one and then dropping calls.

## Main definitions

* `ParsedClass.restrict` — a class with only the calls into a package;
* `TellsOwners` — calls of one method with the same signature have the same owner.

## Main results

* `CallSite.distinct_filter` — picking and taking once can change places;
* `inNamespace_iff` — which classes lie in a package;
* `callSites_some`, `ClassImage.record_some` — the calls of a piece of code, and a record;
* `parseClass_some` — a class file as a whole.
-/

namespace CallForest

/-! ### Picking and taking once -/

namespace CallSite

/-- Calls can be picked before or after the first of each signature is taken, if the signature
decides which are picked. -/
theorem distinct_filter {keep : CallSite → Bool} {sites : List CallSite}
    (hkeep : ∀ a ∈ sites, ∀ b ∈ sites, a.signature = b.signature → keep a = keep b)
    {seen seen' : List String}
    (hseen : ∀ a ∈ sites, keep a = true → (a.signature ∈ seen ↔ a.signature ∈ seen')) :
    distinct seen (sites.filter keep) = (distinct seen' sites).filter keep := by
  -- A signature that is not kept is seen on the right only, where no kept call can have it.
  induction sites generalizing seen seen' with
  | nil => rfl
  | cons site rest ih =>
    have hrest : ∀ a ∈ rest, ∀ b ∈ rest, a.signature = b.signature → keep a = keep b := by
      intro a ha b hb
      exact hkeep a (List.mem_cons_of_mem _ ha) b (List.mem_cons_of_mem _ hb)
    have hagree : ∀ a ∈ rest, keep a = true → (a.signature ∈ seen ↔ a.signature ∈ seen') := by
      intro a ha
      exact hseen a (List.mem_cons_of_mem _ ha)
    by_cases hsite : keep site = true
    · have hfirst := hseen site List.mem_cons_self hsite
      rw [List.filter_cons_of_pos hsite, distinct, distinct]
      by_cases hold : site.signature ∈ seen
      · rw [if_pos hold, if_pos (hfirst.mp hold)]
        exact ih hrest hagree
      · rw [if_neg hold, if_neg (mt hfirst.mpr hold), List.filter_cons_of_pos hsite]
        congr 1
        apply ih hrest
        intro a ha hkept
        rw [List.mem_cons, List.mem_cons, hagree a ha hkept]
    · rw [List.filter_cons_of_neg hsite, distinct]
      split
      · exact ih hrest hagree
      · rw [List.filter_cons_of_neg hsite]
        apply ih hrest
        intro a ha hkept
        have hne : a.signature ≠ site.signature := by
          intro hsame
          have := hkeep a (List.mem_cons_of_mem _ ha) site List.mem_cons_self hsame
          exact hsite (this ▸ hkept)
        rw [hagree a ha hkept, List.mem_cons, or_iff_right hne]

end CallSite

/-- The record with only its calls into the package. -/
def MethodRecord.restrict (scope : String) (r : MethodRecord) : MethodRecord :=
  { r with callees := r.callees.filter fun site => ClassFile.inNamespace site.owner scope }

namespace ClassFile

/-! ### Classes in a package -/

/-- A class lies in a package if its name goes on with a slash after the name of the package, from
which slashes at the end are taken off. Every class lies in the package without a name. -/
theorem inNamespace_iff (owner scope : String) :
    inNamespace owner scope = true ↔
      Text.dropEndWhile (· = '/') scope.toList = [] ∨
        ∃ rest, owner.toList = Text.dropEndWhile (· = '/') scope.toList ++ '/' :: rest := by
  rw [inNamespace]
  generalize Text.dropEndWhile (· = '/') scope.toList = package
  rw [Bool.or_eq_true, List.isEmpty_iff]
  apply or_congr_right
  rw [Text.dropStart?]
  by_cases hstart : package <+: owner.toList
  · obtain ⟨rest, hrest⟩ := hstart
    rw [← hrest, if_pos (by simp), List.drop_left]
    cases rest <;> simp
  · rw [if_neg (by simpa using hstart)]
    refine iff_of_false Bool.false_ne_true ?_
    rintro ⟨rest, hrest⟩
    exact hstart (hrest ▸ List.prefix_append _ _)

/-! ### Results one after the other -/

/-- A change of each value is a change of all values, as far as no result is fatal. -/
theorem mapM_eq_map_of_notFatal {α β : Type} {f g : α → Except Fault β} {change : β → β}
    {l : List α} (hfine : NotFatal (l.mapM f))
    (hchange : ∀ a ∈ l, NotFatal (f a) → g a = (f a).map change) :
    l.mapM g = (l.mapM f).map (List.map change) := by
  induction l with
  | nil => rfl
  | cons a l ih =>
    rw [List.forall_mem_cons] at hchange
    rw [List.mapM_cons] at hfine
    rw [List.mapM_cons, List.mapM_cons]
    cases ha : f a with
    | error fault =>
      rw [ha] at hfine
      rw [hchange.1 (ha ▸ .error (hfine fault rfl)), ha]
      rfl
    | ok b =>
      rw [hchange.1 (ha ▸ .ok b), ha]
      have hrest : NotFatal (l.mapM f) := by
        intro fault hfault
        apply hfine
        rw [ha, hfault]
        rfl
      rw [ih hrest hchange.2]
      cases l.mapM f <;> rfl

/-! ### Calls -/

/-- The signature of the method that is called. -/
def Invocation.signature (call : Invocation) : String :=
  methodSignature call.target.owner call.target.name call.target.descriptor

theorem Invocation.of_site_eq_ok {call : Invocation} {site : CallSite} (h : call.site = .ok site) :
    site.owner = call.target.owner ∧ site.signature = call.signature := by
  rw [Invocation.site_eq_ok_iff, CallSite.of?, Option.map_eq_some_iff] at h
  obtain ⟨parameters, -, rfl⟩ := h
  exact ⟨rfl, rfl⟩

/-- The calls of a piece of code, none if one of them cannot be found. -/
def callsIn (pool : ConstantPool) (table : BootstrapTable) (code : List UInt8) : List Invocation :=
  (invocations pool table code).toOption.getD []

/-- Calls of the code with the same signature have the same owner. -/
def CodeTellsOwners (pool : ConstantPool) (table : BootstrapTable) (code : List UInt8) : Prop :=
  ∀ call ∈ callsIn pool table code, ∀ call' ∈ callsIn pool table code,
    call.signature = call'.signature → call.target.owner = call'.target.owner
deriving Decidable

section Calls

variable {pool : ConstantPool} {table : BootstrapTable} {code : List UInt8}

/-- The calls into a package are those of all calls that go there. -/
theorem callSites_some (howners : CodeTellsOwners pool table code)
    (hfine : NotFatal (callSites pool table none code)) (scope : String) :
    callSites pool table (some scope) code =
      (callSites pool table none code).map
        (List.filter fun site => inNamespace site.owner scope) := by
  rw [CodeTellsOwners, callsIn] at howners
  rw [callSites_eq_mapM_site] at hfine ⊢
  rw [callSites_eq_mapM_site]
  cases hcalls : invocations pool table code with
  | error fault => rfl
  | ok calls =>
    rw [hcalls] at howners hfine
    simp only [bind, Except.bind, Option.all_none, Option.all_some, List.filter_true] at hfine ⊢
    cases hsites : calls.mapM Invocation.site with
    | error fault =>
      -- Only a descriptor that cannot be cut apart keeps a call from becoming a call site.
      obtain ⟨-, call, -, -, -, hcall⟩ := exists_split_of_mapM_eq_error hsites
      obtain ⟨-, rfl⟩ := Invocation.site_eq_error_iff.mp hcall
      rw [hsites] at hfine
      exact Bool.noConfusion (hfine _ rfl)
    | ok sites =>
      have hpicked := mapM_filter (p := fun call => inNamespace call.target.owner scope)
        (q := fun site => inNamespace site.owner scope)
        (fun call site h => by rw [(Invocation.of_site_eq_ok h).1]) hsites
      rw [hpicked]
      have hkeep : ∀ a ∈ sites, ∀ b ∈ sites, a.signature = b.signature →
          inNamespace a.owner scope = inNamespace b.owner scope := by
        intro a ha b hb hsame
        obtain ⟨call, hcall, ha⟩ := exists_of_mem_mapM hsites ha
        obtain ⟨call', hcall', hb⟩ := exists_of_mem_mapM hsites hb
        obtain ⟨howner, hsig⟩ := Invocation.of_site_eq_ok ha
        obtain ⟨howner', hsig'⟩ := Invocation.of_site_eq_ok hb
        rw [hsig, hsig'] at hsame
        rw [howner, howner', howners call hcall call' hcall' hsame]
      exact congrArg Except.ok (CallSite.distinct_filter hkeep fun _ _ _ => Iff.rfl)

end Calls

/-! ### Records and classes -/

/-- The class with only the calls into the package. -/
def ParsedClass.restrict (scope : String) (parsed : ParsedClass) : ParsedClass :=
  { parsed with methods := parsed.methods.map (MethodRecord.restrict scope) }

namespace ClassImage

variable {image : ClassImage} {m : RawMethod}

theorem record_some
    (howners : ∀ code ∈ m.code, CodeTellsOwners image.pool image.bootstrap code)
    (hfine : NotFatal (image.record none m)) (scope : String) :
    image.record (some scope) m = (image.record none m).map (MethodRecord.restrict scope) := by
  unfold record at hfine ⊢
  cases hblank : MethodRecord.of? image.info m.name m.descriptor with
  | none => rfl
  | some blank =>
    rw [hblank] at hfine
    cases hcode : m.code with
    | none => rfl
    | some code =>
      rw [hcode] at hfine
      have hcalls : NotFatal (callSites image.pool image.bootstrap none code) := by
        intro fault hfault
        exact hfine fault (bind_pure_eq_error_iff.mpr hfault)
      simp only [callSites_some (howners code hcode) hcalls scope]
      cases callSites image.pool image.bootstrap none code <;> rfl

end ClassImage

/-- In the code of each method of the class file, calls with the same signature have the same
owner. -/
def TellsOwners (bytes : List UInt8) : Prop :=
  ∀ image ∈ (readImage.decode bytes).toOption, ∀ m ∈ image.methods, ∀ code ∈ m.code,
    CodeTellsOwners image.pool image.bootstrap code
deriving Decidable

/-- If reading a class file without a package does not end the work, and calls with the same
signature have the same owner, then reading it with a package fails with the same fault or gives the
same class, the same flags and the same records, except that each record has lost the calls that do
not go into the package. A call goes into the package if the name of its owner goes on with a slash
after the name of the package. -/
theorem parseClass_some (bytes : List UInt8) (scope : String)
    (hfine : NotFatal (parseClass bytes none)) (howners : TellsOwners bytes) :
    parseClass bytes (some scope) = (parseClass bytes none).map (ParsedClass.restrict scope) ∧
      ∀ owner, inNamespace owner scope = true ↔
        Text.dropEndWhile (· = '/') scope.toList = [] ∨
          ∃ rest, owner.toList = Text.dropEndWhile (· = '/') scope.toList ++ '/' :: rest := by
  refine ⟨?_, fun owner => inNamespace_iff owner scope⟩
  unfold parseClass at hfine ⊢
  cases himage : readImage.decode bytes with
  | error fault => rfl
  | ok image =>
    rw [himage] at hfine
    have hrecords : NotFatal ((withoutShadows image.methods).mapM (image.record none)) := by
      intro fault hfault
      exact hfine fault (bind_pure_eq_error_iff.mpr hfault)
    have hmethods : (withoutShadows image.methods).mapM (image.record (some scope)) =
        ((withoutShadows image.methods).mapM (image.record none)).map
          (List.map (MethodRecord.restrict scope)) := by
      apply mapM_eq_map_of_notFatal hrecords
      intro m hm hrecord
      have hmem : m ∈ image.methods := (List.mem_filter.mp hm).1
      exact ClassImage.record_some (howners image (himage ▸ rfl) m hmem) hrecord scope
    simp only [bind, Except.bind, ClassImage.parsed, hmethods]
    cases (withoutShadows image.methods).mapM (image.record none) <;> rfl

/-- A class that calls a method of the platform twice, a method of its own package, and one of a
package whose name only begins like its own. -/
def auditedStore : ClassSpec where
  name := "com/acme/Store"
  methods := [
    { name := "save"
      descriptor := "(J)V"
      body := some [
        .invoke .virtual ⟨"java/util/List", "size", "()I"⟩,
        .invoke .static ⟨"com/acme/Audit", "log", "(J)V"⟩,
        .invoke .virtual ⟨"java/util/List", "size", "()I"⟩,
        .invoke .static ⟨"com/acmeter/Audit", "log", "(J)V"⟩] }]

theorem parseClass_some_auditedStore :
    NotFatal (parseClass auditedStore.toBytes none) ∧ TellsOwners auditedStore.toBytes ∧
      parseClass auditedStore.toBytes (some "com/acme/") =
        (parseClass auditedStore.toBytes none).map (ParsedClass.restrict "com/acme/") ∧
      ((parseClass auditedStore.toBytes none).toOption.map fun parsed =>
        parsed.methods.map fun r => r.callees.map (·.owner)) =
          some [["java/util/List", "com/acme/Audit", "com/acmeter/Audit"]] ∧
      ((parseClass auditedStore.toBytes (some "com/acme/")).toOption.map fun parsed =>
        parsed.methods.map fun r => r.callees.map (·.owner)) = some [["com/acme/Audit"]] := by
  have hfine : NotFatal (parseClass auditedStore.toBytes none) := by decide +kernel
  have howners : TellsOwners auditedStore.toBytes := by decide +kernel
  exact ⟨hfine, howners, (parseClass_some auditedStore.toBytes "com/acme/" hfine howners).1,
    by decide +kernel, by decide +kernel⟩

end ClassFile

end CallForest
