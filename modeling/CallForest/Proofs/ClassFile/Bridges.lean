import CallForest.Proofs.ClassFile.Boundaries
import CallForest.Proofs.ClassFile.FatalFiles
import CallForest.Proofs.ClassFile.Layout
import CallForest.Proofs.FirstCalls

/-!
# Bridges and the methods they forward to

A compiler adds a bridge where a method is called by other types than it was declared with. If only
the result type differs, the bridge has the identity of the method that it forwards to, and of two
records with one identity the last wins. So such a bridge gets no record, wherever it stands in the
file. A bridge with parameter types of its own is a method of its own and is kept.

The calls of a record are those of the last code attribute of its method. They are found in the
order of the instructions, and of all calls with one signature the first is kept.

## Main definitions

* `MemberEntry.IsShadow` — a bridge to a method of the same name and parameter section;
* `ClassEntries.kept` — the methods of a class file that get records;
* `CallsInOrder` — the calls that the instructions of a piece of code make;
* `ClassEntries.Records` — how a method of a class file is recorded.

## Main results

* `exists_calls_of_callSites` — the calls of a piece of code, each signature once;
* `forall₂_kept` — the methods that get records;
* `ClassEntries.ReadAs.records` — one record;
* `parseClass_keeps_bridged` — the records of a class file.
-/

namespace CallForest.ClassFile

/-! ### The first call of each signature -/

/-- The identity of a method that is called. -/
def MemberRef.signature (target : MemberRef) : String :=
  methodSignature target.owner target.name target.descriptor

/-- The call site of a call of the given method. -/
def MemberRef.IsCalledBy (target : MemberRef) (site : CallSite) : Prop :=
  CallSite.of? target.owner target.name target.descriptor = some site

/-- The instructions of the code make the given calls, in the order of the instructions. -/
def CallsInOrder (pool : ConstantPool) (table : BootstrapTable) (code : List UInt8)
    (calls : List Invocation) : Prop :=
  ∃ offsets made, Instruction.Visits code 0 offsets ∧
    List.Forall₂ (MadeAt pool table code) offsets made ∧ calls = made.flatten

/-- The method that is called at a call site. -/
def targetOf (site : CallSite) : MemberRef :=
  ⟨site.owner, site.name, site.descriptor⟩

theorem MemberRef.IsCalledBy.eq {target : MemberRef} {site : CallSite}
    (h : target.IsCalledBy site) : targetOf site = target ∧ site.signature = target.signature := by
  rw [IsCalledBy, CallSite.of?, Option.map_eq_some_iff] at h
  obtain ⟨parameters, -, rfl⟩ := h
  exact ⟨rfl, rfl⟩

section Calls

variable {pool : ConstantPool} {table : BootstrapTable} {code : List UInt8}

theorem callsInOrder_of_invocations {calls : List Invocation}
    (h : invocations pool table code = .ok calls) : CallsInOrder pool table code calls := by
  rw [invocations_eq_callsFrom] at h
  exact exists_visits_of_callsFrom (Nat.zero_le _) h

/-- Without a package, the calls of a piece of code are the first of their signatures. -/
theorem exists_calls_of_callSites {sites : List CallSite}
    (h : callSites pool table none code = .ok sites) :
    (sites.map CallSite.signature).Nodup ∧ ∃ calls, CallsInOrder pool table code calls ∧
      List.Forall₂ MemberRef.IsCalledBy
        (firstOfEach MemberRef.signature (calls.map Invocation.target)) sites := by
  rw [callSites_eq_mapM_site, bind_eq_ok_iff] at h
  obtain ⟨calls, hcalls, h⟩ := h
  rw [bind_eq_ok_iff] at h
  obtain ⟨all, hall, ⟨⟩⟩ := h
  simp only [Option.all_none, List.filter_true] at hall
  refine ⟨CallSite.nodup_map_distinct all, calls, callsInOrder_of_invocations hcalls, ?_⟩
  have hsites : List.Forall₂ (fun call site => call.target.IsCalledBy site) calls all :=
    (mapM_eq_ok_iff.mp hall).imp fun _ _ => Invocation.site_eq_ok_iff.mp
  have htargets : all.map targetOf = calls.map Invocation.target := by
    symm
    rw [← List.forall₂_eq_eq_eq, List.forall₂_map_left_iff, List.forall₂_map_right_iff]
    exact hsites.imp fun _ _ hcalled => hcalled.eq.1.symm
  have hown : ∀ site ∈ all, (targetOf site).IsCalledBy site := by
    intro site hsite
    obtain ⟨call, -, hcall⟩ := exists_of_mem_mapM hall hsite
    have hcalled : call.target.IsCalledBy site := Invocation.site_eq_ok_iff.mp hcall
    rwa [hcalled.eq.1]
  -- The first of each signature can be taken before or after the call sites are made.
  rw [CallSite.distinct_eq_firstOfEach, ← htargets,
    ← map_firstOfEach fun site hsite => (hown site hsite).eq.2.symm, List.forall₂_map_left_iff,
    List.forall₂_same]
  intro site hsite
  exact hown site (firstOfEach_subset _ _ hsite)

end Calls

/-! ### Methods that get records -/

namespace MemberEntry

/-- Whether the method has the flag of bridges. -/
def isBridge (m : MemberEntry) : Bool :=
  Access.isBridge m.accessFlags.toNat

/-- The name and the parameter section of a method. -/
def key (pool : ConstantPool) (m : MemberEntry) : Except Fault (String × String) := do
  return (← pool.utf8 m.name.toNat, Descriptor.identifying (← pool.utf8 m.descriptor.toNat))

/-- The method is a bridge, and a method that is no bridge has its name and parameter section. -/
def IsShadow (pool : ConstantPool) (methods : List MemberEntry) (m : MemberEntry) : Prop :=
  m.isBridge = true ∧ ∃ m' ∈ methods, m'.isBridge = false ∧ m'.key pool = m.key pool
deriving Decidable

theorem key_eq_ok {pool : ConstantPool} {m : MemberEntry} {name descriptor : String}
    (hname : pool.utf8 m.name.toNat = .ok name)
    (hdescriptor : pool.utf8 m.descriptor.toNat = .ok descriptor) :
    m.key pool = .ok (name, Descriptor.identifying descriptor) := by
  rw [key, hname, hdescriptor]
  rfl

end MemberEntry

/-- The methods of a class file that get records. -/
def ClassEntries.kept (file : ClassEntries) : List MemberEntry :=
  file.methods.entries.filter fun m => ¬ m.IsShadow file.pool file.methods.entries

theorem exists_mem_iff_of_forall₂ {α β : Type} {R : α → β → Prop} {l : List α} {l' : List β}
    {p : α → Prop} {q : β → Prop} (h : List.Forall₂ R l l') (hpq : ∀ a b, R a b → (p a ↔ q b)) :
    (∃ a ∈ l, p a) ↔ ∃ b ∈ l', q b := by
  induction h with
  | nil => simp
  | cons hab _ ih => rw [List.exists_mem_cons_iff, List.exists_mem_cons_iff, hpq _ _ hab, ih]

/-- The methods that get records are read as those that are not left out. -/
theorem forall₂_kept {pool : ConstantPool} {entries : List MemberEntry} {raws : List RawMethod}
    (h : List.Forall₂ (MemberEntry.ReadAs pool) entries raws) :
    List.Forall₂ (MemberEntry.ReadAs pool)
      (entries.filter fun m => ¬ m.IsShadow pool entries) (withoutShadows raws) := by
  have hbridge {m : MemberEntry} {raw : RawMethod} (hm : m.ReadAs pool raw) :
      m.isBridge = Access.isBridge raw.accessFlags := by
    rw [MemberEntry.isBridge, hm.accessFlags]
  have hkey {m : MemberEntry} {raw : RawMethod} (hm : m.ReadAs pool raw) :
      m.key pool = .ok raw.key :=
    MemberEntry.key_eq_ok hm.name hm.descriptor
  apply List.rel_filter _ h
  intro m raw hm
  have hothers : (∃ m' ∈ entries, m'.isBridge = false ∧ m'.key pool = m.key pool) ↔
      ∃ raw' ∈ raws, Access.isBridge raw'.accessFlags = false ∧ raw'.key = raw.key := by
    apply exists_mem_iff_of_forall₂ h
    intro m' raw' hm'
    rw [hbridge hm', hkey hm', hkey hm, Except.ok.injEq]
  simp [MemberEntry.IsShadow, hothers, hbridge hm]

/-! ### Records -/

/-- The calls of a method without a package: none without code, and else the first of each signature
among those that its last code attribute makes. -/
def MemberEntry.Calls (pool : ConstantPool) (table : BootstrapTable) (m : MemberEntry)
    (callees : List CallSite) : Prop :=
  match lastNamed pool codeAttribute m.attributes.entries with
  | none => callees = []
  | some a => ∃ code calls, CodeBody a.body code ∧ CallsInOrder pool table code calls ∧
      List.Forall₂ MemberRef.IsCalledBy
        (firstOfEach MemberRef.signature (calls.map Invocation.target)) callees

/-- The record is that of a method of the class file. -/
structure ClassEntries.Records (file : ClassEntries) (table : BootstrapTable)
    (scope : Option String) (m : MemberEntry) (r : MethodRecord) : Prop where
  owner : file.pool.className file.this.toNat = .ok r.owner.name
  name : file.pool.utf8 m.name.toNat = .ok r.name
  descriptor : file.pool.utf8 m.descriptor.toNat = .ok r.descriptor
  signature : r.signature = methodSignature r.owner.name r.name r.descriptor
  isAbstract : r.isAbstract = Access.isAbstract m.accessFlags.toNat
  callees : scope = none →
    (r.callees.map CallSite.signature).Nodup ∧ m.Calls file.pool table r.callees

section Records

variable {image : ClassImage} {scope : Option String} {raw : RawMethod} {r : MethodRecord}

/-- What a record says, told by the method that was read: which method it is, and the calls of its
code, if it has any. -/
theorem ClassImage.of_record_eq_ok (h : image.record scope raw = .ok r) :
    r.owner = image.info ∧ r.name = raw.name ∧ r.descriptor = raw.descriptor ∧
      r.signature = methodSignature image.name raw.name raw.descriptor ∧
      r.isAbstract = Access.isAbstract raw.accessFlags ∧
      (raw.code = none → r.callees = []) ∧
      ∀ code ∈ raw.code, callSites image.pool image.bootstrap scope code = .ok r.callees := by
  unfold record at h
  cases hblank : MethodRecord.of? image.info raw.name raw.descriptor with
  | none =>
    rw [hblank] at h
    cases h
  | some blank =>
    rw [hblank] at h
    rw [MethodRecord.of?, Option.map_eq_some_iff] at hblank
    obtain ⟨parameters, -, rfl⟩ := hblank
    cases hcode : raw.code with
    | none =>
      rw [hcode] at h
      obtain ⟨_, ⟨⟩, ⟨⟩⟩ := bind_eq_ok_iff.mp h
      refine ⟨rfl, rfl, rfl, rfl, rfl, fun _ => rfl, ?_⟩
      intro code hmem
      cases hmem
    | some code =>
      rw [hcode] at h
      obtain ⟨callees, hcallees, ⟨⟩⟩ := bind_eq_ok_iff.mp h
      refine ⟨rfl, rfl, rfl, rfl, rfl, ?_, ?_⟩
      · intro hnone
        cases hnone
      · intro code' hmem
        cases hmem
        exact hcallees

theorem ClassEntries.ReadAs.records {file : ClassEntries} {m : MemberEntry}
    (hfile : file.ReadAs image) (hm : m.ReadAs file.pool raw)
    (h : image.record scope raw = .ok r) : file.Records image.bootstrap scope m r := by
  obtain ⟨howner, hname, hdescriptor, hsignature, habstract, hnone, hsome⟩ :=
    ClassImage.of_record_eq_ok h
  refine ⟨?_, ?_, ?_, ?_, ?_, ?_⟩
  · rw [howner]
    exact hfile.name
  · rw [hname]
    exact hm.name
  · rw [hdescriptor]
    exact hm.descriptor
  · rw [howner, hname, hdescriptor]
    exact hsignature
  · rw [habstract, hm.accessFlags]
  · rintro rfl
    have hcode := hm.code
    rw [hfile.pool] at hsome
    unfold MemberEntry.Calls
    generalize lastNamed file.pool codeAttribute m.attributes.entries = last at hcode ⊢
    generalize raw.code = code? at hcode hnone hsome
    cases hcode with
    | none =>
      rw [hnone rfl]
      exact ⟨List.nodup_nil, rfl⟩
    | some hbody =>
      obtain ⟨hdistinct, calls, hcalls, hfirst⟩ := exists_calls_of_callSites (hsome _ rfl)
      exact ⟨hdistinct, _, calls, codeBody_of_readCode hbody, hcalls, hfirst⟩

end Records

/-! ### Class files -/

theorem forall₂_comp {α β γ : Type} {R : α → β → Prop} {S : β → γ → Prop} {T : α → γ → Prop}
    {l : List α} {l' : List β} {l'' : List γ} (hT : ∀ a b c, R a b → S b c → T a c)
    (h : List.Forall₂ R l l') (h' : List.Forall₂ S l' l'') : List.Forall₂ T l l'' := by
  induction h generalizing l'' with
  | nil =>
    cases h'
    exact .nil
  | cons hab _ ih =>
    cases h' with
    | cons hbc hrest => exact .cons (hT _ _ _ hab hbc) (ih hrest)

theorem exists_mem_zip {α β : Type} {R : α → β → Prop} {l : List α} {l' : List β}
    (h : List.Forall₂ R l l') {a : α} (ha : a ∈ l) : ∃ b, (a, b) ∈ l.zip l' := by
  induction h with
  | nil => cases ha
  | cons _ _ ih =>
    rw [List.zip_cons_cons]
    rcases List.mem_cons.mp ha with rfl | ha
    · exact ⟨_, List.mem_cons_self⟩
    · obtain ⟨b, hb⟩ := ih ha
      exact ⟨b, List.mem_cons_of_mem _ hb⟩

/-- A class that can be read gives one record for each method that is kept. -/
theorem exists_records_of_parseClass {bytes : List UInt8} {scope : Option String}
    {parsed : ParsedClass} (h : parseClass bytes scope = .ok parsed) :
    ∃ file table, ClassEntries.bytes file <+: bytes ∧ file.bootstrap = .ok table ∧
      List.Forall₂ (file.Records table scope) file.kept parsed.methods := by
  obtain ⟨image, himage, hparsed⟩ := parseClass_eq_ok_iff.mp h
  obtain ⟨file, hbytes, hfile⟩ := exists_entries_of_readImage himage
  obtain ⟨records, hrecords, ⟨⟩⟩ := bind_eq_ok_iff.mp hparsed
  refine ⟨file, image.bootstrap, hbytes, hfile.bootstrap, ?_⟩
  apply forall₂_comp _ (forall₂_kept hfile.methods) (mapM_eq_ok_iff.mp hrecords)
  intro m raw r hm hr
  exact hfile.records hm hr

theorem ClassEntries.Records.key {file : ClassEntries} {table : BootstrapTable}
    {scope : Option String} {m : MemberEntry} {r : MethodRecord}
    (h : file.Records table scope m r) :
    m.key file.pool = .ok (r.name, Descriptor.identifying r.descriptor) :=
  MemberEntry.key_eq_ok h.name h.descriptor

/-- A class file that is read has its entries in one way only, and its records are, in order, those
of its methods without the bridges whose name and parameter section a method that is no bridge has.
So a method that is no bridge has its record, a bridge has one if its name or its parameter section
is its own, and the record of a bridge is never taken for that of another method. Without a package,
the calls of a record have different signatures, and they are the first of their signatures among
the calls of the last code attribute. -/
theorem parseClass_keeps_bridged (bytes : List UInt8) (scope : Option String)
    (parsed : ParsedClass) (h : parseClass bytes scope = .ok parsed) :
    ∃ (file : ClassEntries) (table : BootstrapTable),
      file.bytes <+: bytes ∧ (∀ file' : ClassEntries, file'.bytes <+: bytes → file' = file) ∧
      file.bootstrap = .ok table ∧
      List.Forall₂ (file.Records table scope) file.kept parsed.methods ∧
      (∀ m ∈ file.methods.entries, m.isBridge = false →
        ∃ r, (m, r) ∈ file.kept.zip parsed.methods) ∧
      (∀ m ∈ file.methods.entries,
        (∀ m' ∈ file.methods.entries, m'.isBridge = false → m'.key file.pool ≠ m.key file.pool) →
          ∃ r, (m, r) ∈ file.kept.zip parsed.methods) ∧
      ∀ m r m' r', (m, r) ∈ file.kept.zip parsed.methods → (m', r') ∈ file.kept.zip parsed.methods →
        m.isBridge = true → m'.isBridge = false →
        (r.name, Descriptor.identifying r.descriptor) ≠
          (r'.name, Descriptor.identifying r'.descriptor) := by
  obtain ⟨file, table, hbytes, htable, hrecords⟩ := exists_records_of_parseClass h
  have hrecorded {m : MemberEntry} (hm : m ∈ file.methods.entries)
      (hshadow : ¬ m.IsShadow file.pool file.methods.entries) :
      ∃ r, (m, r) ∈ file.kept.zip parsed.methods :=
    exists_mem_zip hrecords (List.mem_filter.mpr ⟨hm, decide_eq_true hshadow⟩)
  refine ⟨file, table, hbytes, ?_, htable, hrecords, ?_, ?_, ?_⟩
  · intro file' hbytes'
    exact ClassEntries.eq_of_prefix hbytes' hbytes
  · intro m hm hplain
    apply hrecorded hm
    rintro ⟨hbridge, -⟩
    rw [hplain] at hbridge
    cases hbridge
  · intro m hm hown
    apply hrecorded hm
    rintro ⟨-, m', hm', hplain, hkey⟩
    exact hown m' hm' hplain hkey
  · intro m r m' r' hmr hmr' hbridge hplain hsame
    have hkept := (List.mem_filter.mp (List.of_mem_zip hmr).1).2
    have hm' := (List.mem_filter.mp (List.of_mem_zip hmr').1).1
    apply of_decide_eq_true hkept
    refine ⟨hbridge, m', hm', hplain, ?_⟩
    rw [(List.forall₂_zip hrecords hmr).key, (List.forall₂_zip hrecords hmr').key, hsame]

/-- A class that reads its item by a more special type and writes it by a more general one, each
with a bridge, of which the first stands in front of its method. -/
def bridgedBox : ClassSpec where
  name := "a/Box"
  methods := [
    { name := "get"
      descriptor := "()Ljava/lang/Object;"
      accessFlags := 0x1041
      body := some [.invoke .virtual ⟨"a/Box", "get", "()La/Item;"⟩] },
    { name := "get"
      descriptor := "()La/Item;"
      body := some [
        .invoke .static ⟨"a/Log", "hit", "()V"⟩,
        .invoke .static ⟨"a/Store", "load", "(I)La/Item;"⟩,
        .invoke .static ⟨"a/Log", "hit", "()I"⟩] },
    { name := "put"
      descriptor := "(La/Item;)V" },
    { name := "put"
      descriptor := "(Ljava/lang/Object;)V"
      accessFlags := 0x1041
      body := some [.invoke .virtual ⟨"a/Box", "put", "(La/Item;)V"⟩] }]

theorem parseClass_keeps_bridged_bridgedBox :
    ∃ parsed, parseClass bridgedBox.toBytes none = .ok parsed ∧
      (parsed.methods.map fun r => (r.name ++ r.descriptor, r.callees.map (·.signature))) =
        [("get()La/Item;", ["a/Log#hit()", "a/Store#load(I)"]), ("put(La/Item;)V", []),
          ("put(Ljava/lang/Object;)V", ["a/Box#put(La/Item;)"])] ∧
      ∃ (file : ClassEntries) (table : BootstrapTable), file.bytes <+: bridgedBox.toBytes ∧
        (∀ file' : ClassEntries, file'.bytes <+: bridgedBox.toBytes → file' = file) ∧
        List.Forall₂ (file.Records table none) file.kept parsed.methods := by
  have hread : (parseClass bridgedBox.toBytes none).toOption.map (fun parsed =>
      parsed.methods.map fun r => (r.name ++ r.descriptor, r.callees.map (·.signature))) =
        some [("get()La/Item;", ["a/Log#hit()", "a/Store#load(I)"]), ("put(La/Item;)V", []),
          ("put(Ljava/lang/Object;)V", ["a/Box#put(La/Item;)"])] := by
    decide +kernel
  cases hparsed : parseClass bridgedBox.toBytes none with
  | error fault =>
    rw [hparsed] at hread
    cases hread
  | ok parsed =>
    rw [hparsed] at hread
    obtain ⟨file, table, hbytes, hunique, -, hrecords, -⟩ :=
      parseClass_keeps_bridged _ _ _ hparsed
    exact ⟨parsed, rfl, Option.some.inj hread, file, table, hbytes, hunique, hrecords⟩

end CallForest.ClassFile
