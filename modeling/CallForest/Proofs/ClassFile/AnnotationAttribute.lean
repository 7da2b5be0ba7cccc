import CallForest.Proofs.ClassFile.Annotations
import CallForest.Proofs.ClassFile.Interning

/-!
# Annotations amid other requests

The pool that an annotation attribute is written with is shared with everything else in the class
file. Some of the texts may be there before, so that they are not put in again, and the pool grows
on after the attribute is done. It is read with the pool as it is in the end.

The length of the attribute stands in a word of four bytes, and a body that is not too long for them
has its size there. The reader of a class file divides the file by it, but the annotations are read
back from their body however long that is.

## Main definitions

* `emitAmid` — the attribute, written between two runs of requests.

## Main results

* `reads_emitAmid` — the annotations are read back from its body, with the finished pool.
-/

namespace CallForest.ClassFile

open Build Decoder

/-- Writes an annotation attribute between two runs of requests to the pool. -/
def emitAmid (before : List PoolRequest) (annotations : List AnnotationUse)
    (after : List PoolRequest) : Build (List UInt8) := do
  let _ ← performAll before
  let bytes ← emitAnnotations annotations
  let _ ← performAll after
  return bytes

theorem emitAmid_run (before : List PoolRequest) (annotations : List AnnotationUse)
    (after : List PoolRequest) : emitAmid before annotations after {} =
      ((emitAnnotations annotations (performAll before {}).2).1,
        (performAll after (emitAnnotations annotations (performAll before {}).2).2).2) :=
  rfl

/-- Annotations whose texts and counts fit, and of which none is too deep, survive. With the pool as
it is read back in the end, the body of their attribute is read as the same annotations and used
up. In front of it stand the name of the attribute and the length of the body, which is read as such
whenever it fits in four bytes. -/
theorem reads_emitAmid {before after : List PoolRequest} {annotations : List AnnotationUse}
    {bytes : List UInt8} {q : PoolBuilder} (hbefore : ∀ r ∈ before, r.Fits)
    (hafter : ∀ r ∈ after, r.Fits) (hcount : Word.Fits 2 annotations.length)
    (hfit : ∀ a ∈ annotations, a.Fits)
    (hrun : emitAmid before annotations after {} = (bytes, q))
    (hsize : q.constants.length ≤ 65534) :
    ∃ pool index body, Reads ConstantPool.read q.encode pool ∧
      bytes = Word.encode 2 index ++ Word.encode 4 body.length ++ body ∧
      Reads (readText pool) (Word.encode 2 index) visibleAnnotations ∧
      (Word.Fits 4 body.length → Reads u32 (Word.encode 4 body.length) body.length) ∧
      body.length = annotationsSize annotations ∧
      Reads (readAnnotations pool) body annotations := by
  rw [emitAmid_run] at hrun
  obtain ⟨rfl, rfl⟩ := Prod.mk.inj hrun
  clear hrun
  have hfirst := performAll_spec (p := {}) hbefore hsize
  have hlast := performAll_spec hafter hsize (le_refl _)
  generalize (performAll before {}).2 = p at *
  have hlater := le_performAll after (emitAnnotations annotations p).2
  generalize (performAll after (emitAnnotations annotations p).2).2 = q at *
  have hyields : Yields q p _ (emitAnnotations annotations) _ :=
    Yields.framed (by decide) (Yields.annotationBody q p annotations)
  obtain ⟨hadds, i, body, hbytes, hi, hlength, hreads⟩ :=
    hyields.holds ⟨hcount, hfit⟩ hsize hlater
  refine ⟨q.pool, i, body, ?_, hbytes, hi.reads, Reads.word, hlength, hreads⟩
  refine PoolBuilder.reads_encode (fun c hc => ?_) hsize
  rcases hlast.1 c hc with hc | hfits
  · rcases hadds.constants c hc with hc | hfits
    · exact ((hfirst (le_trans hyields.grows hlater)).1 c hc).resolve_left List.not_mem_nil
    · exact hfits
  · exact hfits

/-- Arrays of annotations in each other. -/
def nestedParts : Nat → ElementValue
  | 0 => .array [.const "leaf", .classLiteral "Lshop/Part;"]
  | n + 1 => .array [.nested "Lshop/Part;" [("parts", nestedParts n)], .enum "Lshop/Kind;" "LEAF"]

theorem size_nestedParts (n : Nat) : (nestedParts n).size = 9 + 15 * n := by
  induction n with
  | zero => rfl
  | succ n ih =>
    simp only [nestedParts, ElementValue.size, ElementValue.sizeAll, ElementValue.sizeNamed, ih]
    omega

/-- Annotations of which the innermost is just not too deep: it stands in 32 arrays and 32
annotations. -/
def deepAnnotations : List AnnotationUse :=
  [⟨"Lshop/Whole;", [("name", .const "parts"), ("parts", nestedParts 32)]⟩, ⟨"Lshop/Audited;", []⟩]

/-- These annotations, of whose texts some are in the pool before and some are asked for again. -/
def deepRun : List UInt8 × PoolBuilder :=
  emitAmid [.utf8 "parts", .classRef "shop/Part"] deepAnnotations
    [.string "leaf", .methodType "()V"] {}

theorem reads_emitAmid_deepAnnotations :
    (∀ a ∈ deepAnnotations, a.Fits) ∧ deepRun.2.constants.length ≤ 65534 ∧
    ∃ pool index body, Reads ConstantPool.read deepRun.2.encode pool ∧
      deepRun.1 = Word.encode 2 index ++ Word.encode 4 body.length ++ body ∧
      Reads (readText pool) (Word.encode 2 index) visibleAnnotations ∧
      Reads u32 (Word.encode 4 body.length) body.length ∧
      body.length = annotationsSize deepAnnotations ∧
      Reads (readAnnotations pool) body deepAnnotations := by
  have hfit : ∀ a ∈ deepAnnotations, a.Fits := by decide +kernel
  have hsize : deepRun.2.constants.length ≤ 65534 := by decide +kernel
  have hrun : emitAmid [.utf8 "parts", .classRef "shop/Part"] deepAnnotations
      [.string "leaf", .methodType "()V"] {} = (deepRun.1, deepRun.2) :=
    (Prod.eta deepRun).symm
  obtain ⟨pool, index, body, hpool, hbytes, hname, hword, hlength, hreads⟩ :=
    reads_emitAmid (by decide +kernel) (by decide +kernel) (by decide) hfit hrun hsize
  have hsmall : Word.Fits 4 body.length := by
    rw [hlength, annotationsSize, deepAnnotations]
    simp only [usesSize, AnnotationUse.size, ElementValue.sizeNamed, size_nestedParts]
    decide
  exact ⟨hfit, hsize, pool, index, body, hpool, hbytes, hname, hword hsmall, hlength, hreads⟩

end CallForest.ClassFile
