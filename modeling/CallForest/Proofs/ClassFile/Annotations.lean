import CallForest.ClassFile.Emission
import CallForest.Proofs.ClassFile.Building

/-!
# Annotations survive writing and reading

Annotations are written while the pool is being built and read with the finished pool. The reader
counts how deep an annotation stands, every enclosing annotation and every enclosing array being one
level, and gives up beyond a fixed depth. It also carries fuel, of which the length of what is
written is always enough.

## Main definitions

* `ElementValue.size`, `AnnotationUse.size` — the number of bytes that are written;
* `ElementValue.Fits`, `AnnotationUse.Fits` — what can be written in full and is not too deep;
* `AttributeOf` — the bytes of an attribute of a given name.

## Main results

* `Build.Yields.element` — the value of an element is read back;
* `Build.Yields.annotationUse` — so is an annotation;
* `Build.Yields.framed` — an attribute is written with its name and length;
* `Build.Yields.annotationBody` — the body of an annotation attribute is read back;
* `Build.Yields.annotations` — so is the attribute, if its length fits.
-/

namespace CallForest

open ClassFile

/-! ### Sizes -/

namespace ElementValue

mutual

/-- The number of bytes of a value: a tag, and two for each index and count. -/
def size : ElementValue → Nat
  | .const _ | .classLiteral _ => 3
  | .enum _ _ => 5
  | .nested _ elements => 5 + sizeNamed elements
  | .array values => 3 + sizeAll values

/-- The number of bytes of named elements. -/
def sizeNamed : List (String × ElementValue) → Nat
  | [] => 0
  | (_, value) :: rest => 2 + size value + sizeNamed rest

/-- The number of bytes of several values. -/
def sizeAll : List ElementValue → Nat
  | [] => 0
  | value :: rest => size value + sizeAll rest

end

theorem size_pos (value : ElementValue) : 0 < value.size := by
  cases value <;> simp only [size] <;> omega

/-! ### Values that can be written in full -/

mutual

/-- The value stands at a depth, its texts and counts fit their words, and no annotation in it is
too deep. -/
def Fits (depth : Nat) : ElementValue → Prop
  | .const text => TextFits text
  | .enum type name => TextFits type ∧ TextFits name
  | .classLiteral descriptor => TextFits descriptor
  | .nested type elements => depth + 1 ≤ maxNesting ∧ TextFits type ∧
      Word.Fits 2 elements.length ∧ FitNamed (depth + 1) elements
  | .array values => Word.Fits 2 values.length ∧ FitAll (depth + 1) values

/-- All names and values fit. -/
def FitNamed (depth : Nat) : List (String × ElementValue) → Prop
  | [] => True
  | (name, value) :: rest => TextFits name ∧ Fits depth value ∧ FitNamed depth rest

/-- All values fit. -/
def FitAll (depth : Nat) : List ElementValue → Prop
  | [] => True
  | value :: rest => Fits depth value ∧ FitAll depth rest

end

mutual

/-- Whether a value fits can be computed. -/
def decideFits : (depth : Nat) → (value : ElementValue) → Decidable (value.Fits depth)
  | _, .const text => inferInstanceAs (Decidable (TextFits text))
  | _, .enum type name => inferInstanceAs (Decidable (TextFits type ∧ TextFits name))
  | _, .classLiteral descriptor => inferInstanceAs (Decidable (TextFits descriptor))
  | depth, .nested type elements =>
    have := decideFitNamed (depth + 1) elements
    inferInstanceAs (Decidable (depth + 1 ≤ maxNesting ∧ TextFits type ∧
      Word.Fits 2 elements.length ∧ FitNamed (depth + 1) elements))
  | depth, .array values =>
    have := decideFitAll (depth + 1) values
    inferInstanceAs (Decidable (Word.Fits 2 values.length ∧ FitAll (depth + 1) values))

/-- Whether named elements fit can be computed. -/
def decideFitNamed : (depth : Nat) → (elements : List (String × ElementValue)) →
    Decidable (FitNamed depth elements)
  | _, [] => inferInstanceAs (Decidable True)
  | depth, (name, value) :: rest =>
    have := decideFits depth value
    have := decideFitNamed depth rest
    inferInstanceAs (Decidable (TextFits name ∧ Fits depth value ∧ FitNamed depth rest))

/-- Whether several values fit can be computed. -/
def decideFitAll : (depth : Nat) → (values : List ElementValue) → Decidable (FitAll depth values)
  | _, [] => inferInstanceAs (Decidable True)
  | depth, value :: rest =>
    have := decideFits depth value
    have := decideFitAll depth rest
    inferInstanceAs (Decidable (Fits depth value ∧ FitAll depth rest))

end

instance (depth : Nat) (elements : List (String × ElementValue)) :
    Decidable (FitNamed depth elements) :=
  decideFitNamed depth elements

end ElementValue

namespace AnnotationUse

/-- The number of bytes of an annotation. -/
def size (a : AnnotationUse) : Nat :=
  4 + ElementValue.sizeNamed a.elements

/-- The texts and counts of an annotation fit their words, and no annotation in it is too deep. -/
structure Fits (a : AnnotationUse) : Prop where
  type : TextFits a.type
  count : Word.Fits 2 a.elements.length
  elements : ElementValue.FitNamed 0 a.elements

instance (a : AnnotationUse) : Decidable a.Fits :=
  decidable_of_iff (TextFits a.type ∧ Word.Fits 2 a.elements.length ∧
      ElementValue.FitNamed 0 a.elements)
    ⟨fun h => ⟨h.1, h.2.1, h.2.2⟩, fun h => ⟨h.type, h.count, h.elements⟩⟩

end AnnotationUse

namespace ClassFile

open Decoder

/-- The number of bytes of several annotations. -/
def usesSize : List AnnotationUse → Nat
  | [] => 0
  | a :: rest => a.size + usesSize rest

/-- The number of bytes of the body of an annotation attribute. -/
def annotationsSize (annotations : List AnnotationUse) : Nat :=
  2 + usesSize annotations

/-- Annotations that can be written as one attribute. -/
structure AnnotationsFit (annotations : List AnnotationUse) : Prop where
  count : Word.Fits 2 annotations.length
  each : ∀ a ∈ annotations, a.Fits
  size : Word.Fits 4 (annotationsSize annotations)

instance (annotations : List AnnotationUse) : Decidable (AnnotationsFit annotations) :=
  decidable_of_iff (Word.Fits 2 annotations.length ∧ (∀ a ∈ annotations, a.Fits) ∧
      Word.Fits 4 (annotationsSize annotations))
    ⟨fun h => ⟨h.1, h.2.1, h.2.2⟩, fun h => ⟨h.count, h.each, h.size⟩⟩

/-! ### Reading -/

variable {pool : ConstantPool} {α : Type}

/-- An annotation that is not too deep is read if its elements are. -/
theorem reads_annotationWith {element : Decoder ElementValue} {depth i : Nat} {a : AnnotationUse}
    {bytes : List UInt8} (hdepth : depth ≤ maxNesting) (htype : Finds pool.utf8 a.type i)
    (hcount : Word.Fits 2 a.elements.length)
    (helements : Reads (times (do
      let name ← readText pool
      return (name, ← element)) a.elements.length) bytes a.elements) :
    Reads (readAnnotationWith pool element depth)
      (Word.encode 2 i ++ (Word.encode 2 a.elements.length ++ bytes)) a := by
  unfold readAnnotationWith
  rw [if_neg (Nat.not_lt.mpr hdepth)]
  exact htype.reads.bind (Reads.counted hcount helements).bind_pure

/-- A text is its own text as a loadable constant. -/
theorem Finds.text {text : String} {i : Nat} (h : Finds pool.utf8 text i) (tag : Nat) :
    Finds (pool.text · tag) text i := by
  have hget := ConstantPool.utf8_eq_ok_iff.mp h.2
  exact ⟨h.1, by simp only [ConstantPool.text, hget]⟩

section Elements

variable {fuel depth i j : Nat} {bytes : List UInt8}

theorem reads_const {text : String} (htext : Finds pool.utf8 text i) :
    Reads (readElement pool (fuel + 1) depth) (0x73 :: Word.encode 2 i) (.const text) := by
  refine (Reads.tag 0x73).bind ?_
  rw [if_pos (by decide)]
  exact (htext.text _).reads.bind_pure

theorem reads_enum {type name : String} (htype : Finds pool.utf8 type i)
    (hname : Finds pool.utf8 name j) :
    Reads (readElement pool (fuel + 1) depth) (0x65 :: (Word.encode 2 i ++ Word.encode 2 j))
      (.enum type name) := by
  refine (Reads.tag 0x65).bind ?_
  rw [if_neg (by decide), if_pos (by decide)]
  exact htype.reads.bind hname.reads.bind_pure

theorem reads_classLiteral {descriptor : String} (hdescriptor : Finds pool.utf8 descriptor i) :
    Reads (readElement pool (fuel + 1) depth) (0x63 :: Word.encode 2 i)
      (.classLiteral descriptor) := by
  refine (Reads.tag 0x63).bind ?_
  rw [if_neg (by decide), if_neg (by decide), if_pos (by decide)]
  exact hdescriptor.reads.bind_pure

theorem reads_nested {a : AnnotationUse}
    (ha : Reads (readAnnotationWith pool (readElement pool fuel (depth + 1)) (depth + 1)) bytes a) :
    Reads (readElement pool (fuel + 1) depth) (0x40 :: bytes) (.nested a.type a.elements) := by
  refine (Reads.tag 0x40).bind ?_
  rw [if_neg (by decide), if_neg (by decide), if_neg (by decide), if_pos (by decide)]
  exact ha.bind_pure

theorem reads_array {values : List ElementValue}
    (hvalues : Reads (counted (readElement pool fuel (depth + 1))) bytes values) :
    Reads (readElement pool (fuel + 1) depth) (0x5b :: bytes) (.array values) := by
  refine (Reads.tag 0x5b).bind ?_
  rw [if_neg (by decide), if_neg (by decide), if_neg (by decide), if_neg (by decide),
    if_pos (by decide)]
  exact hvalues.bind_pure

end Elements

/-! ### Writing -/

/-- The bytes are those of an attribute of the given name, whose body has a property. -/
def AttributeOf (pool : ConstantPool) (name : String) (Q : List UInt8 → Prop)
    (bytes : List UInt8) : Prop :=
  ∃ i body, bytes = Word.encode 2 i ++ Word.encode 4 body.length ++ body ∧
    Finds pool.utf8 name i ∧ Word.Fits 4 body.length ∧ Q body

namespace Build.Yields

mutual

/-- The value of an element is read back with fuel for its size. -/
theorem element (q p : PoolBuilder) (depth : Nat) : ∀ value : ElementValue,
    Yields q p (value.Fits depth) (emitElement value) (fun bytes =>
      bytes.length = value.size ∧
        ∀ fuel, value.size ≤ fuel + 1 → Reads (readElement q.pool (fuel + 1) depth) bytes value)
  | .const text => by
    refine (utf8 id).bind fun i p₁ _ => Yields.pure ?_
    rintro ⟨-, hi⟩
    exact ⟨by simp [ElementValue.size], fun _ _ => reads_const hi⟩
  | .enum type name => by
    refine (utf8 And.left).bind fun i p₁ _ => (utf8 fun h => h.1.2).bind fun j p₂ _ =>
      Yields.pure ?_
    rintro ⟨⟨-, hi⟩, hj⟩
    exact ⟨by simp [ElementValue.size], fun _ _ => reads_enum hi hj⟩
  | .classLiteral descriptor => by
    refine (utf8 id).bind fun i p₁ _ => Yields.pure ?_
    rintro ⟨-, hi⟩
    exact ⟨by simp [ElementValue.size], fun _ _ => reads_classLiteral hi⟩
  | .nested type elements => by
    refine (utf8 fun h => h.2.1).bind fun i p₁ _ =>
      ((named q p₁ (depth + 1) elements).of_imp fun h => h.1.2.2.2).bind fun bytes p₂ _ =>
        Yields.pure ?_
    rintro ⟨⟨⟨hdepth, -, hcount, -⟩, hi⟩, hlength, hreads⟩
    refine ⟨by simp [ElementValue.size, hlength]; omega, ?_⟩
    intro fuel hfuel
    rw [ElementValue.size] at hfuel
    have ha := reads_annotationWith (a := ⟨type, elements⟩) hdepth hi hcount
      (hreads fuel (by omega))
    exact reads_nested ha
  | .array values => by
    refine ((several q p (depth + 1) values).of_imp And.right).bind fun bytes p₁ _ =>
      Yields.pure ?_
    rintro ⟨⟨hcount, -⟩, hlength, hreads⟩
    refine ⟨by simp [ElementValue.size, hlength]; omega, ?_⟩
    intro fuel hfuel
    rw [ElementValue.size] at hfuel
    exact reads_array (Reads.counted hcount (hreads fuel (by omega)))

/-- Named elements are read back one after the other. -/
theorem named (q p : PoolBuilder) (depth : Nat) : ∀ elements : List (String × ElementValue),
    Yields q p (ElementValue.FitNamed depth elements) (emitElements elements) (fun bytes =>
      bytes.length = ElementValue.sizeNamed elements ∧
        ∀ fuel, ElementValue.sizeNamed elements ≤ fuel →
          Reads (times (do
            let name ← readText q.pool
            return (name, ← readElement q.pool fuel depth)) elements.length) bytes elements)
  | [] => Yields.pure fun _ => ⟨rfl, fun _ _ => Reads.times_zero _⟩
  | (name, value) :: rest => by
    refine (utf8 And.left).bind fun i p₁ _ =>
      ((element q p₁ depth value).of_imp fun h => h.1.2.1).bind fun first p₂ _ =>
        ((named q p₂ depth rest).of_imp fun h => h.1.1.2.2).bind fun others p₃ _ =>
          Yields.pure ?_
    rintro ⟨⟨⟨-, hi⟩, hlength, hfirst⟩, hlength', hothers⟩
    refine ⟨by simp [ElementValue.sizeNamed, hlength, hlength']; omega, ?_⟩
    intro fuel hfuel
    rw [ElementValue.sizeNamed] at hfuel
    obtain ⟨k, rfl⟩ : ∃ k, fuel = k + 1 := ⟨fuel - 1, by omega⟩
    exact Reads.times_cons (hi.reads.bind (hfirst k (by omega)).bind_pure)
      (hothers (k + 1) (by omega))

/-- Values are read back one after the other. -/
theorem several (q p : PoolBuilder) (depth : Nat) : ∀ values : List ElementValue,
    Yields q p (ElementValue.FitAll depth values) (emitValues values) (fun bytes =>
      bytes.length = ElementValue.sizeAll values ∧
        ∀ fuel, ElementValue.sizeAll values ≤ fuel →
          Reads (times (readElement q.pool fuel depth) values.length) bytes values)
  | [] => Yields.pure fun _ => ⟨rfl, fun _ _ => Reads.times_zero _⟩
  | value :: rest => by
    refine ((element q p depth value).of_imp And.left).bind fun first p₁ _ =>
      ((several q p₁ depth rest).of_imp fun h => h.1.2).bind fun others p₂ _ =>
        Yields.pure ?_
    rintro ⟨⟨-, hlength, hfirst⟩, hlength', hothers⟩
    refine ⟨by simp [ElementValue.sizeAll, hlength, hlength'], ?_⟩
    intro fuel hfuel
    rw [ElementValue.sizeAll] at hfuel
    have hpos := value.size_pos
    obtain ⟨k, rfl⟩ : ∃ k, fuel = k + 1 := ⟨fuel - 1, by omega⟩
    exact Reads.times_cons (hfirst k (by omega)) (hothers (k + 1) (by omega))

end

/-- An annotation is read back with fuel for its size. -/
theorem annotationUse (q p : PoolBuilder) (a : AnnotationUse) :
    Yields q p a.Fits (emitAnnotationUse a) (fun bytes =>
      bytes.length = a.size ∧ ∀ fuel, a.size ≤ fuel →
        Reads (readAnnotationWith q.pool (readElement q.pool fuel 0) 0) bytes a) := by
  refine (utf8 AnnotationUse.Fits.type).bind fun i p₁ _ =>
    ((named q p₁ 0 a.elements).of_imp fun h => h.1.elements).bind fun bytes p₂ _ =>
      Yields.pure ?_
  rintro ⟨⟨ha, hi⟩, hlength, hreads⟩
  refine ⟨by simp [AnnotationUse.size, hlength]; omega, ?_⟩
  intro fuel hfuel
  rw [AnnotationUse.size] at hfuel
  rw [List.append_assoc]
  exact reads_annotationWith (Nat.zero_le _) hi ha.count (hreads fuel (by omega))

/-- Annotations are read back one after the other. -/
theorem uses (q p : PoolBuilder) (annotations : List AnnotationUse) :
    Yields q p (∀ a ∈ annotations, a.Fits) (emitAll annotations) (fun bytes =>
      bytes.length = usesSize annotations ∧
        ∀ fuel, usesSize annotations ≤ fuel →
          Reads (times (readAnnotationWith q.pool (readElement q.pool fuel 0) 0)
            annotations.length) bytes annotations) := by
  induction annotations generalizing p with
  | nil => exact Yields.pure fun _ => ⟨rfl, fun _ _ => Reads.times_zero _⟩
  | cons a rest ih =>
    refine ((annotationUse q p a).of_imp fun h => h a List.mem_cons_self).bind fun first p₁ _ =>
      ((ih p₁).of_imp fun h b hb => h.1 b (List.mem_cons_of_mem a hb)).bind fun others p₂ _ =>
        Yields.pure ?_
    rintro ⟨⟨-, hlength, hfirst⟩, hlength', hothers⟩
    refine ⟨by simp [usesSize, hlength, hlength'], ?_⟩
    intro fuel hfuel
    rw [usesSize] at hfuel
    exact Reads.times_cons (hfirst fuel (by omega)) (hothers fuel (by omega))

/-! ### Attributes -/

section Attributes

variable {q p : PoolBuilder} {given : Prop} {name : String} {body : Build (List UInt8)}
variable {Q : List UInt8 → Prop}

/-- An attribute is its name, the length of its body and the body. -/
theorem framed (hname : TextFits name) (hbody : Yields q p given body Q) :
    Yields q p given (emitAttribute name body) (fun bytes =>
      ∃ i body, bytes = Word.encode 2 i ++ Word.encode 4 body.length ++ body ∧
        Finds q.pool.utf8 name i ∧ Q body) := by
  refine hbody.bind fun bytes p₁ _ => (utf8 fun _ => hname).bind fun i p₂ _ => Yields.pure ?_
  rintro ⟨⟨-, hbytes⟩, hi⟩
  exact ⟨i, bytes, rfl, hi, hbytes⟩

theorem attributeOf (hname : TextFits name)
    (hbody : Yields q p given body fun bytes => Word.Fits 4 bytes.length ∧ Q bytes) :
    Yields q p given (emitAttribute name body) (AttributeOf q.pool name Q) :=
  framed hname hbody

end Attributes

/-- The body of an annotation attribute is read back, however long it is. -/
theorem annotationBody (q p : PoolBuilder) (annotations : List AnnotationUse) :
    Yields q p (Word.Fits 2 annotations.length ∧ ∀ a ∈ annotations, a.Fits)
      (do return Word.encode 2 annotations.length ++ (← emitAll annotations))
      (fun body => body.length = annotationsSize annotations ∧
        Reads (readAnnotations q.pool) body annotations) := by
  refine ((uses q p annotations).of_imp And.right).bind fun bytes p₁ _ => Yields.pure ?_
  rintro ⟨⟨hcount, -⟩, hlength, hreads⟩
  have hsize : (Word.encode 2 annotations.length ++ bytes).length =
      annotationsSize annotations := by
    simp [annotationsSize, hlength]
  refine ⟨hsize, ?_⟩
  -- The fuel is what remains to be read, which is at least the body itself.
  refine Reads.of_remaining
    (f := fun n => counted (readAnnotationWith q.pool (readElement q.pool (n + 1) 0) 0)) ?_
  intro n hn
  rw [hsize, annotationsSize] at hn
  exact Reads.counted hcount (hreads (n + 1) (by omega))

theorem annotations (q p : PoolBuilder) (annotations : List AnnotationUse) :
    Yields q p (AnnotationsFit annotations) (emitAnnotations annotations)
      (AttributeOf q.pool visibleAnnotations fun body =>
        Reads (readAnnotations q.pool) body annotations) := by
  have hbody := (annotationBody q p annotations).of_imp fun (h : AnnotationsFit annotations) =>
    ⟨h.count, h.each⟩
  refine attributeOf (by decide) (hbody.mono ?_)
  rintro hfit bytes ⟨hsize, hreads⟩
  exact ⟨hsize ▸ hfit.size, hreads⟩

end Build.Yields

end ClassFile

end CallForest
