import CallForest.Proofs.ClassFile.Annotations
import CallForest.Proofs.ClassFile.Layout

/-!
# How deep annotations are nested

A value of an annotation stands inside of annotations and arrays. The reader counts both, but it
looks at the number only where an annotation begins. So there is a limit to the place of the
innermost annotation around a value, and none to the number of arrays between that annotation and
the value: with enough arrays in each other, a value stands as deep as one likes.

Nothing else keeps the reader from going deeper. It carries fuel, which is what there is left to
read, and more fuel than that changes nothing.

## Main definitions

* `AnnotationUse.StandsAt` — inside of how many annotations and arrays a value stands;
* `ElementValue.Limited` — no annotation in a value is too deep;
* `Decoder.Gives` — every value of a decoder has a property;
* `Decoder.AgreeBelow` — two decoders agree when few bytes are left.

## Main results

* `gives_element`, `AnnotationUse.StandsAt.le` — the limit to annotations;
* `reads_deepBody` — arrays have no limit;
* `readElement_agreeBelow` — enough fuel;
* `annotation_nesting_exact` — all depths that occur.
-/

namespace CallForest

open ClassFile

/-- The value stands in the annotation, inside of `depth` annotations and arrays in all. The
innermost `arrays` of them are arrays, and the one around these is an annotation. -/
inductive AnnotationUse.StandsAt (a : AnnotationUse) : (depth arrays : Nat) → ElementValue → Prop
  | element {name : String} {value : ElementValue} (hvalue : (name, value) ∈ a.elements) :
    StandsAt a 1 0 value
  | nested {depth arrays : Nat} {type name : String} {elements : List (String × ElementValue)}
    {value : ElementValue} (h : StandsAt a depth arrays (.nested type elements))
    (hvalue : (name, value) ∈ elements) : StandsAt a (depth + 1) 0 value
  | array {depth arrays : Nat} {values : List ElementValue} {value : ElementValue}
    (h : StandsAt a depth arrays (.array values)) (hvalue : value ∈ values) :
    StandsAt a (depth + 1) (arrays + 1) value

/-- No annotation in the value is too deep, if the value is one of an annotation of the depth. -/
inductive ElementValue.Limited : (depth : Nat) → ElementValue → Prop
  | const {depth : Nat} {text : String} : Limited depth (.const text)
  | enum {depth : Nat} {type name : String} : Limited depth (.enum type name)
  | classLiteral {depth : Nat} {descriptor : String} : Limited depth (.classLiteral descriptor)
  | nested {depth : Nat} {type : String} {elements : List (String × ElementValue)}
    (hdepth : depth + 1 ≤ maxNesting) (h : ∀ e ∈ elements, Limited (depth + 1) e.2) :
    Limited depth (.nested type elements)
  | array {depth : Nat} {values : List ElementValue} (h : ∀ v ∈ values, Limited (depth + 1) v) :
    Limited depth (.array values)

/-- Only the arrays directly around a value are not limited. -/
theorem AnnotationUse.StandsAt.le {a : AnnotationUse} {depth arrays : Nat} {value : ElementValue}
    (h : a.StandsAt depth arrays value) (ha : ∀ e ∈ a.elements, e.2.Limited 0) :
    depth ≤ maxNesting + 1 + arrays ∧ ∃ outer, depth = outer + 1 ∧ value.Limited outer := by
  induction h with
  | element hvalue => exact ⟨by omega, 0, rfl, ha _ hvalue⟩
  | nested _ hvalue ih =>
    obtain ⟨-, outer, rfl, hlimited⟩ := ih
    cases hlimited with
    | nested hdepth helements => exact ⟨by omega, outer + 1, rfl, helements _ hvalue⟩
  | array _ hvalue ih =>
    obtain ⟨hle, outer, rfl, hlimited⟩ := ih
    cases hlimited with
    | array hvalues => exact ⟨by omega, outer + 1, rfl, hvalues _ hvalue⟩

theorem AnnotationUse.StandsAt.arrays_lt {a : AnnotationUse} {depth arrays : Nat}
    {value : ElementValue} (h : a.StandsAt depth arrays value) : arrays < depth := by
  induction h with
  | element | nested => exact Nat.succ_pos _
  | array _ _ ih => exact Nat.succ_lt_succ ih

namespace ClassFile

open Decoder

/-! ### Annotations are not too deep -/

namespace Decoder

variable {α β : Type}

/-- Every value that the decoder gives has the property. -/
def Gives (d : Decoder α) (P : α → Prop) : Prop :=
  ∀ c a c', d c = .ok a c' → P a

namespace Gives

variable {d : Decoder α} {f : α → Decoder β} {P : α → Prop} {Q : β → Prop}

theorem trivial (d : Decoder α) : Gives d fun _ => True :=
  fun _ _ _ _ => True.intro

protected theorem pure {a : α} (h : P a) : Gives (pure a) P := by
  rintro c _ _ ⟨⟩
  exact h

theorem throw (fault : Fault) : Gives (throw fault : Decoder α) P := nofun

protected theorem bind (hd : Gives d P) (hf : ∀ a, P a → Gives (f a) Q) : Gives (d >>= f) Q := by
  intro c b c' hrun
  simp only [Bind.bind, EStateM.bind] at hrun
  cases hfirst : d c with
  | error fault c₁ =>
    rw [hfirst] at hrun
    cases hrun
  | ok a c₁ =>
    rw [hfirst] at hrun
    exact hf a (hd c a c₁ hfirst) c₁ b c' hrun

/-- A decoder of whose value nothing is known. -/
theorem andThen (hf : ∀ a, Gives (f a) Q) : Gives (d >>= f) Q :=
  (trivial d).bind fun a _ => hf a

theorem times (hd : Gives d P) (n : Nat) : Gives (Decoder.times d n) fun as => ∀ a ∈ as, P a := by
  induction n with
  | zero => exact .pure nofun
  | succ n ih =>
    refine hd.bind fun a ha => ih.bind fun as has => .pure ?_
    exact List.forall_mem_cons.mpr ⟨ha, has⟩

theorem counted (hd : Gives d P) : Gives (Decoder.counted d) fun as => ∀ a ∈ as, P a :=
  andThen fun n => hd.times n

end Gives

end Decoder

variable (pool : ConstantPool)

theorem gives_annotationWith {element : Decoder ElementValue} {depth : Nat}
    (helement : Gives element (ElementValue.Limited depth)) :
    Gives (readAnnotationWith pool element depth) fun a =>
      depth ≤ maxNesting ∧ ∀ e ∈ a.elements, ElementValue.Limited depth e.2 := by
  unfold readAnnotationWith
  by_cases hdepth : maxNesting < depth
  · rw [if_pos hdepth]
    exact (Gives.throw (P := fun _ => False) _).bind fun _ h => h.elim
  · rw [if_neg hdepth]
    have hnamed : Gives (do
        let name ← readText pool
        return (name, ← element)) fun e => ElementValue.Limited depth e.2 :=
      Gives.andThen fun _ => helement.bind fun _ hvalue => .pure hvalue
    exact Gives.andThen fun _ => hnamed.counted.bind fun _ h => .pure ⟨Nat.not_lt.mp hdepth, h⟩

/-- The depth goes up with each annotation and array, and an annotation checks it. -/
theorem gives_element (fuel depth : Nat) :
    Gives (readElement pool fuel depth) (ElementValue.Limited depth) := by
  induction fuel generalizing depth with
  | zero => exact Gives.throw _
  | succ fuel ih =>
    refine Gives.andThen fun tag => ?_
    split_ifs with hconstant henum hliteral hnested harray
    · exact Gives.andThen fun _ => Gives.andThen fun _ => .pure .const
    · exact Gives.andThen fun _ => Gives.andThen fun _ => .pure .enum
    · exact Gives.andThen fun _ => .pure .classLiteral
    · exact (gives_annotationWith pool (ih (depth + 1))).bind fun _ h => .pure (.nested h.1 h.2)
    · exact (ih (depth + 1)).counted.bind fun _ h => .pure (.array h)
    · exact Gives.throw _

/-! ### Arrays in arrays -/

/-- A value inside of so many arrays. -/
def inArrays : Nat → ElementValue → ElementValue
  | 0, value => value
  | n + 1, value => .array [inArrays n value]

/-- The bytes of a value inside of arrays, made of the bytes of the value. -/
def inArraysBytes : Nat → List UInt8 → List UInt8
  | 0, bytes => bytes
  | n + 1, bytes => 0x5b :: (Word.encode 2 1 ++ inArraysBytes n bytes)

/-- An annotation with one element. -/
def singleUse (value : ElementValue) : AnnotationUse :=
  ⟨"v", [("v", value)]⟩

/-- The bytes of an annotation with one element. -/
def singleUseBytes (bytes : List UInt8) : List UInt8 :=
  Word.encode 2 1 ++ (Word.encode 2 1 ++ (Word.encode 2 1 ++ bytes))

/-- A value inside of so many annotations. -/
def inAnnotations : Nat → ElementValue → ElementValue
  | 0, value => value
  | n + 1, value => .nested "v" (singleUse (inAnnotations n value)).elements

/-- The bytes of a value inside of annotations. -/
def inAnnotationsBytes : Nat → List UInt8 → List UInt8
  | 0, bytes => bytes
  | n + 1, bytes => 0x40 :: singleUseBytes (inAnnotationsBytes n bytes)

/-- A pool with a single text. -/
def singleTextPool : ConstantPool :=
  ⟨#[.unusable, .utf8 "v"]⟩

section Deep

variable {pool : ConstantPool} {element : Decoder ElementValue} {value : ElementValue}
variable {bytes : List UInt8} {fuel depth n : Nat}

theorem Decoder.Reads.counted_one {α : Type} {d : Decoder α} {a : α} (h : Reads d bytes a) :
    Reads (Decoder.counted d) (Word.encode 2 1 ++ bytes) [a] :=
  (Reads.u16 (by decide)).bind h.times_one

/-- Arrays are read without regard to the depth. -/
theorem reads_inArrays (h : Reads (readElement pool fuel (depth + n)) bytes value) :
    Reads (readElement pool (fuel + n) depth) (inArraysBytes n bytes) (inArrays n value) := by
  induction n generalizing depth with
  | zero => exact h
  | succ n ih =>
    rw [← Nat.succ_add_eq_add_succ] at h
    exact reads_array (ih h).counted_one

theorem finds_singleText : Finds singleTextPool.utf8 "v" 1 :=
  ⟨by decide, rfl⟩

theorem reads_singleUse (hdepth : depth ≤ maxNesting) (h : Reads element bytes value) :
    Reads (readAnnotationWith singleTextPool element depth) (singleUseBytes bytes)
      (singleUse value) :=
  reads_annotationWith (a := singleUse value) hdepth finds_singleText
    (Word.fits_two.mpr (by simp [singleUse]))
    (Reads.times_one (finds_singleText.reads.bind h.bind_pure))

/-- Annotations are read up to the limit. -/
theorem reads_inAnnotations (hdepth : depth + n ≤ maxNesting)
    (h : Reads (readElement singleTextPool fuel (depth + n)) bytes value) :
    Reads (readElement singleTextPool (fuel + n) depth) (inAnnotationsBytes n bytes)
      (inAnnotations n value) := by
  induction n generalizing depth with
  | zero => exact h
  | succ n ih =>
    rw [← Nat.succ_add_eq_add_succ] at h hdepth
    have houter : depth + 1 ≤ maxNesting := by omega
    exact reads_nested (reads_singleUse houter (ih hdepth h))

theorem length_inArraysBytes (n : Nat) (bytes : List UInt8) :
    (inArraysBytes n bytes).length = 3 * n + bytes.length := by
  induction n with
  | zero => simp [inArraysBytes]
  | succ n ih =>
    simp only [inArraysBytes, List.length_cons, List.length_append, Word.length_encode, ih]
    omega

theorem length_inAnnotationsBytes (n : Nat) (bytes : List UInt8) :
    (inAnnotationsBytes n bytes).length = 7 * n + bytes.length := by
  induction n with
  | zero => simp [inAnnotationsBytes]
  | succ n ih =>
    simp only [inAnnotationsBytes, singleUseBytes, List.length_cons, List.length_append,
      Word.length_encode, ih]
    omega

end Deep

/-- A text inside of arrays, and these inside of annotations. -/
def deepUse (annotations arrays : Nat) : AnnotationUse :=
  singleUse (inAnnotations annotations (inArrays arrays (.const "v")))

/-- The body of an attribute with this annotation. -/
def deepBody (annotations arrays : Nat) : List UInt8 :=
  Word.encode 2 1 ++ singleUseBytes
    (inAnnotationsBytes annotations (inArraysBytes arrays (0x73 :: Word.encode 2 1)))

theorem reads_deepBody {annotations : Nat} (hannotations : annotations ≤ maxNesting)
    (arrays : Nat) : Reads (readAnnotations singleTextPool) (deepBody annotations arrays)
      [deepUse annotations arrays] := by
  refine Reads.of_remaining (f := fun n =>
    counted (readAnnotationWith singleTextPool (readElement singleTextPool (n + 1) 0) 0)) ?_
  intro n hn
  -- Each level takes bytes of its own, so there is fuel for all of them.
  simp only [deepBody, singleUseBytes, List.length_append, length_inAnnotationsBytes,
    length_inArraysBytes, Word.length_encode] at hn
  obtain ⟨fuel, rfl⟩ : ∃ fuel, n = fuel + arrays + annotations :=
    ⟨n - arrays - annotations, by omega⟩
  have hconst : Reads (readElement singleTextPool (fuel + 1) (0 + annotations + arrays))
      (0x73 :: Word.encode 2 1) (.const "v") := reads_const finds_singleText
  have helement := reads_inAnnotations (by omega) (reads_inArrays hconst)
  rw [Nat.add_right_comm fuel 1, Nat.add_right_comm (fuel + arrays) 1] at helement
  exact (reads_singleUse (Nat.zero_le _) helement).counted_one

theorem standsAt_inArrays {a : AnnotationUse} {depth arrays : Nat} {value : ElementValue} {n : Nat}
    (h : a.StandsAt depth arrays (inArrays n value)) :
    a.StandsAt (depth + n) (arrays + n) value := by
  induction n generalizing depth arrays with
  | zero => exact h
  | succ n ih =>
    rw [← Nat.succ_add_eq_add_succ, ← Nat.succ_add_eq_add_succ]
    exact ih (h.array List.mem_cons_self)

theorem standsAt_inAnnotations {a : AnnotationUse} {depth : Nat} {value : ElementValue} {n : Nat}
    (h : a.StandsAt depth 0 (inAnnotations n value)) : a.StandsAt (depth + n) 0 value := by
  induction n generalizing depth with
  | zero => exact h
  | succ n ih =>
    rw [← Nat.succ_add_eq_add_succ]
    exact ih (h.nested List.mem_cons_self)

theorem standsAt_deepUse (annotations arrays : Nat) :
    (deepUse annotations arrays).StandsAt (1 + annotations + arrays) arrays (.const "v") := by
  have hfirst : (deepUse annotations arrays).StandsAt 1 0 _ := .element List.mem_cons_self
  have harrays := standsAt_inArrays (standsAt_inAnnotations hfirst)
  rwa [Nat.zero_add] at harrays

/-! ### Fuel -/

namespace Decoder

variable {α β : Type}

/-- The two decoders agree whenever fewer than `n` bytes are left. -/
def AgreeBelow (n : Nat) (d d' : Decoder α) : Prop :=
  ∀ c : Cursor, c.after.length < n → d c = d' c

/-- A settled decoder leaves no more bytes than it found. -/
theorem Settled.length_after_le {d : Decoder α} (h : Settled d) {c c' : Cursor} {a : α}
    (hrun : d c = .ok a c') : c'.after.length ≤ c.after.length := by
  obtain ⟨bytes, rest, hafter, rfl, -⟩ := Consumes.of_settled h c.before c.after a c' hrun
  rw [hafter, List.length_append]
  exact Nat.le_add_left _ _

namespace AgreeBelow

variable {d d' : Decoder α} {f f' : α → Decoder β} {n : Nat}

protected theorem refl (d : Decoder α) : AgreeBelow n d d :=
  fun _ _ => rfl

protected theorem bind (hsettled : Settled d) (hd : AgreeBelow n d d')
    (hf : ∀ a, AgreeBelow n (f a) (f' a)) : AgreeBelow n (d >>= f) (d' >>= f') := by
  intro c hc
  simp only [Bind.bind, EStateM.bind, ← hd c hc]
  cases hrun : d c with
  | error fault c' => rfl
  | ok a c' => exact hf a c' (Nat.lt_of_le_of_lt (hsettled.length_after_le hrun) hc)

theorem times (hsettled : Settled d) (hd : AgreeBelow n d d') (k : Nat) :
    AgreeBelow n (Decoder.times d k) (Decoder.times d' k) := by
  induction k with
  | zero => exact .refl _
  | succ k ih =>
    exact .bind hsettled hd fun _ => .bind (closed_settled.times hsettled k) ih fun _ => .refl _

theorem counted (hsettled : Settled d) (hd : AgreeBelow n d d') :
    AgreeBelow n (Decoder.counted d) (Decoder.counted d') :=
  .bind closed_settled.u16 (.refl _) fun k => hd.times hsettled k

/-- After a byte, one byte less is left. -/
theorem bind_u8 {f f' : Nat → Decoder β} (hf : ∀ a, AgreeBelow n (f a) (f' a)) :
    AgreeBelow (n + 1) (Decoder.u8 >>= f) (Decoder.u8 >>= f') := by
  intro c hc
  simp only [Bind.bind, EStateM.bind]
  cases hrun : Decoder.u8 c with
  | error fault c' => rfl
  | ok a c' =>
    obtain ⟨bytes, rest, hafter, rfl, hbytes, -⟩ := Consumes.word 1 c.before c.after a c' hrun
    rw [hafter, hbytes, List.length_append, Word.length_encode] at hc
    exact hf a _ (by simp only; omega)

end AgreeBelow

end Decoder

theorem annotationWith_agreeBelow {element element' : Decoder ElementValue} {n : Nat}
    (hsettled : Settled element) (h : AgreeBelow n element element') (depth : Nat) :
    AgreeBelow n (readAnnotationWith pool element depth)
      (readAnnotationWith pool element' depth) := by
  have hnamed : Settled (do
      let name ← readText pool
      return (name, ← element)) :=
    closed_settled.bind (closed_settled.readText pool) fun _ => closed_settled.bind_pure hsettled
  unfold readAnnotationWith
  split_ifs with hdeep
  · exact .refl _
  refine .bind (closed_settled.readText pool) (.refl _) fun _ =>
    .bind (closed_settled.counted hnamed) (.counted hnamed ?_) fun _ => .refl _
  exact .bind (closed_settled.readText pool) (.refl _) fun _ => .bind hsettled h fun _ => .refl _

/-- More fuel than bytes are left is never used. -/
theorem readElement_agreeBelow (fuel extra depth : Nat) :
    AgreeBelow fuel (readElement pool fuel depth) (readElement pool (fuel + extra) depth) := by
  induction fuel generalizing depth with
  | zero => exact fun c hc => absurd hc (Nat.not_lt_zero _)
  | succ fuel ih =>
    rw [Nat.succ_add]
    have hsettled := closed_settled.readElement pool fuel (depth + 1)
    refine .bind_u8 fun tag => ?_
    split_ifs with hconstant henum hliteral hnested harray
    · exact .refl _
    · exact .refl _
    · exact .refl _
    · exact .bind (closed_settled.readAnnotationWith pool hsettled _)
        (annotationWith_agreeBelow pool hsettled (ih (depth + 1)) _) fun _ => .refl _
    · exact .bind (closed_settled.counted hsettled) (.counted hsettled (ih (depth + 1)))
        fun _ => .refl _
    · exact .refl _

/-- The reader does not depend on how much fuel it carries. -/
theorem run_readAnnotations (c : Cursor) (extra : Nat) : (readAnnotations pool).run c =
    (counted (readAnnotationWith pool (readElement pool (c.after.length + 1 + extra) 0) 0)).run c :=
  AgreeBelow.counted
    (closed_settled.readAnnotationWith pool (closed_settled.readElement pool _ 0) 0)
    (annotationWith_agreeBelow pool (closed_settled.readElement pool _ 0)
      (readElement_agreeBelow pool (c.after.length + 1) extra 0) 0) c (Nat.lt_succ_self _)

/-! ### All depths -/

/-- Of all annotations that can be read, a value stands inside of `depth` annotations and arrays, of
which the innermost `arrays` are arrays, if and only if all but these arrays and the outermost
annotation are within the limit. No other limit is reached first: more fuel changes nothing. -/
theorem annotation_nesting_exact (depth arrays : Nat) :
    ((∃ pool c annotations c', (readAnnotations pool).run c = .ok annotations c' ∧
        ∃ a ∈ annotations, ∃ value, a.StandsAt depth arrays value) ↔
      arrays < depth ∧ depth ≤ maxNesting + 1 + arrays) ∧
    ∀ pool c extra, (readAnnotations pool).run c = (counted
      (readAnnotationWith pool (readElement pool (c.after.length + 1 + extra) 0) 0)).run c := by
  refine ⟨⟨?_, ?_⟩, run_readAnnotations⟩
  · rintro ⟨pool, c, annotations, c', hrun, a, ha, value, hvalue⟩
    have hgives := (gives_annotationWith pool (gives_element pool (c.after.length + 1) 0)).counted
    exact ⟨hvalue.arrays_lt, (hvalue.le (hgives c annotations c' hrun a ha).2).1⟩
  · rintro ⟨hlt, hle⟩
    obtain ⟨outer, rfl⟩ : ∃ outer, depth = 1 + outer + arrays := ⟨depth - arrays - 1, by omega⟩
    have houter : outer ≤ maxNesting := by omega
    have hreads := reads_deepBody houter arrays
    exact ⟨_, _, _, _, hreads [] [], _, List.mem_singleton_self _, _,
      standsAt_deepUse outer arrays⟩

/-- There is no bound to how deep a value of an annotation stands. -/
theorem annotation_nesting_unbounded : ¬ ∃ limit, ∀ pool body annotations,
    (readAnnotations pool).decode body = .ok annotations →
      ∀ a ∈ annotations, ∀ depth arrays value,
        AnnotationUse.StandsAt a depth arrays value → depth ≤ limit := by
  rintro ⟨limit, hlimit⟩
  have hread := (reads_deepBody (Nat.zero_le _) limit).decode_eq
  have hle := hlimit _ _ _ hread _ (List.mem_singleton_self _) _ _ _
    (standsAt_deepUse 0 limit)
  omega

end ClassFile

end CallForest
