import CallForest.Proofs.Descriptor
import Mathlib.Data.List.Induction

/-!
# The cut into parameter types

A text is read from the left as whole parameter types with the beginning of another one behind them.
The cut returns the whole types, and the beginning as its last piece if there is one, so nothing is
lost and only the last piece can be less than a type. What stands inside of a class name is never
looked at, so the cut fails exactly if a character beyond ASCII stands somewhere else. On texts that
are put together from types of the grammar, it gives these types back.

## Main definitions

* `Descriptor.IsType`, `Descriptor.Begins` — whole parameter types, and beginnings of one;
* `Descriptor.Step` — what a character does to the beginning of a type;
* `Descriptor.Reading` — a text as whole types with a beginning behind them;
* `Descriptor.Within` — what follows a text stands inside of a class name;
* `Descriptor.Between` — the text between the parentheses;
* `FieldType` — the types of the grammar.

## Main results

* `Descriptor.Begins.step` — every character does one of the three things it can do;
* `Descriptor.Reading.exists_of_pieces?` — the pieces are those of a reading;
* `Descriptor.pieces?_flatten` — types of the grammar are given back;
* `Descriptor.parameters?_exact` — all of this for descriptors.
-/

namespace CallForest

namespace Descriptor

/-! ### Types and beginnings of types -/

/-- A whole parameter type: brackets, and behind them one character or a class name from `L` to its
first `;`. -/
inductive IsType : List Char → Prop
  | letter (depth : Nat) {c : Char} (plain : c ≠ '[') (unnamed : c ≠ 'L') :
      IsType (List.replicate depth '[' ++ [c])
  | named (depth : Nat) {name : List Char} (whole : ';' ∉ name) :
      IsType (List.replicate depth '[' ++ 'L' :: (name ++ [';']))

/-- What a type begins with before it is whole: brackets, and behind them a class name without its
`;` if it is `named`. -/
inductive Begins : Bool → List Char → Prop
  | brackets (depth : Nat) : Begins false (List.replicate depth '[')
  | name (depth : Nat) {name : List Char} (whole : ';' ∉ name) :
      Begins true (List.replicate depth '[' ++ 'L' :: name)

theorem IsType.ne_nil {type : List Char} (h : IsType type) : type ≠ [] := by
  cases h <;> simp

namespace Begins

variable {start : List Char} {c : Char}

theorem bracket (h : Begins false start) : Begins false (start ++ ['[']) := by
  cases h with
  | brackets depth =>
    rw [← List.replicate_succ']
    exact brackets (depth + 1)

theorem opened (h : Begins false start) : Begins true (start ++ ['L']) := by
  cases h with
  | brackets depth => exact name depth List.not_mem_nil

theorem more (h : Begins true start) (hc : c ≠ ';') : Begins true (start ++ [c]) := by
  cases h with
  | @name depth text whole =>
    have hmore : ';' ∉ text ++ [c] := by
      rw [List.mem_append, List.mem_singleton]
      exact not_or.mpr ⟨whole, Ne.symm hc⟩
    rw [List.append_assoc, List.cons_append]
    exact name depth hmore

theorem letter (h : Begins false start) (hplain : c ≠ '[') (hunnamed : c ≠ 'L') :
    IsType (start ++ [c]) := by
  cases h with
  | brackets depth => exact .letter depth hplain hunnamed

theorem closed (h : Begins true start) : IsType (start ++ [';']) := by
  cases h with
  | @name depth text whole =>
    rw [List.append_assoc, List.cons_append]
    exact .named depth whole

end Begins

/-! ### One character more -/

/-- What a character does to the beginning of a type, and what becomes of the cut. -/
inductive Step (named : Bool) (rest : List Char) (c : Char) : Prop
  /-- The type goes on. -/
  | more (begins : Begins (namedAfter named c) (rest ++ [c]))
      (cut : ∀ text, pieces? rest.reverse named (c :: text) =
        pieces? (rest ++ [c]).reverse (namedAfter named c) text)
  /-- The type is whole. -/
  | last (type : IsType (rest ++ [c])) (ends : namedAfter named c = false)
      (cut : ∀ text, pieces? rest.reverse named (c :: text) =
        (pieces? [] false text).map ((rest ++ [c]) :: ·))
  /-- The type would be whole, but the character cannot be cut off. -/
  | stray (type : IsType (rest ++ [c])) (ends : namedAfter named c = false)
      (cut : ∀ text, pieces? rest.reverse named (c :: text) = none)

/-- Whatever comes next, the beginning of a type goes on, is whole or cannot be cut off. -/
theorem Begins.step {named : Bool} {rest : List Char} (h : Begins named rest) (c : Char) :
    Step named rest c := by
  have hread : (rest ++ [c]).reverse = c :: rest.reverse := List.reverse_concat
  have hback : (c :: rest.reverse).reverse = rest ++ [c] := by rw [← hread, List.reverse_reverse]
  cases named with
  | true =>
    by_cases hc : c = ';'
    · subst hc
      refine .last h.closed rfl fun text => ?_
      simp only [pieces?, if_true, hback]
    · have hnamed : namedAfter true c = true := by simpa [namedAfter] using hc
      refine .more (by rw [hnamed]; exact h.more hc) fun text => ?_
      simp only [pieces?, if_true, if_neg hc, hread, hnamed]
  | false =>
    by_cases hbracket : c = '['
    · subst hbracket
      refine .more h.bracket fun text => ?_
      simp only [pieces?, Bool.false_eq_true, if_false, if_true, hread]
      rfl
    by_cases hname : c = 'L'
    · subst hname
      refine .more h.opened fun text => ?_
      simp only [pieces?, Bool.false_eq_true, if_false, if_true, if_neg hbracket, hread]
      rfl
    have hends : namedAfter false c = false := by simpa [namedAfter] using hname
    by_cases hascii : c.toNat < 0x80
    · refine .last (h.letter hbracket hname) hends fun text => ?_
      simp only [pieces?, Bool.false_eq_true, if_false, if_neg hbracket, if_neg hname,
        if_pos hascii, hback]
    · refine .stray (h.letter hbracket hname) hends fun text => ?_
      simp only [pieces?, Bool.false_eq_true, if_false, if_neg hbracket, if_neg hname,
        if_neg hascii]

/-! ### Readings -/

/-- The text consists of whole types and of the beginning of a type behind them. -/
structure Reading (text : List Char) (types : List (List Char)) (named : Bool)
    (rest : List Char) : Prop where
  text_eq : text = types.flatten ++ rest
  whole : ∀ type ∈ types, IsType type
  begins : Begins named rest

/-- The types of a reading, with the beginning behind them as a piece of its own. -/
def piecesOf (types : List (List Char)) (rest : List Char) : List (List Char) :=
  types ++ if rest.isEmpty then [] else [rest]

namespace Reading

variable {text more rest : List Char} {types ps : List (List Char)} {named : Bool} {c : Char}

theorem nil : Reading [] [] false [] :=
  ⟨rfl, List.forall_mem_nil _, .brackets 0⟩

theorem goOn {named' : Bool} (h : Reading text types named rest)
    (hbegins : Begins named' (rest ++ [c])) :
    Reading (text ++ [c]) types named' (rest ++ [c]) where
  text_eq := by rw [h.text_eq, List.append_assoc]
  whole := h.whole
  begins := hbegins

theorem finish (h : Reading text types named rest) (htype : IsType (rest ++ [c])) :
    Reading (text ++ [c]) (types ++ [rest ++ [c]]) false [] where
  text_eq := by simp [h.text_eq]
  whole := by
    rw [List.forall_mem_append]
    exact ⟨h.whole, List.forall_mem_singleton.mpr htype⟩
  begins := .brackets 0

/-- Cutting loses no character. -/
theorem flatten_eq (h : Reading text types named rest) : (piecesOf types rest).flatten = text := by
  rw [h.text_eq]
  cases rest <;> simp [piecesOf]

/-- Every piece of a reading is a type or the beginning of one, and none is empty. -/
theorem isType_or_begins_of_mem (h : Reading text types named rest) :
    ∀ piece ∈ piecesOf types rest, piece ≠ [] ∧ (IsType piece ∨ Begins named piece) := by
  intro piece hmem
  rcases List.mem_append.mp hmem with htype | hrest
  · have hwhole := h.whole piece htype
    exact ⟨hwhole.ne_nil, .inl hwhole⟩
  · cases rest with
    | nil => cases hrest
    | cons c rest =>
      rw [List.mem_singleton.mp hrest]
      exact ⟨List.cons_ne_nil c rest, .inr h.begins⟩

/-- All pieces of a reading but the last one are whole. -/
theorem isType_of_mem_dropLast (h : Reading text types named rest) :
    ∀ piece ∈ (piecesOf types rest).dropLast, IsType piece := by
  intro piece hmem
  apply h.whole
  cases rest with
  | nil =>
    rw [piecesOf, List.isEmpty_nil, if_pos rfl, List.append_nil] at hmem
    exact List.dropLast_subset types hmem
  | cons c rest =>
    rwa [piecesOf, List.isEmpty_cons, if_neg Bool.false_ne_true, List.dropLast_concat] at hmem

/-- The cut goes on from any reading to a reading of the whole text. -/
theorem exists_of_pieces? (h : Reading text types named rest)
    (hps : pieces? rest.reverse named more = some ps) :
    ∃ types' named' rest', Reading (text ++ more) types' named' rest' ∧
      types ++ ps = piecesOf types' rest' := by
  -- The induction is on what is still to be read, and each step moves a character over.
  induction more generalizing text types named rest ps with
  | nil =>
    refine ⟨types, named, rest, by rwa [List.append_nil], ?_⟩
    rw [← Option.some.inj hps, piecesOf, List.isEmpty_reverse, List.reverse_reverse]
  | cons c more ih =>
    have hsplit : text ++ c :: more = text ++ [c] ++ more := by simp
    rw [hsplit]
    cases h.begins.step c with
    | more hbegins hcut => exact ih (h.goOn hbegins) (hcut more ▸ hps)
    | last htype _ hcut =>
      rw [hcut more] at hps
      obtain ⟨later, hlater, rfl⟩ := Option.map_eq_some_iff.mp hps
      obtain ⟨types', named', rest', hreading, heq⟩ := ih (h.finish htype) hlater
      refine ⟨types', named', rest', hreading, ?_⟩
      rw [← heq, List.append_assoc, List.singleton_append]
    | stray _ _ hcut =>
      rw [hcut more] at hps
      cases hps

end Reading

/-! ### Inside of class names -/

/-- What follows the text stands inside of a class name: an `L` begins a type in it, and there is no
`;` behind that `L`. -/
def Within (text : List Char) : Prop :=
  ∃ types rest, Reading text types true rest

theorem foldl_namedAfter_brackets (depth : Nat) :
    (List.replicate depth '[').foldl namedAfter false = false := by
  induction depth with
  | zero => rfl
  | succ depth ih => exact ih

theorem foldl_namedAfter_name {name : List Char} (hname : ';' ∉ name) :
    name.foldl namedAfter true = true := by
  induction name with
  | nil => rfl
  | cons c name ih =>
    rw [List.mem_cons, not_or] at hname
    have hc : namedAfter true c = true := by simpa [namedAfter] using Ne.symm hname.1
    rw [List.foldl_cons, hc, ih hname.2]

/-- A beginning of a type stands within a class name exactly if it says so. -/
theorem Begins.foldl_namedAfter {named : Bool} {rest : List Char} (h : Begins named rest) :
    rest.foldl namedAfter false = named := by
  cases h with
  | brackets depth => exact foldl_namedAfter_brackets depth
  | name depth hname =>
    rw [List.foldl_append, foldl_namedAfter_brackets]
    exact foldl_namedAfter_name hname

/-- A whole type leaves every class name that it enters. -/
theorem IsType.foldl_namedAfter {type : List Char} (h : IsType type) :
    type.foldl namedAfter false = false := by
  cases h with
  | letter depth _ hunnamed =>
    rw [List.foldl_append, foldl_namedAfter_brackets]
    simpa [namedAfter] using hunnamed
  | named depth hname =>
    have hopen : namedAfter false 'L' = true := rfl
    rw [List.foldl_append, foldl_namedAfter_brackets, List.foldl_cons, hopen, List.foldl_append,
      foldl_namedAfter_name hname]
    rfl

/-- Each type leaves its own class name again, so that only the beginning at the end counts. -/
theorem Reading.foldl_namedAfter {text rest : List Char} {types : List (List Char)} {named : Bool}
    (h : Reading text types named rest) : text.foldl namedAfter false = named := by
  have htypes : types.flatten.foldl namedAfter false = false := by
    have hwhole := h.whole
    -- The text is not that of the shorter lists.
    clear h
    induction types with
    | nil => rfl
    | cons type types ih =>
      rw [List.forall_mem_cons] at hwhole
      rw [List.flatten_cons, List.foldl_append, hwhole.1.foldl_namedAfter, ih hwhole.2]
  rw [h.text_eq, List.foldl_append, htypes, h.begins.foldl_namedAfter]

/-- Every text has a reading, also one that cannot be cut. -/
theorem exists_reading (text : List Char) :
    ∃ types rest, Reading text types (text.foldl namedAfter false) rest := by
  induction text using List.reverseRecOn with
  | nil => exact ⟨[], [], .nil⟩
  | append_singleton text c ih =>
    obtain ⟨types, rest, h⟩ := ih
    rw [List.foldl_append, List.foldl_cons, List.foldl_nil]
    cases h.begins.step c with
    | more hbegins _ => exact ⟨types, _, h.goOn hbegins⟩
    | last htype hends _ => exact ⟨_, [], hends ▸ h.finish htype⟩
    | stray htype hends _ => exact ⟨_, [], hends ▸ h.finish htype⟩

theorem within_iff {text : List Char} : Within text ↔ text.foldl namedAfter false = true := by
  constructor
  · intro h
    obtain ⟨types, rest, hreading⟩ := h
    exact hreading.foldl_namedAfter
  · intro h
    obtain ⟨types, rest, hreading⟩ := exists_reading text
    exact ⟨types, rest, h ▸ hreading⟩

/-! ### Between the parentheses -/

/-- The text stands between the parentheses of the part of a descriptor that counts for identity, or
it is empty and that part is not in parentheses. -/
def Between (descriptor text : String) : Prop :=
  identifying descriptor = "(" ++ text ++ ")" ∨
    text = "" ∧ ∀ other, identifying descriptor ≠ "(" ++ other ++ ")"

theorem identifyingChars_eq {cs : List Char} (hopen : cs.head? = some '(') (hclose : ')' ∈ cs) :
    identifyingChars cs = '(' :: (inner cs ++ [')']) := by
  rw [identifyingChars, if_pos ⟨hopen, hclose⟩]
  cases cs with
  | nil => cases hopen
  | cons c rest =>
    obtain rfl := Option.some.inj hopen
    have hrest : ')' ∈ rest := (List.mem_cons.mp hclose).resolve_left (by decide)
    simp [inner, hrest]

/-- Without both parentheses there is nothing between them. -/
theorem inner_eq_nil {cs : List Char} (h : ¬ (cs.head? = some '(' ∧ ')' ∈ cs)) : inner cs = [] := by
  unfold inner
  split
  case h_1 rest =>
    rw [if_neg]
    intro hrest
    exact h ⟨rfl, List.mem_cons_of_mem _ hrest⟩
  case h_2 => rfl

theorem toList_identifying (descriptor : String) :
    (identifying descriptor).toList = identifyingChars descriptor.toList :=
  String.toList_ofList

/-- There is exactly one text between the parentheses. -/
theorem between_iff {descriptor text : String} :
    Between descriptor text ↔ text.toList = inner descriptor.toList := by
  have hform (other : String) : identifying descriptor = "(" ++ other ++ ")" ↔
      identifyingChars descriptor.toList = '(' :: (other.toList ++ [')']) := by
    simp [← String.toList_inj, toList_identifying]
  by_cases h : descriptor.toList.head? = some '(' ∧ ')' ∈ descriptor.toList
  · have hinner (other : String) : identifying descriptor = "(" ++ other ++ ")" ↔
        other.toList = inner descriptor.toList := by
      rw [hform, identifyingChars_eq h.1 h.2, List.cons.injEq, List.append_left_inj]
      exact ⟨fun heq => heq.2.symm, fun heq => ⟨rfl, heq.symm⟩⟩
    have hsome : identifying descriptor = "(" ++ String.ofList (inner descriptor.toList) ++ ")" :=
      (hinner _).mpr String.toList_ofList
    rw [Between, hinner, or_iff_left]
    exact fun hnone => hnone.2 _ hsome
  · have hnone (other : String) : identifying descriptor ≠ "(" ++ other ++ ")" := by
      rw [Ne, hform, identifyingChars, if_neg h]
      intro heq
      apply h
      rw [heq]
      exact ⟨rfl, List.mem_cons_of_mem _ (List.mem_append_right _ List.mem_cons_self)⟩
    rw [Between, or_iff_right (hnone text), and_iff_left hnone, inner_eq_nil h,
      String.toList_eq_nil_iff]

theorem inner_enclosed {text : List Char} (htext : ')' ∉ text) (rest : List Char) :
    inner ('(' :: (text ++ ')' :: rest)) = text := by
  have hclose : ')' ∈ text ++ ')' :: rest := List.mem_append_right _ List.mem_cons_self
  have hkeep : ∀ c ∈ text, decide (c ≠ ')') = true := by
    intro c hc
    exact decide_eq_true (ne_of_mem_of_not_mem hc htext)
  rw [inner, if_pos hclose, List.takeWhile_append_of_pos hkeep]
  simp

end Descriptor

/-! ### Types of the grammar -/

/-- A primitive type. -/
inductive Primitive where
  | byte
  | char
  | double
  | float
  | int
  | long
  | short
  | boolean
deriving DecidableEq, Repr

/-- The letter of a primitive type. -/
def Primitive.letter : Primitive → Char
  | .byte => 'B'
  | .char => 'C'
  | .double => 'D'
  | .float => 'F'
  | .int => 'I'
  | .long => 'J'
  | .short => 'S'
  | .boolean => 'Z'

/-- The name of a class that can stand in a descriptor. -/
structure ClassName where
  text : String
  whole : ';' ∉ text.toList
  inside : ')' ∉ text.toList

/-- A type of the grammar. -/
inductive FieldType where
  | primitive (p : Primitive)
  | object (name : ClassName)
  | array (element : FieldType)

namespace FieldType

/-- How a type is written. -/
def text : FieldType → String
  | primitive p => String.singleton p.letter
  | object name => "L" ++ name.text ++ ";"
  | array element => "[" ++ element.text

/-- No type has the parenthesis that ends the parameters. -/
theorem parenthesis_not_mem (type : FieldType) : ')' ∉ type.text.toList := by
  induction type with
  | primitive p => cases p <;> simp [text, Primitive.letter]
  | object name => simpa [text] using name.inside
  | array element ih => simpa [text] using ih

end FieldType

namespace Descriptor

/-- A class name is passed over up to its `;`. -/
theorem pieces?_name {start name text : List Char} (hname : ';' ∉ name) :
    pieces? start true (name ++ ';' :: text) =
      (pieces? [] false text).map ((start.reverse ++ (name ++ [';'])) :: ·) := by
  induction name generalizing start with
  | nil => simp [pieces?]
  | cons c name ih =>
    rw [List.mem_cons, not_or] at hname
    rw [List.cons_append, pieces?, if_pos rfl, if_neg (Ne.symm hname.1), ih hname.2,
      List.reverse_cons, List.append_assoc, List.singleton_append, List.cons_append]

/-- A type of the grammar is cut off as a whole, whatever follows it. -/
theorem pieces?_text (type : FieldType) (start text : List Char) :
    pieces? start false (type.text.toList ++ text) =
      (pieces? [] false text).map ((start.reverse ++ type.text.toList) :: ·) := by
  induction type generalizing start with
  | primitive p => cases p <;> simp [FieldType.text, Primitive.letter, pieces?]
  | object name =>
    have hname : (FieldType.object name).text.toList = 'L' :: (name.text.toList ++ [';']) := by
      simp [FieldType.text]
    have hopen (more : List Char) :
        pieces? start false ('L' :: more) = pieces? ('L' :: start) true more := rfl
    rw [hname, List.cons_append, List.append_assoc, List.singleton_append, hopen,
      pieces?_name name.whole, List.reverse_cons, List.append_assoc, List.singleton_append]
  | array element ih =>
    have harray : (FieldType.array element).text.toList = '[' :: element.text.toList := by
      simp [FieldType.text]
    have hbracket (more : List Char) :
        pieces? start false ('[' :: more) = pieces? ('[' :: start) false more := rfl
    rw [harray, List.cons_append, hbracket, ih, List.reverse_cons, List.append_assoc,
      List.singleton_append]

/-- Types of the grammar are given back. -/
theorem pieces?_flatten (types : List FieldType) :
    pieces? [] false (types.map (·.text.toList)).flatten = some (types.map (·.text.toList)) := by
  induction types with
  | nil => rfl
  | cons type types ih =>
    rw [List.map_cons, List.flatten_cons, pieces?_text, ih]
    rfl

/-- The parameters of a descriptor are the types that it is written from. -/
theorem parameters?_enclosed (types : List FieldType) (result : String) :
    parameters? ("(" ++ String.join (types.map FieldType.text) ++ ")" ++ result) =
      some (types.map FieldType.text) := by
  have hclosed : ')' ∉ (types.map (·.text.toList)).flatten := by
    rw [List.mem_flatten]
    intro h
    obtain ⟨text, hmem, hclose⟩ := h
    obtain ⟨type, _, rfl⟩ := List.mem_map.mp hmem
    exact type.parenthesis_not_mem hclose
  have hsplit : ("(" ++ String.join (types.map FieldType.text) ++ ")" ++ result).toList =
      '(' :: ((types.map (·.text.toList)).flatten ++ ')' :: result.toList) := by
    simp [List.flatMap_def, Function.comp_def]
  rw [parameters?, hsplit, inner_enclosed hclosed, pieces?_flatten, Option.map_some, List.map_map]
  simp [Function.comp_def]

/-- The parameter types of a descriptor are the pieces of a reading of what is between its
parentheses. -/
theorem exists_reading_of_parameters? {descriptor : String} {parameters : List String}
    (h : parameters? descriptor = some parameters) : ∃ types named rest,
      Reading (inner descriptor.toList) types named rest ∧
        parameters.map String.toList = piecesOf types rest := by
  obtain ⟨pieces, hpieces, rfl⟩ := Option.map_eq_some_iff.mp h
  obtain ⟨types, named, rest, hreading, heq⟩ := Reading.nil.exists_of_pieces? hpieces
  refine ⟨types, named, rest, hreading, ?_⟩
  rw [List.map_map, ← heq]
  simp [Function.comp_def]

/-- Nothing between the parentheses is lost. -/
theorem join_parameters {descriptor : String} {parameters : List String}
    (h : parameters? descriptor = some parameters) :
    (String.join parameters).toList = inner descriptor.toList := by
  obtain ⟨types, named, rest, hreading, heq⟩ := exists_reading_of_parameters? h
  rw [String.toList_join, List.flatMap_def, heq, hreading.flatten_eq]

/-- The cut of every descriptor. If it can be made, the pieces are in order what stands between the
parentheses, none is empty, all but the last one are whole types, and the last one is a type or the
beginning of one. It can be made if and only if every character beyond ASCII stands inside of a
class name. Types of the grammar are given back, whatever the type of the result. -/
theorem parameters?_exact :
    (∀ descriptor parameters, parameters? descriptor = some parameters →
      Between descriptor (String.join parameters) ∧
      (∀ piece ∈ parameters, piece ≠ "") ∧
      (∀ piece ∈ parameters.dropLast, IsType piece.toList) ∧
      ∀ piece ∈ parameters, IsType piece.toList ∨ ∃ named, Begins named piece.toList) ∧
    (∀ descriptor text, Between descriptor text →
      ((parameters? descriptor).isSome = true ↔
        ∀ before c after, text.toList = before ++ c :: after → 0x80 ≤ c.toNat → Within before)) ∧
    ∀ (types : List FieldType) (result : String),
      parameters? ("(" ++ String.join (types.map FieldType.text) ++ ")" ++ result) =
        some (types.map FieldType.text) := by
  refine ⟨?_, ?_, parameters?_enclosed⟩
  · intro descriptor parameters h
    obtain ⟨types, named, rest, hreading, heq⟩ := exists_reading_of_parameters? h
    have hpiece {piece : String} (hmem : piece ∈ parameters) :
        piece.toList ≠ [] ∧ (IsType piece.toList ∨ Begins named piece.toList) :=
      hreading.isType_or_begins_of_mem _ (heq ▸ List.mem_map_of_mem hmem)
    refine ⟨between_iff.mpr (join_parameters h), ?_, ?_, ?_⟩
    · intro piece hmem hempty
      exact (hpiece hmem).1 (String.toList_eq_nil_iff.mpr hempty)
    · intro piece hmem
      apply hreading.isType_of_mem_dropLast
      rw [← heq, ← List.map_dropLast]
      exact List.mem_map_of_mem hmem
    · intro piece hmem
      exact (hpiece hmem).2.imp_right fun hbegins => ⟨named, hbegins⟩
  · intro descriptor text hbetween
    have hfails : parameters? descriptor = none ↔ Beyond false (inner descriptor.toList) := by
      rw [parameters?, Option.map_eq_none_iff]
      exact pieces?_eq_none_iff_beyond
    rw [← Option.ne_none_iff_isSome, Ne, hfails, ← between_iff.mp hbetween, Beyond]
    simp only [not_exists, not_and, within_iff, Bool.not_eq_false]

/-- A class name beyond ASCII, and another one without its end. -/
theorem parameters?_exact_openName :
    parameters? "(I[Lshop/Café;[LOrder)V" = some ["I", "[Lshop/Café;", "[LOrder"] ∧
      Between "(I[Lshop/Café;[LOrder)V" "I[Lshop/Café;[LOrder" ∧
      IsType "[Lshop/Café;".toList ∧
      Within "I[Lshop/Caf".toList ∧
      parameters? ("(" ++ String.join ["[J", "Lshop/Café;"] ++ ")" ++ "V") =
        some ["[J", "Lshop/Café;"] := by
  have hcut : parameters? "(I[Lshop/Café;[LOrder)V" = some ["I", "[Lshop/Café;", "[LOrder"] := by
    decide
  obtain ⟨hpieces, hsome, hgrammar⟩ := parameters?_exact
  obtain ⟨hbetween, -, htypes, -⟩ := hpieces _ _ hcut
  have hwithin := (hsome _ _ hbetween).mp (by rw [hcut]; rfl)
  refine ⟨hcut, hbetween, htypes _ (by decide), ?_, ?_⟩
  · exact hwithin _ 'é' ";[LOrder".toList (by decide) (by decide)
  · exact hgrammar [.array (.primitive .long),
      .object ⟨"shop/Café", by decide, by decide⟩] "V"

end Descriptor

end CallForest
