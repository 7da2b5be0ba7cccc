import CallForest.Markup.Reference
import CallForest.Markup.Token

/-!
# Marked-up content

Content is a run of text, or a run of text, something marked up, and more content. What is marked up
is an element with content of its own, an empty element, or something that is passed over. So two
runs of text never meet, and what stands between two tags is one run. A run is made of characters
and of references to characters.

The text of content is what is written for it. Tags may have attributes, and gaps where the format
allows them. The conditions are those without which the text would mean something else: an attribute
does not hold its own quote, and what is passed over does not hold its own end. Names are less
restricted than in the format.

## Main definitions

* `Piece`, `Piece.value` — a part of a run of text, and the character it stands for;
* `TagName`, `Attribute`, `Tag` — tags of elements;
* `Passed` — comments, instructions and character data;
* `Content`, `Content.text` — content, and what is written for it.

## Main results

* `reference?_name` — every reference names its character;
* `resolve?_runText` — every reference of a run is replaced.
-/

namespace CallForest.Markup

/-! ### Runs of text -/

/-- A character with a name of its own. -/
inductive Predefined where
  | lt
  | gt
  | amp
  | apos
  | quot
deriving DecidableEq, Repr

def Predefined.name : Predefined → List Char
  | .lt => ['l', 't']
  | .gt => ['g', 't']
  | .amp => ['a', 'm', 'p']
  | .apos => ['a', 'p', 'o', 's']
  | .quot => ['q', 'u', 'o', 't']

def Predefined.value : Predefined → Char
  | .lt => '<'
  | .gt => '>'
  | .amp => '&'
  | .apos => '\x27'
  | .quot => '"'

/-- The number that digits write, the highest first. -/
def numeral {base : Nat} (digits : List (Fin base)) : Nat :=
  digits.foldl (fun n d => n * base + d.val) 0

/-- How a digit up to fifteen is written, as a capital letter or not. -/
def digitText (d : Fin 16) (capital : Bool) : Char :=
  if capital then (Nat.digitChar d).toUpper else Nat.digitChar d

/-- A part of a run of text that stands for one character. -/
inductive Piece where
  /-- The character itself. -/
  | plain (c : Char) (h : c ≠ '<' ∧ c ≠ '&')
  /-- Its name. -/
  | named (name : Predefined)
  /-- Its number. -/
  | decimal (digits : List (Fin 10)) (c : Char)
    (h : digits ≠ [] ∧ numeral digits = c.toNat ∧ c.toNat ≠ 0)
  /-- Its number in base sixteen, each digit with whether it is a capital letter. -/
  | hexadecimal (digits : List (Fin 16 × Bool)) (c : Char)
    (h : digits ≠ [] ∧ numeral (digits.map Prod.fst) = c.toNat ∧ c.toNat ≠ 0)

namespace Piece

/-- The character that the piece stands for. -/
def value : Piece → Char
  | .plain c _ | .decimal _ c _ | .hexadecimal _ c _ => c
  | .named name => name.value

/-- What stands between the ampersand and the semicolon, if the piece is a reference. -/
def name? : Piece → Option (List Char)
  | .plain _ _ => none
  | .named name => some name.name
  | .decimal digits _ _ => some ('#' :: digits.map fun d => Nat.digitChar d.val)
  | .hexadecimal digits _ _ => some ('#' :: 'x' :: digits.map fun d => digitText d.1 d.2)

/-- What is written for the piece. -/
def text (p : Piece) : List Char :=
  match p.name? with
  | none => [p.value]
  | some name => '&' :: (name ++ [';'])

end Piece

/-- What is written for a run. -/
def runText (run : List Piece) : List Char :=
  run.flatMap Piece.text

/-- What a run stands for. -/
def runValue (run : List Piece) : List Char :=
  run.map Piece.value

/-! ### Tags -/

/-- Characters that separate the parts of a tag. -/
def Gap := { gap : List Char // gap.all isGap = true }

/-- A character that may stand in a name. The format allows fewer. -/
def isNameChar (c : Char) : Bool :=
  !isGap c && !(['<', '>', '/', '=', '&', '!', '?', '"', '\x27'].contains c)

/-- The name of an element. -/
structure TagName where
  /-- What stands before the colon, if there is one. -/
  qualifier : Option (List Char) := none
  /-- The name without it. -/
  localPart : List Char
  localPart_ne_nil : localPart ≠ []
  proper : (qualifier.getD [] ++ localPart).all (fun c => isNameChar c && c != ':') = true

def TagName.text (name : TagName) : List Char :=
  match name.qualifier with
  | none => name.localPart
  | some qualifier => qualifier ++ ':' :: name.localPart

/-- An attribute with the gap before it. -/
structure Attribute where
  gap : Gap
  gap_ne_nil : gap.1 ≠ []
  name : List Char
  name_proper : name.all isNameChar = true
  /-- What stands before the equals sign. -/
  before : Gap
  /-- What stands behind the equals sign. -/
  after : Gap
  quote : Char
  quote_proper : quote = '"' ∨ quote = '\x27'
  value : List Char
  value_proper : value.all (fun c => c != quote) = true

def Attribute.text (a : Attribute) : List Char :=
  a.gap.1 ++ (a.name ++ (a.before.1 ++ '=' :: (a.after.1 ++ a.quote :: (a.value ++ [a.quote]))))

/-- What stands in a tag that opens an element. -/
structure Tag where
  name : TagName
  attributes : List Attribute := []
  gap : Gap := ⟨[], rfl⟩

def Tag.text (tag : Tag) : List Char :=
  tag.name.text ++ (tag.attributes.flatMap Attribute.text ++ tag.gap.1)

/-! ### Content -/

/-- What is neither text nor an element. It does not hold its own end. -/
inductive Passed where
  | comment (body : List Char) (h : ¬ ['-', '-', '>'] <:+: body)
  | instruction (body : List Char) (h : ¬ ['?', '>'] <:+: '?' :: body)
  | characterData (body : List Char) (h : ¬ [']', ']', '>'] <:+: body)

def Passed.text : Passed → List Char
  | .comment body _ => '<' :: '!' :: '-' :: '-' :: (body ++ ['-', '-', '>'])
  | .instruction body _ => '<' :: '?' :: (body ++ ['?', '>'])
  | .characterData body _ =>
    '<' :: '!' :: '[' :: 'C' :: 'D' :: 'A' :: 'T' :: 'A' :: '[' :: (body ++ [']', ']', '>'])

/-- The content of an element or of a document: a run of text, which may be empty, and unless it is
the last one, something else and more content. -/
inductive Content where
  | run (text : List Piece)
  | passed (text : List Piece) (p : Passed) (rest : Content)
  /-- An empty element that is written as one tag. -/
  | single (text : List Piece) (tag : Tag) (rest : Content)
  /-- An element with the gap at the end of its closing tag. -/
  | element (text : List Piece) (tag : Tag) (inner : Content) (gap : Gap) (rest : Content)

namespace Content

/-- What is written for the content. -/
def text : Content → List Char
  | .run t => runText t
  | .passed t p rest => runText t ++ (p.text ++ rest.text)
  | .single t tag rest => runText t ++ '<' :: (tag.text ++ '/' :: '>' :: rest.text)
  | .element t tag inner gap rest =>
    runText t ++ '<' :: (tag.text ++ '>' :: (inner.text ++
      '<' :: '/' :: (tag.name.text ++ (gap.1 ++ '>' :: rest.text))))

end Content

/-! ### References -/

/-- Digits are read as their numeral, whatever characters they are written with. -/
theorem number?_map {α : Type} {base : Nat} (text : α → Char) (digit : α → Fin base)
    (h : ∀ a, Text.digitValue? (text a) = some (digit a).val) {l : List α} (hl : l ≠ []) :
    Text.number? base (l.map text) = some (numeral (l.map digit)) := by
  have hfold (n : Nat) : (l.map text).foldlM (fun n c => do
        let d ← Text.digitValue? c
        if d < base then some (n * base + d) else none) n =
      some ((l.map digit).foldl (fun n d => n * base + d.val) n) := by
    clear hl
    induction l generalizing n with
    | nil => rfl
    | cons a l ih =>
      simp only [List.map_cons, List.foldlM_cons, h, Option.bind_eq_bind, Option.bind_some,
        if_pos (digit a).isLt, List.foldl_cons]
      exact ih _
  have hmore : (l.map text).isEmpty = false := by
    cases l with
    | nil => exact absurd rfl hl
    | cons a l => rfl
  rw [Text.number?, hmore]
  exact hfold 0

theorem digitValue?_digitText (d : Fin 16) (capital : Bool) :
    Text.digitValue? (digitText d capital) = some d.val := by
  revert d capital
  decide

/-- The code of a character gives it back, unless it is zero. -/
theorem characterOf?_toNat {c : Char} (h : c.toNat ≠ 0) : characterOf? c.toNat = some c := by
  rw [characterOf?, if_neg h, Text.charOf?_toNat]

theorem reference?_decimal {c : Char} (h : c ≠ 'x') (rest : List Char) :
    reference? ('#' :: c :: rest) = (Text.number? 10 (c :: rest)).bind characterOf? := by
  rw [reference?]
  · rfl
  · intro digits hdigits
    exact h (List.cons.inj hdigits).1

theorem reference?_hexadecimal (rest : List Char) :
    reference? ('#' :: 'x' :: rest) = (Text.number? 16 rest).bind characterOf? :=
  rfl

/-- The name of a reference is that of its character. -/
theorem reference?_name {p : Piece} {name : List Char} (h : p.name? = some name) :
    reference? name = some p.value := by
  cases p with
  | plain => cases h
  | named name =>
    cases h
    cases name <;> rfl
  | decimal digits c hc =>
    cases h
    have hnumber := number?_map (fun d : Fin 10 => Nat.digitChar d.val) (fun d => d)
      (fun d => Text.digitValue?_digitChar (by omega)) hc.1
    rw [List.map_id', hc.2.1] at hnumber
    cases digits with
    | nil => exact absurd rfl hc.1
    | cons d digits =>
      have hdigit : ∀ d : Fin 10, Nat.digitChar d.val ≠ 'x' := by decide
      rw [List.map_cons] at hnumber ⊢
      rw [reference?_decimal (hdigit d), hnumber]
      exact characterOf?_toNat hc.2.2
  | hexadecimal digits c hc =>
    cases h
    have hnumber := number?_map (fun d : Fin 16 × Bool => digitText d.1 d.2) Prod.fst
      (fun d => digitValue?_digitText d.1 d.2) hc.1
    rw [hc.2.1] at hnumber
    rw [reference?_hexadecimal, hnumber]
    exact characterOf?_toNat hc.2.2

/-- A reference is replaced by its character. -/
theorem resolveFrom_name {name : List Char} (h : ∀ c ∈ name, c ≠ ';' ∧ c ≠ '&')
    (read rest : List Char) : resolveFrom (some read) (name ++ ';' :: rest) = (do
      let found ← reference? (read.reverse ++ name)
      return found :: (← resolveFrom none rest)) := by
  induction name generalizing read with
  | nil => rw [List.nil_append, resolveFrom, if_pos rfl, List.append_nil]
  | cons c name ih =>
    obtain ⟨hc, hname⟩ := List.forall_mem_cons.mp h
    rw [List.cons_append, resolveFrom, if_neg hc.1, if_neg hc.2, ih hname]
    rw [List.reverse_cons, List.append_assoc, List.singleton_append]

/-- A piece that is no reference is neither the beginning of one nor that of a tag. -/
theorem Piece.value_ne {p : Piece} (h : p.name? = none) : p.value ≠ '<' ∧ p.value ≠ '&' := by
  cases p with
  | plain c hc => exact hc
  | named | decimal | hexadecimal => cases h

/-- The name of a reference has none of the characters that would end it. -/
theorem Piece.name?_ne {p : Piece} {name : List Char} (h : p.name? = some name) :
    ∀ c ∈ name, c ≠ ';' ∧ c ≠ '&' ∧ c ≠ '<' := by
  have hten : ∀ d : Fin 10, Nat.digitChar d.val ≠ ';' ∧ Nat.digitChar d.val ≠ '&' ∧
      Nat.digitChar d.val ≠ '<' := by decide
  have hsixteen : ∀ (d : Fin 16) (capital : Bool), digitText d capital ≠ ';' ∧
      digitText d capital ≠ '&' ∧ digitText d capital ≠ '<' := by decide
  cases p with
  | plain => cases h
  | named name =>
    cases h
    cases name <;> simp [Predefined.name]
  | decimal digits c hc =>
    cases h
    simp only [List.mem_cons, List.mem_map]
    rintro c (rfl | ⟨d, -, rfl⟩)
    · decide
    · exact hten d
  | hexadecimal digits c hc =>
    cases h
    simp only [List.mem_cons, List.mem_map]
    rintro c (rfl | rfl | ⟨d, -, rfl⟩)
    · decide
    · decide
    · exact hsixteen d.1 d.2

/-- Every reference of a run is replaced. -/
theorem resolve?_runText (run : List Piece) : resolve? (runText run) = some (runValue run) := by
  induction run with
  | nil => rfl
  | cons p run ih =>
    rw [resolve?] at ih ⊢
    rw [runText, List.flatMap_cons, ← runText, Piece.text]
    split
    case h_1 hname =>
      rw [List.singleton_append, resolveFrom, if_neg (Piece.value_ne hname).2, ih]
      rfl
    case h_2 name hname =>
      have hplain := fun c hc => Piece.name?_ne hname c hc
      rw [List.cons_append, resolveFrom, if_pos rfl, List.append_assoc, List.singleton_append,
        resolveFrom_name fun c hc => ⟨(hplain c hc).1, (hplain c hc).2.1⟩, List.reverse_nil,
        List.nil_append, reference?_name hname, ih]
      rfl

end CallForest.Markup
