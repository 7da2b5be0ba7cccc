import CallForest.Proofs.Markup.Content
import CallForest.Proofs.Text.Cutting

/-!
# Tokens of marked-up content

The text of content is cut into the tokens that one expects of it. Each run of text and each tag is
one token, and so is what is passed over. The scanner reads one character at a time, so each part is
followed from its first character to its last: text up to a tag, the inside of a tag with what is
quoted in it, and what is passed over up to its end.

## Main definitions

* `Content.tokens` — the tokens of content;
* `EndsRun` — a run of text ends before a text;
* `IsTagPart` — a text neither ends a tag nor leaves a quote open.

## Main results

* `scan_opening`, `scan_single`, `scan_closing` — each tag is one token;
* `scan_passed` — so is what is passed over;
* `Content.scan_text` — the tokens of content, in front of nothing or of a tag.
-/

namespace CallForest.Markup

namespace Content

/-- The token of a run of text, unless it is empty. -/
def runTokens (run : List Piece) : List Token :=
  textToken (runText run).reverse

def tokens : Content → List Token
  | .run t => runTokens t
  | .passed t _ rest => runTokens t ++ .skipped :: rest.tokens
  | .single t tag rest => runTokens t ++ .single tag.name.text :: rest.tokens
  | .element t tag inner _ rest =>
    runTokens t ++ .opening tag.name.text ::
      (inner.tokens ++ .closing tag.name.text :: rest.tokens)

end Content

/-! ### Tokens of text -/

/-- A run of text has no angle bracket that could open a tag. -/
theorem lt_notMem_runText (run : List Piece) : '<' ∉ runText run := by
  intro hmem
  obtain ⟨p, -, hp⟩ := List.mem_flatMap.mp hmem
  rw [Piece.text] at hp
  split at hp
  case h_1 hname => exact (Piece.value_ne hname).1 (List.mem_singleton.mp hp).symm
  case h_2 name hname =>
    have hin : '<' ∈ name := by simpa using hp
    exact (Piece.name?_ne hname '<' hin).2.2 rfl

/-- Whether a run of text ends before what follows it. -/
def EndsRun (rest : List Char) : Prop :=
  ∀ c ∈ rest.head?, c = '<'

theorem endsRun_nil : EndsRun [] := by
  intro c hc
  cases hc

theorem endsRun_cons (rest : List Char) : EndsRun ('<' :: rest) := by
  intro c hc
  exact (Option.some.inj hc).symm

/-- Text without angle brackets is one token, up to the tag that follows. -/
theorem scan_of_lt_notMem {s : List Char} (h : '<' ∉ s) {rest : List Char} (hrest : EndsRun rest)
    (read : List Char) : scan (.text read) (s ++ rest) =
      textToken (s.reverse ++ read) ++ scan (.text []) rest := by
  induction s generalizing read with
  | nil =>
    cases rest with
    | nil => exact (List.append_nil _).symm
    | cons c rest =>
      obtain rfl : c = '<' := hrest c rfl
      rfl
  | cons c s ih =>
    obtain ⟨hc, hs⟩ := not_or.mp (mt List.mem_cons.mpr h)
    rw [List.cons_append, scan, if_neg (Ne.symm hc), ih hs, List.reverse_cons, List.append_assoc,
      List.singleton_append]

theorem scan_runText (run : List Piece) {rest : List Char} (hrest : EndsRun rest) :
    scan (.text []) (runText run ++ rest) = Content.runTokens run ++ scan (.text []) rest := by
  rw [scan_of_lt_notMem (lt_notMem_runText run) hrest, List.append_nil, Content.runTokens]

/-! ### Tokens of tags -/

/-- A character that does not end a tag. Between quotes none does. -/
theorem scan_tag_cons {read : List Char} (hread : read ≠ []) {quote : Option Char} {c : Char}
    (h : quote = none → c ≠ '>') (rest : List Char) :
    scan (.tag read quote) (c :: rest) = scan (.tag (c :: read) (quoteAfter quote c)) rest := by
  have hsome : read.isEmpty = false := List.isEmpty_eq_false_iff.mpr hread
  rw [scan, hsome]
  cases quote with
  | none => simp [h rfl]
  | some q => simp

/-- A part of a tag that neither ends it nor leaves a quote open. -/
def IsTagPart (s : List Char) : Prop :=
  ∀ read rest, read ≠ [] → scan (.tag read none) (s ++ rest) =
    scan (.tag (s.reverse ++ read) none) rest

namespace IsTagPart

theorem nil : IsTagPart [] :=
  fun _ _ _ => rfl

theorem append {s t : List Char} (hs : IsTagPart s) (ht : IsTagPart t) : IsTagPart (s ++ t) := by
  intro read rest hread
  rw [List.append_assoc, hs read _ hread, ht _ rest (List.append_ne_nil_of_right_ne_nil _ hread),
    List.reverse_append, List.append_assoc]

theorem flatMap {α : Type} {l : List α} {f : α → List Char} (h : ∀ a ∈ l, IsTagPart (f a)) :
    IsTagPart (l.flatMap f) := by
  induction l with
  | nil => exact nil
  | cons a l ih =>
    obtain ⟨ha, hl⟩ := List.forall_mem_cons.mp h
    exact ha.append (ih hl)

theorem of_forall {s : List Char} (h : ∀ c ∈ s, c ≠ '>' ∧ c ≠ '"' ∧ c ≠ '\x27') :
    IsTagPart s := by
  induction s with
  | nil => exact nil
  | cons c s ih =>
    obtain ⟨hc, hs⟩ := List.forall_mem_cons.mp h
    intro read rest hread
    have hquote : quoteAfter none c = none := by simp [quoteAfter, hc]
    rw [List.cons_append, scan_tag_cons hread (fun _ => hc.1), hquote,
      ih hs _ _ (List.cons_ne_nil c read), List.reverse_cons, List.append_assoc,
      List.singleton_append]

/-- A quoted text may hold anything but its quote. -/
theorem quoted {quote : Char} (hquote : quote = '"' ∨ quote = '\x27') {value : List Char}
    (hvalue : ∀ c ∈ value, c ≠ quote) : IsTagPart (quote :: (value ++ [quote])) := by
  have hinside (read rest : List Char) (hread : read ≠ []) :
      scan (.tag read (some quote)) (value ++ quote :: rest) =
        scan (.tag (quote :: (value.reverse ++ read)) none) rest := by
    induction value generalizing read with
    | nil =>
      rw [List.nil_append, scan_tag_cons hread (by simp), quoteAfter, if_pos rfl]
      rfl
    | cons c value ih =>
      obtain ⟨hc, hmore⟩ := List.forall_mem_cons.mp hvalue
      rw [List.cons_append, scan_tag_cons hread (by simp), quoteAfter, if_neg hc,
        ih hmore _ (List.cons_ne_nil c read), List.reverse_cons, List.append_assoc,
        List.singleton_append]
  intro read rest hread
  have hopens : quoteAfter none quote = some quote := by
    rcases hquote with rfl | rfl <;> rfl
  have hends : quote ≠ '>' := by
    rcases hquote with rfl | rfl <;> decide
  rw [List.cons_append, List.append_assoc, List.singleton_append,
    scan_tag_cons hread (fun _ => hends), hopens, hinside _ _ (List.cons_ne_nil quote read)]
  simp

end IsTagPart

theorem ne_of_isGap {c : Char} (h : isGap c = true) :
    c ≠ '>' ∧ c ≠ '"' ∧ c ≠ '\x27' ∧ c ≠ '/' := by
  simp only [isGap, Bool.or_eq_true, decide_eq_true_eq] at h
  rcases h with ((rfl | rfl) | rfl) | rfl <;> decide

/-- A character of a name neither ends a tag nor changes what it is. -/
theorem ne_of_isNameChar {c : Char} (h : isNameChar c = true) :
    isGap c = false ∧ c ≠ '>' ∧ c ≠ '/' ∧ c ≠ '!' ∧ c ≠ '?' ∧ c ≠ '"' ∧ c ≠ '\x27' := by
  simp only [isNameChar, Bool.and_eq_true, Bool.not_eq_true', List.contains_eq_mem,
    decide_eq_false_iff_not, List.mem_cons, List.not_mem_nil, or_false, not_or] at h
  obtain ⟨hgap, -, hgt, hslash, -, -, hmark, hquestion, hquotes⟩ := h
  exact ⟨hgap, hgt, hslash, hmark, hquestion, hquotes⟩

theorem Gap.isTagPart (gap : Gap) : IsTagPart gap.1 := by
  apply IsTagPart.of_forall
  intro c hc
  have hne := ne_of_isGap (List.all_eq_true.mp gap.2 c hc)
  exact ⟨hne.1, hne.2.1, hne.2.2.1⟩

theorem IsTagPart.of_all_isNameChar {s : List Char} (h : s.all isNameChar = true) :
    IsTagPart s := by
  apply IsTagPart.of_forall
  intro c hc
  have hne := ne_of_isNameChar (List.all_eq_true.mp h c hc)
  exact ⟨hne.2.1, hne.2.2.2.2.2⟩

theorem Attribute.isTagPart (a : Attribute) : IsTagPart a.text := by
  have hequals : IsTagPart ['='] := IsTagPart.of_forall (by simp)
  have hvalue : IsTagPart (a.quote :: (a.value ++ [a.quote])) := by
    apply IsTagPart.quoted a.quote_proper
    intro c hc
    simpa using List.all_eq_true.mp a.value_proper c hc
  exact a.gap.isTagPart.append ((IsTagPart.of_all_isNameChar a.name_proper).append
    (a.before.isTagPart.append (hequals.append (a.after.isTagPart.append hvalue))))

/-- Each part of a name is made of the characters of names, and has no colon. -/
theorem TagName.of_proper {s : List Char}
    (h : s.all (fun c => isNameChar c && c != ':') = true) :
    s.all isNameChar = true ∧ ∀ c ∈ s, c ≠ ':' := by
  have hboth : ∀ c ∈ s, isNameChar c = true ∧ c ≠ ':' := by
    intro c hc
    simpa using List.all_eq_true.mp h c hc
  exact ⟨List.all_eq_true.mpr fun c hc => (hboth c hc).1, fun c hc => (hboth c hc).2⟩

theorem TagName.localPart_proper (name : TagName) :
    name.localPart.all (fun c => isNameChar c && c != ':') = true := by
  have hproper := name.proper
  rw [List.all_append, Bool.and_eq_true] at hproper
  exact hproper.2

theorem TagName.qualifier_proper (name : TagName) {q : List Char} (hq : name.qualifier = some q) :
    q.all (fun c => isNameChar c && c != ':') = true := by
  have hproper := name.proper
  rw [hq, List.all_append, Bool.and_eq_true] at hproper
  exact hproper.1

/-- A name, with its qualifier and the colon, has only characters of names. -/
theorem TagName.all_isNameChar (name : TagName) : name.text.all isNameChar = true := by
  have hlocal := (of_proper name.localPart_proper).1
  rw [TagName.text]
  split
  case h_1 => exact hlocal
  case h_2 q hq =>
    have hcolon : isNameChar ':' = true := by decide
    rw [List.all_append, List.all_cons, (of_proper (name.qualifier_proper hq)).1, hcolon, hlocal]
    rfl

theorem TagName.text_ne_nil (name : TagName) : name.text ≠ [] := by
  rw [TagName.text]
  split
  · exact name.localPart_ne_nil
  · simp

/-- What stands in a tag is read up to its end. -/
theorem scan_tag (tag : Tag) (rest : List Char) :
    scan (.tag [] none) (tag.text ++ rest) = scan (.tag tag.text.reverse none) rest := by
  obtain ⟨c, s, hname⟩ := List.exists_cons_of_ne_nil tag.name.text_ne_nil
  have hall := tag.name.all_isNameChar
  rw [hname, List.all_cons, Bool.and_eq_true] at hall
  have hc := ne_of_isNameChar hall.1
  have hfirst (more : List Char) :
      scan (.tag [] none) (c :: more) = scan (.tag [c] none) more := by
    simp [scan, quoteAfter, hc]
  have hpart : IsTagPart (s ++ (tag.attributes.flatMap Attribute.text ++ tag.gap.1)) :=
    (IsTagPart.of_all_isNameChar hall.2).append
      ((IsTagPart.flatMap fun a _ => a.isTagPart).append tag.gap.isTagPart)
  rw [Tag.text, hname, List.cons_append, List.cons_append, hfirst,
    hpart _ _ (List.cons_ne_nil c []), List.reverse_cons]

theorem getLast?_append_ne {s t : List Char} {c : Char} (hs : s.getLast? ≠ some c)
    (ht : t.getLast? ≠ some c) : (s ++ t).getLast? ≠ some c := by
  rw [List.getLast?_append]
  cases hlast : t.getLast? with
  | none => exact hs
  | some d =>
    rw [hlast] at ht
    exact ht

theorem getLast?_ne_of_forall {s : List Char} {c : Char} (h : ∀ d ∈ s, d ≠ c) :
    s.getLast? ≠ some c :=
  fun hlast => h c (List.mem_of_getLast? hlast) rfl

/-- A slash at the end of a tag is not part of its content. -/
theorem Tag.getLast?_text_ne (tag : Tag) : tag.text.getLast? ≠ some '/' := by
  have hattributes : (tag.attributes.flatMap Attribute.text).getLast? ≠ some '/' := by
    induction tag.attributes with
    | nil => simp
    | cons a l ih =>
      refine getLast?_append_ne ?_ ih
      have hquote : a.quote ≠ '/' := by
        rcases a.quote_proper with h | h <;> rw [h] <;> decide
      simpa [Attribute.text, List.getLast?_cons] using hquote
  refine getLast?_append_ne ?_ (getLast?_append_ne hattributes ?_)
  · exact getLast?_ne_of_forall fun c hc =>
      (ne_of_isNameChar (List.all_eq_true.mp tag.name.all_isNameChar c hc)).2.2.1
  · exact getLast?_ne_of_forall fun c hc =>
      (ne_of_isGap (List.all_eq_true.mp tag.gap.2 c hc)).2.2.2

/-- The name of an element ends at the first gap of its tag. -/
theorem Tag.takeWhile_text (tag : Tag) :
    tag.text.takeWhile (fun c => !isGap c) = tag.name.text := by
  have hname : ∀ c ∈ tag.name.text, (!isGap c) = true := by
    intro c hc
    rw [(ne_of_isNameChar (List.all_eq_true.mp tag.name.all_isNameChar c hc)).1]
    rfl
  have hgap (gap : Gap) (more : List Char) (h : gap.1 ≠ []) :
      (gap.1 ++ more).takeWhile (fun c => !isGap c) = [] := by
    obtain ⟨c, s, hs⟩ := List.exists_cons_of_ne_nil h
    have hc : isGap c = true := List.all_eq_true.mp gap.2 c (by rw [hs]; exact List.mem_cons_self)
    rw [hs, List.cons_append, List.takeWhile_cons, hc]
    rfl
  rw [Tag.text, List.takeWhile_append_of_pos hname]
  cases tag.attributes with
  | cons a l =>
    rw [List.flatMap_cons, Attribute.text, List.append_assoc, List.append_assoc,
      hgap _ _ a.gap_ne_nil, List.append_nil]
  | nil =>
    by_cases h : tag.gap.1 = []
    · rw [h]
      simp
    · have hnone := hgap tag.gap [] h
      rw [List.append_nil] at hnone
      rw [List.flatMap_nil, List.nil_append, hnone, List.append_nil]

/-- A tag that opens an element is not read as one that closes it. -/
theorem Tag.text_append_ne (tag : Tag) (more : List Char) :
    ∀ s, tag.text ++ more ≠ '/' :: s := by
  intro s hs
  obtain ⟨c, t, hname⟩ := List.exists_cons_of_ne_nil tag.name.text_ne_nil
  have hc : c = '/' := by
    rw [Tag.text, hname] at hs
    exact (List.cons.inj hs).1
  have hall := tag.name.all_isNameChar
  rw [hname, List.all_cons, Bool.and_eq_true] at hall
  exact (ne_of_isNameChar hall.1).2.2.1 hc

theorem tagToken_opening (tag : Tag) : tagToken tag.text = .opening tag.name.text := by
  have hhead := tag.text_append_ne []
  rw [List.append_nil] at hhead
  rw [tagToken, if_neg tag.getLast?_text_ne, tag.takeWhile_text]
  exact hhead

theorem tagToken_single (tag : Tag) : tagToken (tag.text ++ ['/']) = .single tag.name.text := by
  rw [tagToken, if_pos List.getLast?_concat, List.dropLast_concat, tag.takeWhile_text]
  exact tag.text_append_ne ['/']

/-- The gap after the name of a closing tag is dropped. -/
theorem closingName_append (name : TagName) (gap : Gap) :
    closingName (name.text ++ gap.1) = name.text := by
  have hkept : Text.dropEndWhile isGap (name.text ++ gap.1) = name.text := by
    rw [Text.dropEndWhile_append_of_all (List.all_eq_true.mp gap.2), Text.dropEndWhile,
      Text.dropWhile_eq_self_of_head, List.reverse_reverse]
    rw [List.head?_reverse, List.getLast?_eq_getLast_of_ne_nil name.text_ne_nil, Option.map_some]
    have hlast := List.all_eq_true.mp name.all_isNameChar _ (List.getLast_mem name.text_ne_nil)
    rw [(ne_of_isNameChar hlast).1]
  have hsome : name.text.isEmpty = false := List.isEmpty_eq_false_iff.mpr name.text_ne_nil
  simp [closingName, hkept, hsome]

theorem scan_tag_end (read rest : List Char) :
    scan (.tag read none) ('>' :: rest) = tagToken read.reverse :: scan (.text []) rest := by
  simp [scan]

theorem scan_text_lt (rest : List Char) :
    scan (.text []) ('<' :: rest) = scan (.tag [] none) rest :=
  rfl

/-- The token of a tag that opens an element. -/
theorem scan_opening (tag : Tag) (rest : List Char) :
    scan (.text []) ('<' :: (tag.text ++ '>' :: rest)) =
      .opening tag.name.text :: scan (.text []) rest := by
  rw [scan_text_lt, scan_tag, scan_tag_end, List.reverse_reverse, tagToken_opening]

/-- The token of a tag that is an element. -/
theorem scan_single (tag : Tag) (rest : List Char) :
    scan (.text []) ('<' :: (tag.text ++ '/' :: '>' :: rest)) =
      .single tag.name.text :: scan (.text []) rest := by
  have hread : tag.text.reverse ≠ [] := by
    intro h
    exact tag.name.text_ne_nil (List.append_eq_nil_iff.mp (List.reverse_eq_nil_iff.mp h)).1
  rw [scan_text_lt, scan_tag, scan_tag_cons hread (by decide)]
  rw [show quoteAfter none '/' = none from rfl, scan_tag_end, List.reverse_cons,
    List.reverse_reverse, tagToken_single]

/-- The token of a closing tag. -/
theorem scan_closing (name : TagName) (gap : Gap) (rest : List Char) :
    scan (.text []) ('<' :: '/' :: (name.text ++ (gap.1 ++ '>' :: rest))) =
      .closing name.text :: scan (.text []) rest := by
  have hpart := (IsTagPart.of_all_isNameChar name.all_isNameChar).append gap.isTagPart
  have hslash (more : List Char) :
      scan (.tag [] none) ('/' :: more) = scan (.tag ['/'] none) more := rfl
  rw [scan_text_lt, hslash, ← List.append_assoc, hpart _ _ (List.cons_ne_nil _ _), scan_tag_end,
    List.reverse_append, List.reverse_reverse, List.reverse_singleton, List.singleton_append,
    tagToken, closingName_append]

/-! ### Tokens of what is passed over -/

/-- Something passed over is read as long as it does not end. -/
theorem scan_passing (place : List Char → Place) (ends : List Char → Bool)
    (hstep : ∀ read c rest, (c = '>' → ends read = false) →
      scan (place read) (c :: rest) = scan (place (c :: read)) rest)
    {s read : List Char} (h : ∀ t u, s = t ++ '>' :: u → ends (t.reverse ++ read) = false)
    (rest : List Char) : scan (place read) (s ++ rest) = scan (place (s.reverse ++ read)) rest := by
  induction s generalizing read with
  | nil => rfl
  | cons c s ih =>
    have hfirst : c = '>' → ends read = false := by
      rintro rfl
      exact h [] s rfl
    have hlater : ∀ t u, s = t ++ '>' :: u → ends (t.reverse ++ c :: read) = false := by
      intro t u hsplit
      have hends := h (c :: t) u (by rw [hsplit, List.cons_append])
      rwa [List.reverse_cons, List.append_assoc, List.singleton_append] at hends
    rw [List.cons_append, hstep _ _ _ hfirst, ih hlater, List.reverse_cons, List.append_assoc,
      List.singleton_append]

/-- An end that a text does not hold is not behind one of its beginnings. -/
theorem isPrefixOf_reverse_eq_false (ending : List Char) {t u : List Char}
    (h : ¬ ending ++ ['>'] <:+: t ++ '>' :: u) (hlong : ending.length ≤ t.length)
    (lead : List Char) : ending.reverse.isPrefixOf (t.reverse ++ lead) = false := by
  apply Bool.eq_false_iff.mpr
  intro hfound
  have hreverse : ending.reverse <+: t.reverse :=
    List.prefix_of_prefix_length_le (List.isPrefixOf_iff_prefix.mp hfound)
      (List.prefix_append t.reverse lead) (by simpa using hlong)
  obtain ⟨front, rfl⟩ := List.reverse_prefix.mp hreverse
  exact h ⟨front, u, by simp⟩

/-- A comment is one token that says nothing. -/
theorem scan_comment {body : List Char} (h : ¬ ['-', '-', '>'] <:+: body) (rest : List Char) :
    scan .declaration ('-' :: '-' :: (body ++ '-' :: '-' :: '>' :: rest)) =
      .skipped :: scan (.text []) rest := by
  have hstep : ∀ read c rest,
      (c = '>' → (['-', '-'].isPrefixOf read && decide (4 ≤ read.length)) = false) →
      scan (.comment read) (c :: rest) = scan (.comment (c :: read)) rest := by
    intro read c rest hends
    rw [scan, if_neg]
    intro hend
    simp only [Bool.and_eq_true, decide_eq_true_eq] at hend
    simp [hend] at hends
  have hends : ∀ t u, body = t ++ '>' :: u →
      (['-', '-'].isPrefixOf (t.reverse ++ ['-', '-']) &&
        decide (4 ≤ (t.reverse ++ ['-', '-']).length)) = false := by
    rintro t u rfl
    apply Bool.and_eq_false_iff.mpr
    -- The end may not use the dashes of the beginning, which is what the length is for.
    by_cases hlong : 2 ≤ t.length
    · exact .inl (isPrefixOf_reverse_eq_false ['-', '-'] h hlong _)
    · exact .inr (by simpa using hlong)
  have hfirst (more : List Char) :
      scan .declaration ('-' :: '-' :: more) = scan (.comment ['-', '-']) more := rfl
  rw [hfirst, scan_passing .comment _ hstep hends]
  simp [scan, skippedIf]

/-- So is a processing instruction. -/
theorem scan_instruction {body : List Char} (h : ¬ ['?', '>'] <:+: '?' :: body)
    (rest : List Char) :
    scan (.instruction []) (body ++ '?' :: '>' :: rest) = .skipped :: scan (.text []) rest := by
  have hstep : ∀ read c rest, (c = '>' → ['?'].isPrefixOf (read ++ ['?']) = false) →
      scan (.instruction read) (c :: rest) = scan (.instruction (c :: read)) rest := by
    intro read c rest hends
    rw [scan]
    · rintro rfl rfl
      cases hends rfl
    · rintro tail rfl rfl
      cases hends rfl
  have hends : ∀ t u, body = t ++ '>' :: u →
      ['?'].isPrefixOf (t.reverse ++ [] ++ ['?']) = false := by
    rintro t u rfl
    -- The first character of a body stands behind a question mark too, that of the beginning.
    have hend := isPrefixOf_reverse_eq_false ['?'] (t := '?' :: t) h (by simp) []
    simpa using hend
  rw [scan_passing .instruction _ hstep hends]
  simp [scan]

/-- So is a section of character data. -/
theorem scan_characterData {body : List Char} (h : ¬ [']', ']', '>'] <:+: body)
    (rest : List Char) :
    scan .declaration ('[' :: 'C' :: 'D' :: 'A' :: 'T' :: 'A' :: '[' ::
      (body ++ ']' :: ']' :: '>' :: rest)) = .skipped :: scan (.text []) rest := by
  have hstep : ∀ read c rest, (c = '>' → [']', ']'].isPrefixOf read = false) →
      scan (.characterData read) (c :: rest) = scan (.characterData (c :: read)) rest := by
    intro read c rest hends
    rw [scan, if_neg]
    intro hend
    simp only [Bool.and_eq_true, decide_eq_true_eq] at hend
    simp [hend] at hends
  have hends : ∀ t u, body = t ++ '>' :: u →
      [']', ']'].isPrefixOf (t.reverse ++ ['[', 'A', 'T', 'A', 'D', 'C', '[']) = false := by
    rintro t u rfl
    by_cases hlong : 2 ≤ t.length
    · exact isPrefixOf_reverse_eq_false [']', ']'] h hlong _
    · cases t with
      | nil => rfl
      | cons a t =>
        obtain rfl : t = [] := by simpa using hlong
        simp [List.isPrefixOf]
  have hfirst (more : List Char) :
      scan .declaration ('[' :: 'C' :: 'D' :: 'A' :: 'T' :: 'A' :: '[' :: more) =
        scan (.characterData ['[', 'A', 'T', 'A', 'D', 'C', '[']) more := rfl
  rw [hfirst, scan_passing .characterData _ hstep hends]
  simp [scan, skippedIf]

/-- What is passed over is one token. -/
theorem scan_passed (p : Passed) (rest : List Char) :
    scan (.text []) (p.text ++ rest) = .skipped :: scan (.text []) rest := by
  cases p with
  | comment body h =>
    rw [← scan_comment h]
    simp [Passed.text, scan, textToken]
  | instruction body h =>
    rw [← scan_instruction h]
    simp [Passed.text, scan, textToken]
  | characterData body h =>
    rw [← scan_characterData h]
    simp [Passed.text, scan, textToken]

/-! ### Tokens of content -/

namespace Content

theorem endsRun_passed (p : Passed) (rest : List Char) : EndsRun (p.text ++ rest) := by
  cases p <;> exact endsRun_cons _

/-- The tokens of content, in front of nothing or of a tag. -/
theorem scan_text (c : Content) {rest : List Char} (hrest : EndsRun rest) :
    scan (.text []) (c.text ++ rest) = c.tokens ++ scan (.text []) rest := by
  induction c generalizing rest with
  | run t => exact scan_runText t hrest
  | passed t p more ih =>
    rw [text, List.append_assoc, List.append_assoc, scan_runText t (endsRun_passed p _),
      scan_passed, ih hrest]
    simp [tokens]
  | single t tag more ih =>
    have hmore := scan_single tag (more.text ++ rest)
    rw [ih hrest] at hmore
    rw [text, List.append_assoc, List.cons_append, List.append_assoc, List.cons_append,
      List.cons_append, scan_runText t (endsRun_cons _), hmore]
    simp [tokens]
  | element t tag inner gap more ihInner ih =>
    have hclosing := scan_closing tag.name gap (more.text ++ rest)
    rw [ih hrest] at hclosing
    have hinner := ihInner (endsRun_cons ('/' :: (tag.name.text ++ (gap.1 ++ '>' ::
      (more.text ++ rest)))))
    rw [hclosing] at hinner
    have hopening := scan_opening tag (inner.text ++ '<' :: '/' :: (tag.name.text ++
      (gap.1 ++ '>' :: (more.text ++ rest))))
    rw [hinner] at hopening
    have htext : (element t tag inner gap more).text ++ rest =
        runText t ++ '<' :: (tag.text ++ '>' :: (inner.text ++ '<' :: '/' :: (tag.name.text ++
          (gap.1 ++ '>' :: (more.text ++ rest))))) := by
      simp [text]
    rw [htext, scan_runText t (endsRun_cons _), hopening]
    simp [tokens]

/-- The tokens of content alone. -/
theorem scan_text_eq_tokens (c : Content) : scan (.text []) c.text = c.tokens := by
  have h := c.scan_text endsRun_nil
  rwa [List.append_nil, show scan (.text []) [] = [] from rfl, List.append_nil] at h

end Content

end CallForest.Markup
