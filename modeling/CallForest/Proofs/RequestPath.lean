import CallForest.MappingPath
import CallForest.Proofs.Text.Cutting
import Mathlib.Data.List.Chain
import Mathlib.Data.List.Induction

/-!
# Request paths

The request path of a method is the trimmed path of its class without final separators, and the
trimmed path of the method without initial ones, with one separator between them and one in front.
Both cuts can be made in any order, and joining with one separator is associative, so the same holds
of request paths as long as there is nothing to trim. What stands between separators is never
changed.

## Main definitions

* `MappingPath.cutEnd`, `MappingPath.cutStart` — a path without its separators at one end;
* `MappingPath.meet` — two paths with one separator between them;
* `MappingPath.joined` — the request path of paths that are trimmed;
* `MappingPath.segments` — what stands between the separators of a path.

## Main results

* `MappingPath.toList_join` — the request path is `joined`, which has one case less;
* `MappingPath.segments_joined` — no segment is lost, added or moved;
* `MappingPath.joined_assoc` — paths can be joined in any order;
* `MappingPath.join_exact` — all of this for texts with blank characters around them.
-/

namespace CallForest.MappingPath

variable {base path before after text : List Char}

/-! ### Cutting off separators -/

/-- A path without its initial separators. -/
def cutStart (text : List Char) : List Char :=
  text.dropWhile (· = '/')

/-- A path without its final separators. -/
def cutEnd (text : List Char) : List Char :=
  Text.dropEndWhile (· = '/') text

/-- The cuts are mirror images, so that most facts are needed for one of them only. -/
theorem cutEnd_eq (text : List Char) : cutEnd text = (cutStart text.reverse).reverse := rfl

theorem cutStart_cons (c : Char) (text : List Char) :
    cutStart (c :: text) = if c = '/' then cutStart text else c :: text := by
  simp [cutStart, List.dropWhile_cons]

theorem cutStart_append (before after : List Char) : cutStart (before ++ after) =
    if cutStart before = [] then cutStart after else cutStart before ++ after := by
  simp [cutStart, List.dropWhile_append]

theorem cutEnd_append (before after : List Char) : cutEnd (before ++ after) =
    if cutEnd after = [] then cutEnd before else before ++ cutEnd after := by
  simp only [cutEnd_eq, List.reverse_append, cutStart_append, List.reverse_eq_nil_iff]
  split
  case isTrue => rfl
  case isFalse => rw [List.reverse_append, List.reverse_reverse]

theorem cutEnd_cons (c : Char) (text : List Char) :
    cutEnd (c :: text) = if c = '/' ∧ cutEnd text = [] then [] else c :: cutEnd text := by
  have hsingle : cutEnd [c] = if c = '/' then [] else [c] := by
    by_cases hc : c = '/' <;> simp [cutEnd_eq, cutStart, hc]
  rw [← List.singleton_append, cutEnd_append, hsingle]
  by_cases hc : c = '/' <;> by_cases hend : cutEnd text = [] <;> simp [hc, hend]

theorem head?_cutStart (text : List Char) : (cutStart text).head? ≠ some '/' := by
  induction text with
  | nil => simp [cutStart]
  | cons c text ih =>
    rw [cutStart_cons]
    split
    case isTrue => exact ih
    case isFalse hc => simpa using hc

theorem getLast?_cutEnd (text : List Char) : (cutEnd text).getLast? ≠ some '/' := by
  rw [cutEnd_eq, List.getLast?_reverse]
  exact head?_cutStart text.reverse

theorem cutStart_eq_self (h : text.head? ≠ some '/') : cutStart text = text := by
  cases text with
  | nil => rfl
  | cons c text => rw [cutStart_cons, if_neg (by simpa using h)]

theorem cutEnd_eq_self (h : text.getLast? ≠ some '/') : cutEnd text = text := by
  rw [cutEnd_eq, cutStart_eq_self (by rwa [List.head?_reverse]), List.reverse_reverse]

/-- The two cuts do not get into each other's way. -/
theorem cutEnd_cutStart (text : List Char) : cutEnd (cutStart text) = cutStart (cutEnd text) := by
  induction text with
  | nil => rfl
  | cons c text ih =>
    rw [cutStart_cons, cutEnd_cons]
    by_cases hc : c = '/'
    · rw [if_pos hc, ih]
      by_cases hend : cutEnd text = [] <;> simp [hc, hend, cutStart_cons]
    · simp [hc, cutEnd_cons, cutStart_cons]

/-- A path that does not begin with a separator keeps something when it is cut at its end. -/
theorem cutEnd_ne_nil (hne : text ≠ []) (hhead : text.head? ≠ some '/') : cutEnd text ≠ [] := by
  cases text with
  | nil => exact absurd rfl hne
  | cons c text =>
    have hc : c ≠ '/' := by simpa using hhead
    simp [cutEnd_cons, hc]

/-! ### One separator between two paths -/

/-- Two paths with one separator between them, or the other one if one of them is empty. -/
def meet (before after : List Char) : List Char :=
  if before = [] then after else if after = [] then before else before ++ '/' :: after

@[simp] theorem meet_nil_left (after : List Char) : meet [] after = after := rfl

@[simp] theorem meet_nil_right (before : List Char) : meet before [] = before := by
  cases before <;> simp [meet]

theorem meet_of_ne_nil (hbefore : before ≠ []) (hafter : after ≠ []) :
    meet before after = before ++ '/' :: after := by
  rw [meet, if_neg hbefore, if_neg hafter]

/-- Of several paths, it does not matter which two meet first. -/
theorem meet_assoc (first second third : List Char) :
    meet (meet first second) third = meet first (meet second third) := by
  by_cases hfirst : first = []
  · rw [hfirst, meet_nil_left, meet_nil_left]
  by_cases hsecond : second = []
  · rw [hsecond, meet_nil_left, meet_nil_right]
  by_cases hthird : third = []
  · rw [hthird, meet_nil_right, meet_nil_right]
  rw [meet_of_ne_nil hfirst hsecond, meet_of_ne_nil hsecond hthird,
    meet_of_ne_nil (by simp) hthird, meet_of_ne_nil hfirst (by simp), List.append_assoc,
    List.cons_append]

theorem reverse_meet (before after : List Char) :
    (meet before after).reverse = meet after.reverse before.reverse := by
  by_cases hbefore : before = []
  · simp [hbefore]
  by_cases hafter : after = []
  · simp [hafter]
  rw [meet_of_ne_nil hbefore hafter,
    meet_of_ne_nil (List.reverse_ne_nil_iff.mpr hafter) (List.reverse_ne_nil_iff.mpr hbefore)]
  simp

/-- Cutting the end of two paths is cutting the end of the second one. -/
theorem cutEnd_meet (hbefore : before.getLast? ≠ some '/') (hafter : after.head? ≠ some '/') :
    cutEnd (meet before after) = meet before (cutEnd after) := by
  by_cases hnone : before = []
  · rw [hnone, meet_nil_left, meet_nil_left]
  by_cases hempty : after = []
  · have hnil : cutEnd [] = [] := rfl
    rw [hempty, hnil, meet_nil_right, cutEnd_eq_self hbefore]
  have hkept := cutEnd_ne_nil hempty hafter
  have hsplit (rest : List Char) : before ++ '/' :: rest = (before ++ ['/']) ++ rest := by simp
  rw [meet_of_ne_nil hnone hempty, meet_of_ne_nil hnone hkept, hsplit after, cutEnd_append,
    if_neg hkept, ← hsplit]

/-- The mirror image of `cutEnd_meet`. -/
theorem cutStart_meet (hbefore : before.getLast? ≠ some '/') (hafter : after.head? ≠ some '/') :
    cutStart (meet before after) = meet (cutStart before) after := by
  have hmirror : cutEnd (meet after.reverse before.reverse) =
      meet after.reverse (cutEnd before.reverse) :=
    cutEnd_meet (by rwa [List.getLast?_reverse]) (by rwa [List.head?_reverse])
  rw [← reverse_meet, cutEnd_eq, cutEnd_eq, List.reverse_reverse, List.reverse_reverse] at hmirror
  rw [← List.reverse_inj, hmirror, reverse_meet]

/-! ### One separator in front -/

theorem rooted_of_head (h : text.head? = some '/') : rooted text = text := if_pos h

theorem rooted_of_head_ne (h : text.head? ≠ some '/') : rooted text = '/' :: text := if_neg h

theorem head?_rooted (text : List Char) : (rooted text).head? = some '/' := by
  unfold rooted
  split
  case isTrue h => exact h
  case isFalse => rfl

theorem rooted_append (hbefore : before ≠ []) (after : List Char) :
    rooted (before ++ after) = rooted before ++ after := by
  unfold rooted
  rw [List.head?_append_of_ne_nil before hbefore]
  split
  case isTrue => rfl
  case isFalse => rfl

theorem getLast?_rooted (hne : text ≠ []) : (rooted text).getLast? = text.getLast? := by
  unfold rooted
  split
  case isTrue => rfl
  case isFalse =>
    rw [← List.singleton_append]
    exact List.getLast?_append_of_ne_nil _ hne

theorem cutStart_rooted (text : List Char) : cutStart (rooted text) = cutStart text := by
  unfold rooted
  split
  case isTrue => rfl
  case isFalse => rw [cutStart_cons, if_pos rfl]

/-- A separator in front of the first of two paths is the one in front of both. -/
theorem rooted_meet_cutEnd_rooted (before after : List Char) :
    rooted (meet (cutEnd (rooted before)) after) = rooted (meet (cutEnd before) after) := by
  cases before with
  | nil => rfl
  | cons c before =>
    by_cases hc : c = '/'
    · have hsame : rooted (c :: before) = c :: before := rooted_of_head (by simpa using hc)
      rw [hsame]
    -- The cut stops at the latest at the character behind the new separator.
    have hmore : rooted (c :: before) = '/' :: c :: before := rooted_of_head_ne (by simpa using hc)
    have hkept : cutEnd (c :: before) = c :: cutEnd before := by simp [cutEnd_cons, hc]
    rw [hmore, cutEnd_cons, hkept, if_neg (by simp)]
    cases after <;> simp [meet, rooted, hc]

/-! ### The request path -/

/-- The request path of paths that are trimmed. -/
def joined (base path : List Char) : List Char :=
  if base = [] ∧ path = [] then [] else rooted (meet (cutEnd base) (cutStart path))

theorem joined_of_not_empty (h : ¬ (base = [] ∧ path = [])) :
    joined base path = rooted (meet (cutEnd base) (cutStart path)) := if_neg h

/-- Only two empty paths have an empty request path, since any other one begins with a separator. -/
theorem joined_eq_nil_iff : joined base path = [] ↔ base = [] ∧ path = [] := by
  constructor
  · intro h
    by_contra hsome
    rw [joined_of_not_empty hsome] at h
    have hhead := head?_rooted (meet (cutEnd base) (cutStart path))
    rw [h] at hhead
    cases hhead
  · exact fun h => if_pos h

theorem cutEnd_joined (base path : List Char) :
    cutEnd (joined base path) = cutEnd (rooted (meet (cutEnd base) (cutStart path))) := by
  by_cases h : base = [] ∧ path = []
  · rw [h.1, h.2]
    rfl
  · rw [joined_of_not_empty h]

/-- Without its separators at the start, a request path is what the two paths have between theirs.
-/
theorem cutStart_joined (base path : List Char) :
    cutStart (joined base path) = meet (cutStart (cutEnd base)) (cutStart path) := by
  have hsides : cutStart (rooted (meet (cutEnd base) (cutStart path))) =
      meet (cutStart (cutEnd base)) (cutStart path) := by
    rw [cutStart_rooted, cutStart_meet (getLast?_cutEnd base) (head?_cutStart path)]
  by_cases h : base = [] ∧ path = []
  · rw [h.1, h.2]
    rfl
  · rw [joined_of_not_empty h, hsides]

/-- Of several paths, it does not matter which two are joined first. -/
theorem joined_assoc (first second third : List Char) :
    joined (joined first second) third = joined first (joined second third) := by
  by_cases hnone : first = [] ∧ second = [] ∧ third = []
  · rw [hnone.1, hnone.2.1, hnone.2.2]
    rfl
  calc joined (joined first second) third
      = rooted (meet (cutEnd (joined first second)) (cutStart third)) := by
        exact joined_of_not_empty (by rwa [joined_eq_nil_iff, and_assoc])
    _ = rooted (meet (meet (cutEnd first) (cutEnd (cutStart second))) (cutStart third)) := by
        rw [cutEnd_joined, rooted_meet_cutEnd_rooted,
          cutEnd_meet (getLast?_cutEnd first) (head?_cutStart second)]
    _ = rooted (meet (cutEnd first) (meet (cutStart (cutEnd second)) (cutStart third))) := by
        rw [meet_assoc, cutEnd_cutStart]
    _ = joined first (joined second third) := by
        rw [← cutStart_joined]
        exact (joined_of_not_empty (by rwa [joined_eq_nil_iff])).symm

/-! ### Segments -/

/-- What stands between the separators of a path, where it is not empty. -/
def segments (text : List Char) : List (List Char) :=
  (text.splitOn '/').filter (· ≠ [])

theorem segments_append_slash (before after : List Char) :
    segments (before ++ '/' :: after) = segments before ++ segments after := by
  rw [segments, List.splitOn_append_cons_self, List.filter_append]
  rfl

theorem segments_slash (text : List Char) : segments ('/' :: text) = segments text :=
  segments_append_slash [] text

theorem segments_cutStart (text : List Char) : segments (cutStart text) = segments text := by
  induction text with
  | nil => rfl
  | cons c text ih =>
    rw [cutStart_cons]
    split
    case isTrue hc => rw [ih, hc, segments_slash]
    case isFalse => rfl

theorem segments_cutEnd (text : List Char) : segments (cutEnd text) = segments text := by
  induction text using List.reverseRecOn with
  | nil => rfl
  | append_singleton text c ih =>
    by_cases hc : c = '/'
    · have hcut : cutEnd ['/'] = [] := rfl
      have hnil : segments [] = [] := rfl
      rw [hc, cutEnd_append, if_pos hcut, ih, segments_append_slash, hnil, List.append_nil]
    · rw [cutEnd_eq_self (by simpa using hc)]

theorem segments_rooted (text : List Char) : segments (rooted text) = segments text := by
  unfold rooted
  split
  case isTrue => rfl
  case isFalse => exact segments_slash text

/-- The segments of two paths that meet are those of the one and then those of the other. -/
theorem segments_meet (before after : List Char) :
    segments (meet before after) = segments before ++ segments after := by
  by_cases hbefore : before = []
  · rw [hbefore]
    rfl
  by_cases hafter : after = []
  · rw [hafter, meet_nil_right]
    exact (List.append_nil _).symm
  rw [meet_of_ne_nil hbefore hafter, segments_append_slash]

/-- No segment is lost, added or moved. -/
theorem segments_joined (base path : List Char) :
    segments (joined base path) = segments base ++ segments path := by
  by_cases h : base = [] ∧ path = []
  · rw [h.1, h.2]
    rfl
  · rw [joined_of_not_empty h, segments_rooted, segments_meet, segments_cutEnd, segments_cutStart]

/-- If both paths have segments, one separator stands between what comes from each of them. -/
theorem exists_seam (hbase : segments base ≠ []) (hpath : segments path ≠ []) :
    ∃ front back, joined base path = front ++ '/' :: back ∧
      segments front = segments base ∧ segments back = segments path ∧
      front.getLast? ≠ some '/' ∧ back.head? ≠ some '/' := by
  have hnil : segments [] = [] := rfl
  have hbefore : cutEnd base ≠ [] := by
    intro h
    rw [← segments_cutEnd, h, hnil] at hbase
    exact hbase rfl
  have hafter : cutStart path ≠ [] := by
    intro h
    rw [← segments_cutStart, h, hnil] at hpath
    exact hpath rfl
  have hsome : ¬ (base = [] ∧ path = []) := fun h => hbefore (by rw [h.1]; rfl)
  refine ⟨rooted (cutEnd base), cutStart path, ?_, ?_, segments_cutStart path, ?_,
    head?_cutStart path⟩
  · rw [joined_of_not_empty hsome, meet_of_ne_nil hbefore hafter, rooted_append hbefore]
  · rw [segments_rooted, segments_cutEnd]
  · rw [getLast?_rooted hbefore]
    exact getLast?_cutEnd base

/-! ### Adjacent separators -/

theorem not_doubled_iff :
    ¬ ['/', '/'] <:+: text ↔ text.IsChain fun c d => ¬ (c = '/' ∧ d = '/') := by
  rw [List.isChain_iff_forall_rel_of_append_cons_cons]
  constructor
  · intro h c d front back hsplit hboth
    apply h
    rw [hsplit, hboth.1, hboth.2]
    exact ⟨front, back, by simp⟩
  · intro h hfound
    obtain ⟨front, back, hsplit⟩ := hfound
    exact h (by rw [← hsplit, List.append_assoc]; rfl) ⟨rfl, rfl⟩

theorem doubled_rooted : ['/', '/'] <:+: rooted text ↔ ['/', '/'] <:+: text := by
  by_cases hhead : text.head? = some '/'
  · rw [rooted_of_head hhead]
  · rw [rooted_of_head_ne hhead, ← not_iff_not, not_doubled_iff, not_doubled_iff,
      List.isChain_cons, and_iff_right]
    intro d hd hboth
    exact hhead (hboth.2 ▸ hd)

/-- Separators that are not at the seam do not come together there. -/
theorem doubled_meet (hbefore : before.getLast? ≠ some '/') (hafter : after.head? ≠ some '/') :
    ['/', '/'] <:+: meet before after ↔
      ['/', '/'] <:+: before ∨ ['/', '/'] <:+: after := by
  by_cases hnone : before = []
  · simp [hnone]
  by_cases hempty : after = []
  · simp [hempty]
  rw [meet_of_ne_nil hnone hempty, ← not_iff_not, not_or, not_doubled_iff, not_doubled_iff,
    not_doubled_iff, List.isChain_append, List.isChain_cons]
  constructor
  · exact fun h => ⟨h.1, h.2.1.2⟩
  · intro h
    refine ⟨h.1, ⟨?_, h.2⟩, ?_⟩
    · intro d hd hboth
      exact hafter (hboth.2 ▸ hd)
    · intro c hc _ _ hboth
      exact hbefore (hboth.1 ▸ hc)

/-- Joining doubles no separator: one that is doubled is so within one of the two paths. -/
theorem doubled_joined (base path : List Char) : ['/', '/'] <:+: joined base path ↔
    ['/', '/'] <:+: cutEnd base ∨ ['/', '/'] <:+: cutStart path := by
  by_cases h : base = [] ∧ path = []
  · have hend : cutEnd [] = [] := rfl
    have hstart : cutStart [] = [] := rfl
    rw [joined_eq_nil_iff.mpr h, h.1, h.2, hend, hstart, or_self]
  · rw [joined_of_not_empty h, doubled_rooted,
      doubled_meet (getLast?_cutEnd base) (head?_cutStart path)]

/-! ### Trimming -/

/-- Blank characters are no separators, so trimming does not remove any. -/
theorem slash_mem_trim (text : String) :
    '/' ∈ (Text.trim text).toList ↔ '/' ∈ text.toList := by
  obtain ⟨lead, trail, hlead, htrail, hsplit⟩ := Text.exists_around_stripped text.toList
  have hblank : Text.isBlank '/' = false := rfl
  have hlead' : '/' ∉ lead := fun h => Bool.false_ne_true (hblank.symm.trans (hlead _ h))
  have htrail' : '/' ∉ trail := fun h => Bool.false_ne_true (hblank.symm.trans (htrail _ h))
  rw [Text.toList_trim]
  nth_rewrite 2 [hsplit]
  simp [hlead', htrail']

/-- A path of which nothing is left has nothing but separators. -/
theorem slash_mem_iff_of_cutEnd (h : cutEnd text = []) : '/' ∈ text ↔ text ≠ [] := by
  refine ⟨List.ne_nil_of_mem, ?_⟩
  intro hne
  by_contra hmem
  refine cutEnd_ne_nil hne ?_ h
  exact fun hhead => hmem (List.mem_of_mem_head? hhead)

theorem slash_mem_iff_of_cutStart (h : cutStart text = []) : '/' ∈ text ↔ text ≠ [] := by
  rw [← List.mem_reverse, ← List.reverse_ne_nil_iff]
  apply slash_mem_iff_of_cutEnd
  rw [cutEnd_eq, List.reverse_reverse, h, List.reverse_nil]

/-- What is left of the two paths decides, and separators alone leave the root. -/
theorem join_eq (base path : String) : join base path =
    if head base = [] ∧ tail path = [] then
      if '/' ∈ base.toList ∨ '/' ∈ path.toList then "/" else ""
    else String.ofList (rooted (meet (head base) (tail path))) := by
  unfold join meet
  cases head base <;> cases tail path <;> simp

/-- The request path, with one case less: if nothing is left of the two paths, there is a separator
exactly if one of them is not blank. -/
theorem toList_join (base path : String) :
    (join base path).toList = joined (Text.trim base).toList (Text.trim path).toList := by
  have hhead : head base = cutEnd (Text.trim base).toList := rfl
  have htail : tail path = cutStart (Text.trim path).toList := rfl
  rw [join_eq]
  by_cases hempty : (Text.trim base).toList = [] ∧ (Text.trim path).toList = []
  · have hnone : head base = [] ∧ tail path = [] := by
      rw [hhead, htail, hempty.1, hempty.2]
      exact ⟨rfl, rfl⟩
    have hslash : ¬ ('/' ∈ base.toList ∨ '/' ∈ path.toList) := by
      rw [← slash_mem_trim base, ← slash_mem_trim path, hempty.1, hempty.2]
      simp
    rw [if_pos hnone, if_neg hslash, joined_eq_nil_iff.mpr hempty, String.toList_empty]
  · rw [joined_of_not_empty hempty, ← hhead, ← htail]
    split
    case isTrue hnone =>
      have hslash : '/' ∈ base.toList ∨ '/' ∈ path.toList := by
        rwa [← slash_mem_trim base, ← slash_mem_trim path, slash_mem_iff_of_cutEnd hnone.1,
          slash_mem_iff_of_cutStart hnone.2, ← not_and_or]
      rw [if_pos hslash, hnone.1, hnone.2]
      rfl
    case isFalse => exact String.toList_ofList

/-- A text without blank characters. -/
def Unspaced (text : String) : Prop :=
  ∀ c ∈ text.toList, Text.isBlank c = false

instance (text : String) : Decidable (Unspaced text) :=
  List.decidableBAll (fun c => Text.isBlank c = false) text.toList

theorem trim_eq_self {text : String} (h : Unspaced text) : Text.trim text = text := by
  obtain ⟨lead, trail, hlead, htrail, hsplit⟩ := Text.exists_around_stripped text.toList
  have hnone {around : List Char} (hblank : ∀ c ∈ around, Text.isBlank c = true)
      (hsub : around ⊆ text.toList) : around = [] := by
    cases around with
    | nil => rfl
    | cons c around =>
      have hc := hblank c List.mem_cons_self
      rw [h c (hsub List.mem_cons_self)] at hc
      cases hc
  have hlead' : lead = [] := hnone hlead (by rw [hsplit]; simp)
  have htrail' : trail = [] := hnone htrail (by rw [hsplit]; simp)
  rw [← String.toList_inj, Text.toList_trim]
  nth_rewrite 2 [hsplit]
  simp [hlead', htrail']

theorem cutStart_subset (text : List Char) : cutStart text ⊆ text :=
  List.dropWhile_subset _

theorem cutEnd_subset (text : List Char) : cutEnd text ⊆ text := by
  intro c hc
  rw [cutEnd_eq, List.mem_reverse] at hc
  exact List.mem_reverse.mp (cutStart_subset _ hc)

/-- Nothing but separators is added. -/
theorem mem_joined {c : Char} (h : c ∈ joined base path) : c = '/' ∨ c ∈ base ∨ c ∈ path := by
  by_cases hnone : base = [] ∧ path = []
  · rw [joined_eq_nil_iff.mpr hnone] at h
    cases h
  rw [joined_of_not_empty hnone] at h
  have hmeet : c = '/' ∨ c ∈ meet (cutEnd base) (cutStart path) := by
    unfold rooted at h
    split at h
    case isTrue => exact .inr h
    case isFalse => exact List.mem_cons.mp h
  rcases hmeet with hslash | hmem
  · exact .inl hslash
  unfold meet at hmem
  split at hmem
  case isTrue => exact .inr (.inr (cutStart_subset _ hmem))
  case isFalse =>
    split at hmem
    case isTrue => exact .inr (.inl (cutEnd_subset _ hmem))
    case isFalse =>
      rcases List.mem_append.mp hmem with hbase | hrest
      · exact .inr (.inl (cutEnd_subset _ hbase))
      · rcases List.mem_cons.mp hrest with hslash | hpath
        · exact .inl hslash
        · exact .inr (.inr (cutStart_subset _ hpath))

theorem toList_join_of_unspaced {base path : String} (hbase : Unspaced base)
    (hpath : Unspaced path) : (join base path).toList = joined base.toList path.toList := by
  rw [toList_join, trim_eq_self hbase, trim_eq_self hpath]

/-- A request path of paths without spaces around them has none either. -/
theorem unspaced_join {base path : String} (hbase : Unspaced base) (hpath : Unspaced path) :
    Unspaced (join base path) := by
  intro c hc
  rw [toList_join_of_unspaced hbase hpath] at hc
  rcases mem_joined hc with rfl | hmem | hmem
  · rfl
  · exact hbase c hmem
  · exact hpath c hmem

theorem join_assoc {first second third : String} (hfirst : Unspaced first)
    (hsecond : Unspaced second) (hthird : Unspaced third) :
    join (join first second) third = join first (join second third) := by
  rw [← String.toList_inj, toList_join_of_unspaced (unspaced_join hfirst hsecond) hthird,
    toList_join_of_unspaced hfirst (unspaced_join hsecond hthird),
    toList_join_of_unspaced hfirst hsecond, toList_join_of_unspaced hsecond hthird, joined_assoc]

/-! ### The whole -/

/-- For every path of a class and of a method, the request path has the segments of both in their
order. It is empty exactly if both are blank, and else it begins with a separator. If both have
segments, one separator stands between them. Separators come together in it exactly if they do in
what is left of one of the paths. Without blank characters, paths can be joined in any order. -/
theorem join_exact :
    (∀ base path : String,
      segments (join base path).toList =
        segments (Text.trim base).toList ++ segments (Text.trim path).toList ∧
      (join base path = "" ↔ Text.trim base = "" ∧ Text.trim path = "") ∧
      (join base path ≠ "" → (join base path).toList.head? = some '/') ∧
      (segments (Text.trim base).toList ≠ [] → segments (Text.trim path).toList ≠ [] →
        ∃ front back, (join base path).toList = front ++ '/' :: back ∧
          segments front = segments (Text.trim base).toList ∧
          segments back = segments (Text.trim path).toList ∧
          front.getLast? ≠ some '/' ∧ back.head? ≠ some '/') ∧
      (['/', '/'] <:+: (join base path).toList ↔
        ['/', '/'] <:+: head base ∨ ['/', '/'] <:+: tail path)) ∧
    ∀ first second third : String, Unspaced first → Unspaced second → Unspaced third →
      join (join first second) third = join first (join second third) := by
  refine ⟨?_, fun _ _ _ => join_assoc⟩
  intro base path
  have hempty : join base path = "" ↔ Text.trim base = "" ∧ Text.trim path = "" := by
    rw [← String.toList_eq_nil_iff, toList_join, joined_eq_nil_iff, String.toList_eq_nil_iff,
      String.toList_eq_nil_iff]
  refine ⟨?_, hempty, ?_, ?_, ?_⟩
  · rw [toList_join, segments_joined]
  · intro hne
    rw [toList_join, joined_of_not_empty]
    · exact head?_rooted _
    · rwa [String.toList_eq_nil_iff, String.toList_eq_nil_iff, ← hempty]
  · intro hbase hpath
    rw [toList_join]
    exact exists_seam hbase hpath
  · rw [toList_join, doubled_joined]
    rfl

/-- Blank characters and separators at the seam do not count, and those inside stay. -/
theorem join_exact_spacedPaths :
    join " /shop// " "\t//orders /" = "/shop/orders /" ∧
      segments "/shop/orders /".toList = ["shop".toList, "orders ".toList] ∧
      (∃ front back, "/shop/orders /".toList = front ++ '/' :: back ∧
        segments front = ["shop".toList] ∧ segments back = ["orders ".toList] ∧
        front.getLast? ≠ some '/' ∧ back.head? ≠ some '/') ∧
      join (join "shop//" "/") "//orders" = join "shop//" (join "/" "//orders") := by
  have hjoin : join " /shop// " "\t//orders /" = "/shop/orders /" := by decide
  have hbase : segments (Text.trim " /shop// ").toList = ["shop".toList] := by decide
  have hpath : segments (Text.trim "\t//orders /").toList = ["orders ".toList] := by decide
  obtain ⟨hpaths, hassoc⟩ := join_exact
  obtain ⟨hsegments, -, -, hseam, -⟩ := hpaths " /shop// " "\t//orders /"
  rw [hjoin, hbase, hpath] at hsegments hseam
  exact ⟨hjoin, hsegments, hseam (by decide) (by decide),
    hassoc _ _ _ (by decide) (by decide) (by decide)⟩

end CallForest.MappingPath
