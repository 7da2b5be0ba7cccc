import CallForest.EntryPoint
import Mathlib.Logic.Relation

/-!
# How methods are entered

The first web mapping among the annotations of a method decides how it is entered, and nothing else
about the method or its class has a say in it. Without a web mapping it depends on the service
markers of the method and of its class, and on the shape of the method. So annotations of other
types can be put in, taken out and moved about anywhere, and with a web mapping present the service
markers as well.

Values of annotations nest in arrays. Only what is in the arrays counts, in its order.

## Main definitions

* `ElementValue.leaves` — the values that are no arrays, however deep they are nested;
* `AnnotationUse.IsWebMapping`, `AnnotationUse.Maps` — web mappings, and the entry that one stands
  for;
* `Edit`, `Edited` — one list comes from another by inserting, deleting and moving members;
* `EntryPoint.IsRemote` — a method that belongs to a remote service.

## Main results

* `ElementValue.Collects.eq_leaves` — what is gathered from a value comes from its leaves;
* `Ignores.eq_of_edited` — what ignores some members is not changed by any edits of them;
* `EntryPoint.exists_maps_of_first`, `EntryPoint.classify_of_unmapped` — the two ways to an entry;
* `EntryPoint.classify_exact` — how every method is entered, and what never changes it.
-/

namespace CallForest

/-! ### Flattened values -/

namespace ElementValue

mutual

/-- The values in a value that are no arrays, in their order. -/
def leaves : ElementValue → List ElementValue
  | .array values => leavesAll values
  | value => [value]

/-- The leaves of several values, in their order. -/
def leavesAll : List ElementValue → List ElementValue
  | [] => []
  | value :: rest => leaves value ++ leavesAll rest

end

/-- The text of a constant. -/
def constant? : ElementValue → Option String
  | .const text => some text
  | _ => none

/-- The name of a constant of an enumeration. -/
def enumName? : ElementValue → Option String
  | .enum _ name => some name
  | _ => none

/-- `collect` gathers what `pick?` gives for the values in a value, and `collectAll` does so for
several values. -/
structure Collects (collect : ElementValue → List String)
    (collectAll : List ElementValue → List String) (pick? : ElementValue → Option String) :
    Prop where
  array : ∀ values, collect (.array values) = collectAll values
  leaf : ∀ value, (∀ values, value ≠ .array values) → collect value = (pick? value).toList
  nil : collectAll [] = []
  cons : ∀ value rest, collectAll (value :: rest) = collect value ++ collectAll rest

theorem leaves_of_ne_array {value : ElementValue} (h : ∀ values, value ≠ .array values) :
    value.leaves = [value] := by
  cases value with
  | array values => exact absurd rfl (h values)
  | _ => rfl

section

variable {collect : ElementValue → List String} {collectAll : List ElementValue → List String}
  {pick? : ElementValue → Option String}

theorem Collects.eq_of_leaf (h : Collects collect collectAll pick?) {value : ElementValue}
    (hleaf : ∀ values, value ≠ .array values) :
    collect value = value.leaves.filterMap pick? := by
  rw [h.leaf value hleaf, leaves_of_ne_array hleaf]
  cases hpick : pick? value <;> simp [hpick]

mutual

/-- However the arrays nest, what is gathered comes from the leaves in their order. -/
theorem Collects.eq_leaves (h : Collects collect collectAll pick?) :
    (value : ElementValue) → collect value = value.leaves.filterMap pick?
  | .array values => by rw [h.array, leaves, h.eq_leavesAll values]
  | .const _ => h.eq_of_leaf (by simp)
  | .enum _ _ => h.eq_of_leaf (by simp)
  | .classLiteral _ => h.eq_of_leaf (by simp)
  | .nested _ _ => h.eq_of_leaf (by simp)

/-- The same for several values. -/
theorem Collects.eq_leavesAll (h : Collects collect collectAll pick?) :
    (values : List ElementValue) → collectAll values = (leavesAll values).filterMap pick?
  | [] => h.nil
  | value :: rest => by
    rw [h.cons, leavesAll, List.filterMap_append, h.eq_leaves value, h.eq_leavesAll rest]

end

end

theorem collects_strings : Collects strings stringsAll constant? where
  array _ := by rw [strings]
  leaf value h := by
    cases value with
    | array values => exact absurd rfl (h values)
    | _ => simp [strings, constant?]
  nil := by rw [stringsAll]
  cons _ _ := by rw [stringsAll]

theorem collects_enumNames : Collects enumNames enumNamesAll enumName? where
  array _ := by rw [enumNames]
  leaf value h := by
    cases value with
    | array values => exact absurd rfl (h values)
    | _ => simp [enumNames, enumName?]
  nil := by rw [enumNamesAll]
  cons _ _ := by rw [enumNamesAll]

end ElementValue

/-! ### Web mappings -/

/-- The first text of a list that is not empty, and the empty text if there is none. -/
def IsFirstText (texts : List String) (text : String) : Prop :=
  (∃ before after, texts = before ++ text :: after ∧ (∀ t ∈ before, t = "") ∧ text ≠ "") ∨
    text = "" ∧ ∀ t ∈ texts, t = ""

/-- Looking for the first text that is not empty finds it. -/
theorem isFirstText_find? (texts : List String) :
    IsFirstText texts ((texts.find? (· ≠ "")).getD "") := by
  cases hfind : texts.find? (· ≠ "") with
  | none =>
    refine .inr ⟨rfl, ?_⟩
    intro t ht
    simpa using List.find?_eq_none.mp hfind t ht
  | some text =>
    obtain ⟨hne, before, after, hsplit, hbefore⟩ := List.find?_eq_some_iff_append.mp hfind
    refine .inl ⟨before, after, hsplit, ?_, by simpa using hne⟩
    intro t ht
    simpa using hbefore t ht

namespace AnnotationUse

/-- The leaves of the value under a name. -/
def leaves (a : AnnotationUse) (name : String) : List ElementValue :=
  ((a.element? name).map ElementValue.leaves).getD []

/-- The annotation maps web requests, of any verb or of one. -/
def IsWebMapping (a : AnnotationUse) : Prop :=
  a.type = requestMapping ∨ ∃ verb, (a.type, verb) ∈ verbMappings

/-- The annotation marks a remote service. -/
def IsMarker (a : AnnotationUse) : Prop :=
  a.type ∈ serviceMarkers

/-- The entry that a web mapping stands for. -/
structure Maps (a : AnnotationUse) (entry : EntryPoint) : Prop where
  kind : entry.kind = .http
  /-- The path is the first text under `value` or else under `path` that is not empty. -/
  path : IsFirstText ((a.leaves "value" ++ a.leaves "path").filterMap ElementValue.constant?)
    entry.path
  /-- The general mapping names its verbs. -/
  named : a.type = requestMapping →
    entry.requestMethods = (a.leaves "method").filterMap ElementValue.enumName?
  /-- The other mappings have one verb each. -/
  implied : ∀ verb, (a.type, verb) ∈ verbMappings → entry.requestMethods = [verb]

/-- The strings of an element are the constants among its leaves. -/
theorem strings_eq (a : AnnotationUse) (name : String) :
    a.strings name = (a.leaves name).filterMap ElementValue.constant? := by
  unfold strings leaves
  cases a.element? name with
  | none => rfl
  | some value => exact ElementValue.collects_strings.eq_leaves value

/-- The names that an element lists are those among its leaves. -/
theorem enumNames_eq (a : AnnotationUse) (name : String) :
    a.enumNames name = (a.leaves name).filterMap ElementValue.enumName? := by
  unfold enumNames leaves
  cases a.element? name with
  | none => rfl
  | some value => exact ElementValue.collects_enumNames.eq_leaves value

theorem isFirstText_mappingPath (a : AnnotationUse) :
    IsFirstText ((a.leaves "value" ++ a.leaves "path").filterMap ElementValue.constant?)
      a.mappingPath := by
  rw [List.filterMap_append, ← strings_eq, ← strings_eq]
  exact isFirstText_find? _

theorem isServiceMarker_iff {a : AnnotationUse} : a.isServiceMarker = true ↔ a.IsMarker :=
  List.contains_iff_mem

/-- No mapping is of both kinds. -/
theorem requestMapping_not_mem : ∀ pair ∈ verbMappings, pair.1 ≠ requestMapping := by
  decide

/-- No mapping has two verbs. -/
theorem verb_unique : ∀ pair ∈ verbMappings, ∀ pair' ∈ verbMappings,
    pair.1 = pair'.1 → pair.2 = pair'.2 := by
  decide

theorem maps_of_webMapping? {a : AnnotationUse} {entry : EntryPoint}
    (h : a.webMapping? = some entry) : a.Maps entry := by
  unfold webMapping? at h
  split at h
  case isTrue htype =>
    obtain rfl := Option.some.inj h
    refine ⟨rfl, a.isFirstText_mappingPath, fun _ => a.enumNames_eq "method", ?_⟩
    intro verb hverb
    exact absurd htype (requestMapping_not_mem _ hverb)
  case isFalse htype =>
    obtain ⟨pair, hfind, rfl⟩ := Option.map_eq_some_iff.mp h
    refine ⟨rfl, a.isFirstText_mappingPath, fun hgeneral => absurd hgeneral htype, ?_⟩
    intro verb hverb
    have hpair : pair.1 = a.type := by simpa using List.find?_some hfind
    have heq : pair.2 = verb :=
      verb_unique pair (List.mem_of_find?_eq_some hfind) (a.type, verb) hverb hpair
    rw [← heq]

/-- Only an annotation that is no web mapping gives none. -/
theorem webMapping?_eq_none_iff {a : AnnotationUse} :
    a.webMapping? = none ↔ ¬ a.IsWebMapping := by
  unfold webMapping? IsWebMapping
  split
  case isTrue htype => simp [htype]
  case isFalse htype =>
    rw [Option.map_eq_none_iff, List.find?_eq_none, or_iff_right htype]
    constructor
    · intro h hverb
      obtain ⟨verb, hmem⟩ := hverb
      simpa using h _ hmem
    · intro h pair hmem heq
      exact h ⟨pair.2, of_decide_eq_true heq ▸ hmem⟩

instance (a : AnnotationUse) : Decidable a.IsWebMapping :=
  decidable_of_iff (¬ a.webMapping? = none) (by rw [webMapping?_eq_none_iff, Classical.not_not])

end AnnotationUse

/-! ### Edits -/

/-- One list comes from another by inserting, deleting or moving one member that is `free`. -/
inductive Edit {α : Type} (free : α → Prop) : List α → List α → Prop
  | insert (front back : List α) {a : α} (ha : free a) :
      Edit free (front ++ back) (front ++ a :: back)
  | delete (front back : List α) {a : α} (ha : free a) :
      Edit free (front ++ a :: back) (front ++ back)
  | later (front between back : List α) {a : α} (ha : free a) :
      Edit free (front ++ a :: (between ++ back)) (front ++ (between ++ a :: back))
  | earlier (front between back : List α) {a : α} (ha : free a) :
      Edit free (front ++ (between ++ a :: back)) (front ++ a :: (between ++ back))

/-- One list comes from another by any number of edits. -/
def Edited {α : Type} (free : α → Prop) : List α → List α → Prop :=
  Relation.ReflTransGen (Edit free)

/-- Nothing free has a say in `result`, wherever it stands. -/
def Ignores {α β : Type} (result : List α → β) (free : α → Prop) : Prop :=
  ∀ front back a, free a → result (front ++ a :: back) = result (front ++ back)

section

variable {α β : Type} {free : α → Prop} {result : List α → β} {items items' : List α}

theorem Ignores.mono {free' : α → Prop} (hresult : Ignores result free)
    (hfree : ∀ a, free' a → free a) : Ignores result free' :=
  fun front back a ha => hresult front back a (hfree a ha)

/-- What has no say in the result can be put in, left out or moved. -/
theorem Ignores.eq_of_edit (hresult : Ignores result free) (h : Edit free items items') :
    result items' = result items := by
  -- To move a member is to delete it in one place and to insert it in another.
  have hmoved (front between back : List α) {a : α} (ha : free a) :
      result (front ++ (between ++ a :: back)) = result (front ++ a :: (between ++ back)) := by
    rw [← List.append_assoc, hresult _ back a ha, hresult front _ a ha, List.append_assoc]
  cases h with
  | insert front back ha => exact hresult front back _ ha
  | delete front back ha => exact (hresult front back _ ha).symm
  | later front between back ha => exact hmoved front between back ha
  | earlier front between back ha => exact (hmoved front between back ha).symm

/-- Any number of such edits leave the result as it is. -/
theorem Ignores.eq_of_edited (hresult : Ignores result free) (h : Edited free items items') :
    result items' = result items := by
  induction h with
  | refl => rfl
  | tail _ hedit ih => rw [hresult.eq_of_edit hedit, ih]

end

/-! ### Classification -/

namespace EntryPoint

/-- The method is marked as a service, or its class is and the method is public, not static, not
synthetic and no initializer. -/
def IsRemote (classAnnotations : List AnnotationUse) (method : MethodShape)
    (annotations : List AnnotationUse) : Prop :=
  (∃ a ∈ annotations, a.IsMarker) ∨
    (∃ a ∈ classAnnotations, a.IsMarker) ∧ method.isPublic = true ∧ method.isStatic = false ∧
      method.isSynthetic = false ∧ method.name.toList.head? ≠ some '<'

variable {mapping : ClassMapping} {method : MethodShape} {annotations : List AnnotationUse}
  {entry : EntryPoint}

/-- Only web mappings have a say in which one is found. -/
theorem ignores_webMapping? :
    Ignores (List.findSome? AnnotationUse.webMapping?) fun a => ¬ a.IsWebMapping := by
  intro front back a ha
  rw [List.findSome?_append, List.findSome?_append, List.findSome?_cons,
    AnnotationUse.webMapping?_eq_none_iff.mpr ha]

/-- Only markers have a say in whether there is one. -/
theorem ignores_isServiceMarker :
    Ignores (fun annotations => annotations.any AnnotationUse.isServiceMarker)
      fun a => ¬ a.IsMarker := by
  intro front back a ha
  have hmarker : a.isServiceMarker = false := by
    rwa [← Bool.not_eq_true, AnnotationUse.isServiceMarker_iff]
  simp [hmarker]

/-- The first web mapping decides, whatever else is there. -/
theorem classify_of_mapped (h : annotations.findSome? AnnotationUse.webMapping? = some entry) :
    classify mapping method annotations = entry := by
  rw [classify, h]

theorem findSome?_webMapping?_eq_none_iff :
    annotations.findSome? AnnotationUse.webMapping? = none ↔
      ∀ a ∈ annotations, ¬ a.IsWebMapping := by
  rw [List.findSome?_eq_none_iff]
  simp only [AnnotationUse.webMapping?_eq_none_iff]

theorem isRemote_iff {classAnnotations : List AnnotationUse} :
    IsRemote classAnnotations method annotations ↔
      (annotations.any AnnotationUse.isServiceMarker ||
        ((ClassMapping.of classAnnotations).isService && method.isServiceMethod)) = true := by
  simp [IsRemote, ClassMapping.of, MethodShape.isServiceMethod,
    AnnotationUse.isServiceMarker_iff, and_assoc]

/-- Without a web mapping, markers and the shape of the method decide. -/
theorem classify_of_unmapped {classAnnotations : List AnnotationUse}
    (h : ∀ a ∈ annotations, ¬ a.IsWebMapping) :
    IsRemote classAnnotations method annotations ∧
        classify (.of classAnnotations) method annotations = { kind := .rpc } ∨
      ¬ IsRemote classAnnotations method annotations ∧
        classify (.of classAnnotations) method annotations = { kind := .closed } := by
  have heq : classify (.of classAnnotations) method annotations =
      if annotations.any AnnotationUse.isServiceMarker ||
          ((ClassMapping.of classAnnotations).isService && method.isServiceMethod)
      then { kind := .rpc } else { kind := .closed } := by
    rw [classify, findSome?_webMapping?_eq_none_iff.mpr h]
  rw [heq, isRemote_iff]
  split
  case isTrue hremote => exact .inl ⟨hremote, rfl⟩
  case isFalse hremote => exact .inr ⟨hremote, rfl⟩

/-- With a web mapping, an entry by web requests is found. -/
theorem exists_http_of_mapped (h : ∃ a ∈ annotations, a.IsWebMapping) : ∃ entry,
    annotations.findSome? AnnotationUse.webMapping? = some entry ∧ entry.kind = .http := by
  cases hfound : annotations.findSome? AnnotationUse.webMapping? with
  | none =>
    obtain ⟨a, hmem, ha⟩ := h
    exact absurd ha (findSome?_webMapping?_eq_none_iff.mp hfound a hmem)
  | some entry =>
    obtain ⟨a, _, hentry⟩ := List.exists_of_findSome?_eq_some hfound
    exact ⟨entry, rfl, (AnnotationUse.maps_of_webMapping? hentry).kind⟩

/-- The first web mapping decides alone. -/
theorem exists_maps_of_first {before : List AnnotationUse} {a : AnnotationUse}
    (ha : a.IsWebMapping) (hbefore : ∀ b ∈ before, ¬ b.IsWebMapping)
    (after : List AnnotationUse) : ∃ entry,
    (before ++ a :: after).findSome? AnnotationUse.webMapping? = some entry ∧ a.Maps entry := by
  cases hentry : a.webMapping? with
  | none => exact absurd ha (AnnotationUse.webMapping?_eq_none_iff.mp hentry)
  | some entry =>
    refine ⟨entry, ?_, AnnotationUse.maps_of_webMapping? hentry⟩
    rw [List.findSome?_append, findSome?_webMapping?_eq_none_iff.mpr hbefore, Option.none_or,
      List.findSome?_cons, hentry]

/-- For all annotations of a class and of a method of any shape: the method is entered by web
requests exactly if it has a web mapping, and then path and verbs are those of the first one. Else
it belongs to a remote service exactly if it is marked itself, or if its class is and the method is
public, not static, not synthetic and no initializer, and else it is not entered at all. Edits of
annotations of other types do not change this, and with a web mapping neither do edits of service
markers, the class or the shape of the method. -/
theorem classify_exact {classAnnotations annotations : List AnnotationUse} {method : MethodShape}
    {entry : EntryPoint} (hentry : classify (.of classAnnotations) method annotations = entry) :
    (entry.kind = .http ↔ ∃ a ∈ annotations, a.IsWebMapping) ∧
    (∀ before a after, annotations = before ++ a :: after → a.IsWebMapping →
      (∀ b ∈ before, ¬ b.IsWebMapping) → a.Maps entry) ∧
    ((∀ a ∈ annotations, ¬ a.IsWebMapping) →
      (entry.kind = .rpc ↔ IsRemote classAnnotations method annotations) ∧
      (entry.kind = .closed ↔ ¬ IsRemote classAnnotations method annotations) ∧
      entry.path = "" ∧ entry.requestMethods = []) ∧
    (∀ classOther other, Edited (fun a => ¬ a.IsMarker) classAnnotations classOther →
      Edited (fun a => ¬ a.IsWebMapping ∧ ¬ a.IsMarker) annotations other →
      classify (.of classOther) method other = entry) ∧
    ((∃ a ∈ annotations, a.IsWebMapping) → ∀ classOther shape other,
      Edited (fun a => ¬ a.IsWebMapping) annotations other →
      classify (.of classOther) shape other = entry) := by
  subst hentry
  refine ⟨?_, ?_, ?_, ?_, ?_⟩
  · constructor
    · intro hhttp
      by_cases hmapped : ∃ a ∈ annotations, a.IsWebMapping
      · exact hmapped
      · have hunmapped : ∀ a ∈ annotations, ¬ a.IsWebMapping :=
          fun a hmem ha => hmapped ⟨a, hmem, ha⟩
        rcases classify_of_unmapped hunmapped with ⟨_, heq⟩ | ⟨_, heq⟩
        · rw [heq] at hhttp
          cases hhttp
        · rw [heq] at hhttp
          cases hhttp
    · intro hmapped
      obtain ⟨entry, hfound, hkind⟩ := exists_http_of_mapped hmapped
      rw [classify_of_mapped hfound, hkind]
  · intro before a after hsplit ha hbefore
    obtain ⟨entry, hfound, hmaps⟩ := exists_maps_of_first ha hbefore after
    rw [hsplit, classify_of_mapped hfound]
    exact hmaps
  · intro hunmapped
    rcases classify_of_unmapped hunmapped with ⟨hremote, heq⟩ | ⟨hremote, heq⟩
    · rw [heq]
      exact ⟨by simp [hremote], by simp [hremote], rfl, rfl⟩
    · rw [heq]
      exact ⟨by simp [hremote], by simp [hremote], rfl, rfl⟩
  · intro classOther other hclass hmethod
    have hfound := (ignores_webMapping?.mono fun _ => And.left).eq_of_edited hmethod
    have hmarked := (ignores_isServiceMarker.mono fun _ => And.right).eq_of_edited hmethod
    have hservice := ignores_isServiceMarker.eq_of_edited hclass
    unfold classify ClassMapping.of
    rw [hfound, hmarked, hservice]
  · intro hmapped classOther shape other hedited
    obtain ⟨entry, hfound, _⟩ := exists_http_of_mapped hmapped
    have hother := ignores_webMapping?.eq_of_edited hedited
    rw [classify_of_mapped hfound, classify_of_mapped (hother.trans hfound)]

/-- A mapping with its path in an array in an array, behind an empty one. -/
def listingMapping : AnnotationUse where
  type := "Lorg/springframework/web/bind/annotation/GetMapping;"
  elements := [("value", .array [.const "", .array [.const "/orders"]])]

/-- An annotation that says nothing about entries. -/
def deprecation : AnnotationUse where
  type := "Ljava/lang/Deprecated;"
  elements := []

/-- The annotation of a remote service. -/
def serviceMarker : AnnotationUse where
  type := "Lorg/apache/dubbo/config/annotation/DubboService;"
  elements := []

theorem classify_exact_listingMapping :
    classify (.of [serviceMarker]) ⟨"list", true, false, false⟩
        [deprecation, listingMapping, serviceMarker] =
      { kind := .http, path := "/orders", requestMethods := ["GET"] } ∧
    listingMapping.Maps { kind := .http, path := "/orders", requestMethods := ["GET"] } ∧
    classify (.of []) ⟨"<init>", false, false, false⟩ [listingMapping, deprecation] =
      { kind := .http, path := "/orders", requestMethods := ["GET"] } ∧
    classify (.of [serviceMarker]) ⟨"list", true, false, false⟩ [deprecation] =
      { kind := .rpc } ∧
    IsRemote [serviceMarker] ⟨"list", true, false, false⟩ [deprecation] := by
  have hentry : classify (.of [serviceMarker]) ⟨"list", true, false, false⟩
      [deprecation, listingMapping, serviceMarker] =
        { kind := .http, path := "/orders", requestMethods := ["GET"] } := by
    decide
  have hremote : classify (.of [serviceMarker]) ⟨"list", true, false, false⟩ [deprecation] =
      { kind := .rpc } := by
    decide
  have hmapped : listingMapping.IsWebMapping := by decide
  have hother : ¬ deprecation.IsWebMapping := by decide
  have hmarker : ¬ serviceMarker.IsWebMapping := by decide
  obtain ⟨hhttp, hfirst, -, -, hedits⟩ := classify_exact hentry
  obtain ⟨-, -, hrest, -, -⟩ := classify_exact hremote
  have hedited : Edited (fun a => ¬ a.IsWebMapping)
      [deprecation, listingMapping, serviceMarker] [listingMapping, deprecation] :=
    .tail (.single (.later [] [listingMapping] [serviceMarker] hother))
      (.delete [listingMapping, deprecation] [] hmarker)
  refine ⟨hentry, ?_, ?_, hremote, ?_⟩
  · exact hfirst [deprecation] _ _ rfl hmapped (List.forall_mem_singleton.mpr hother)
  · exact hedits (hhttp.mp rfl) [] _ _ hedited
  · exact (hrest (List.forall_mem_singleton.mpr hother)).1.mp rfl

end EntryPoint

end CallForest
