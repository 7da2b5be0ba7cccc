import CallForest.Proofs.Json.RoundTrip
import CallForest.Report.Document

/-!
# Forests survive writing and reading

The document of a forest is read back as the forest. A node leaves out the flag that is not set, the
path that is not there and the empty list of verbs, and the reader puts these in for what is
missing, so that nothing is lost by leaving them out: a path that is not there is missing and an
empty path is an empty string.

The reader allows a limited number of brackets in each other. Every level of a tree takes two of
them, for the node and for the lists in it, and two more stand around all trees. The limit decides
only whether a document can be read and not what it says, so even forests that are too deep have
different documents.

## Main definitions

* `Json.nesting` — the number of brackets that stand in each other.

## Main results

* `CallTree.ofJson?_toJson` — a tree is read back if the brackets it takes are allowed;
* `EntryForest.ofJson?_toJson` — so is a forest;
* `CallTree.allToJson_injective` — different trees have different values;
* `ofDocument?_toDocument` — the document of a forest.
-/

namespace CallForest

/-! ### Nesting -/

namespace Json

mutual

/-- The number of brackets that stand in each other. -/
def nesting : Json → Nat
  | .array items => 1 + nestingAll items
  | .object members => 1 + nestingMembers members
  | _ => 0

/-- The number of brackets that stand in each other in any of several values. -/
def nestingAll : List Json → Nat
  | [] => 0
  | item :: rest => max item.nesting (nestingAll rest)

/-- The number of brackets that stand in each other in any member. -/
def nestingMembers : List (String × Json) → Nat
  | [] => 0
  | (_, value) :: rest => max value.nesting (nestingMembers rest)

end

/-- The nesting of members is that of the deepest one. -/
theorem nestingMembers_append (front back : List (String × Json)) :
    nestingMembers (front ++ back) = max (nestingMembers front) (nestingMembers back) := by
  induction front with
  | nil => simp [nestingMembers]
  | cons member rest ih => simp only [List.cons_append, nestingMembers, ih, Nat.max_assoc]

theorem nesting_strings (texts : List String) : (Json.strings texts).nesting = 1 := by
  have hall : nestingAll (texts.map .string) = 0 := by
    induction texts with
    | nil => rfl
    | cons text rest ih => simp [nestingAll, nesting, ih]
  rw [Json.strings, nesting, hall]

theorem membersLegible_append {front back : List (String × Json)} :
    MembersLegible (front ++ back) ↔ MembersLegible front ∧ MembersLegible back := by
  induction front with
  | nil => simp [MembersLegible]
  | cons member rest ih => simp only [List.cons_append, MembersLegible, ih, and_assoc]

theorem legible_strings (texts : List String) : (Json.strings texts).Legible := by
  rw [Json.strings, Legible]
  induction texts with
  | nil => exact trivial
  | cons text rest ih => exact ⟨trivial, ih⟩

/-! ### Members that may be missing -/

/-- A list of strings is read back. -/
theorem texts?_strings (texts : List String) : (Json.strings texts).texts? = some texts := by
  have hall : (texts.map Json.string).mapM text? = some texts := by
    induction texts with
    | nil => rfl
    | cons text rest ih => simp [text?, ih]
  simp [texts?, Json.strings, items?, hall]

theorem optional_some {α : Type} (default : α) (read : Json → Option α) (json : Json) :
    Json.optional default read (some json) = read json := rfl

end Json

open Json

namespace CallTree

/-- A node is read with all its members, those that were left out as missing. -/
theorem fields?_toJson (n : CallNode) (children : List CallTree) :
    (node n children).toJson.fields? CallNode.fieldNames =
      some [some (.string n.signature), some (.string n.className), some (.string n.methodName),
        some (.strings n.parameters), if n.isAbstract then some (.bool true) else none,
        n.mappingPath.map .string,
        if n.requestMethods.isEmpty then none else some (.strings n.requestMethods),
        some (.array (allToJson children))] := by
  rw [toJson, CallNode.fieldNames, fields?]
  cases n.isAbstract <;> cases n.mappingPath <;> cases n.requestMethods.isEmpty <;> simp

mutual

/-- Every level takes two brackets, that of the node and that of a list in it. -/
theorem nesting_toJson : (t : CallTree) → t.toJson.nesting = 2 * t.depth
  | .node n children => by
    have hchildren := nestingAll_allToJson children
    have habstract : nestingMembers (if n.isAbstract then [("is_abstract", .bool true)] else []) =
        0 := by
      split <;> rfl
    have hpath : nestingMembers
        (n.mappingPath.map fun path => ("mapping_path", Json.string path)).toList = 0 := by
      cases n.mappingPath <;> rfl
    have hverbs : nestingMembers (if n.requestMethods.isEmpty then []
        else [("request_methods", .strings n.requestMethods)]) ≤ 1 := by
      split <;> simp [nestingMembers, nesting_strings]
    rw [toJson, nesting, nestingMembers_append, nestingMembers_append, nestingMembers_append,
      nestingMembers_append, habstract, hpath, depth]
    -- The list of parameters is always there, so that a leaf takes two brackets as well.
    simp only [nestingMembers, nesting, nesting_strings, hchildren]
    omega

/-- Every level of trees takes two brackets: one for the node and one for the list of its
children. -/
theorem nestingAll_allToJson : (ts : List CallTree) →
    nestingAll (allToJson ts) = 2 * depthAll ts
  | [] => rfl
  | t :: rest => by
    rw [allToJson, nestingAll, depthAll, nesting_toJson t, nestingAll_allToJson rest]
    omega

end

/-- The flag is written only if it is set, and read as not set if it is missing. -/
theorem optional_isAbstract (n : CallNode) :
    Json.optional false truth? (if n.isAbstract then some (.bool true) else none) =
      some n.isAbstract := by
  cases n.isAbstract <;> rfl

/-- A path that is missing and one that is empty are told apart. -/
theorem optional_mappingPath (n : CallNode) :
    Json.optional none optionalText? (n.mappingPath.map .string) = some n.mappingPath := by
  cases n.mappingPath <;> rfl

/-- Verbs are written only if there are any, and read as none if they are missing. -/
theorem optional_requestMethods (n : CallNode) :
    Json.optional [] texts? (if n.requestMethods.isEmpty then none
      else some (.strings n.requestMethods)) = some n.requestMethods := by
  split
  · rename_i hempty
    rw [Json.optional, List.isEmpty_iff.mp hempty]
  · exact texts?_strings n.requestMethods

mutual

/-- A tree is written with strings, flags and lists alone, never with a number. -/
theorem legible_toJson : (t : CallTree) → t.toJson.Legible
  | .node n children => by
    have hchildren := allLegible_allToJson children
    have habstract : MembersLegible
        (if n.isAbstract then [("is_abstract", .bool true)] else []) := by
      split
      · exact ⟨trivial, trivial⟩
      · exact trivial
    have hpath : MembersLegible
        (n.mappingPath.map fun path => ("mapping_path", Json.string path)).toList := by
      cases n.mappingPath with
      | none => exact trivial
      | some path => exact ⟨trivial, trivial⟩
    have hverbs : MembersLegible (if n.requestMethods.isEmpty then []
        else [("request_methods", .strings n.requestMethods)]) := by
      split
      · exact trivial
      · exact ⟨legible_strings _, trivial⟩
    rw [toJson, Legible, membersLegible_append, membersLegible_append, membersLegible_append,
      membersLegible_append]
    exact ⟨⟨⟨⟨⟨trivial, trivial, trivial, legible_strings _, trivial⟩, habstract⟩, hpath⟩, hverbs⟩,
      hchildren, trivial⟩

theorem allLegible_allToJson : (ts : List CallTree) → AllLegible (allToJson ts)
  | [] => trivial
  | t :: rest => ⟨legible_toJson t, allLegible_allToJson rest⟩

end

mutual

/-- A tree is read back exactly when its brackets are within the levels that are left. -/
theorem ofJson?_toJson : (levels : Nat) → (t : CallTree) →
    ofJson? levels t.toJson = if 2 * t.depth ≤ levels then some t else none
  | 0, .node n children | 1, .node n children => by
    rw [ofJson?, depth, if_neg (by omega)]
  | levels + 2, .node n children => by
    have hchildren := mapM_ofJson?_allToJson levels children
    have hdepth : 2 * (node n children).depth ≤ levels + 2 ↔ 2 * depthAll children ≤ levels := by
      rw [depth]
      omega
    rw [ofJson?, fields?_toJson]
    simp only [required, text?, texts?_strings, optional_isAbstract, optional_mappingPath,
      optional_requestMethods, optional_some, items?, Option.bind_eq_bind, Option.bind_some,
      hchildren, hdepth]
    split <;> rfl

/-- Trees are read back if there are levels enough for the deepest one. -/
theorem mapM_ofJson?_allToJson : (levels : Nat) → (ts : List CallTree) →
    (allToJson ts).mapM (ofJson? levels) = if 2 * depthAll ts ≤ levels then some ts else none
  | levels, [] => by simp [allToJson, depthAll]
  | levels, t :: rest => by
    rw [allToJson, List.mapM_cons, ofJson?_toJson levels t, mapM_ofJson?_allToJson levels rest,
      depthAll]
    have hdepth : 2 * max t.depth (depthAll rest) ≤ levels ↔
        2 * t.depth ≤ levels ∧ 2 * depthAll rest ≤ levels := by
      omega
    by_cases ht : 2 * t.depth ≤ levels <;> by_cases hrest : 2 * depthAll rest ≤ levels <;>
      simp [hdepth, ht, hrest]

end

/-- Different trees have different values. -/
theorem allToJson_injective {ts us : List CallTree} (h : allToJson ts = allToJson us) :
    ts = us := by
  -- With enough levels for both, the one value is read as either list.
  have hts := mapM_ofJson?_allToJson (2 * depthAll ts + 2 * depthAll us) ts
  have hus := mapM_ofJson?_allToJson (2 * depthAll ts + 2 * depthAll us) us
  rw [if_pos (by omega)] at hts hus
  rw [h, hus] at hts
  exact (Option.some_inj.mp hts).symm

end CallTree

namespace EntryForest

/-- The two lists of a forest stand in brackets of their own. -/
theorem nesting_toJson (f : EntryForest) :
    f.toJson.nesting = 2 + 2 * max (CallTree.depthAll f.http) (CallTree.depthAll f.rpc) := by
  simp only [toJson, nesting, nestingMembers, CallTree.nestingAll_allToJson]
  omega

/-- A forest is read back if it is not nested too deep. -/
theorem ofJson?_toJson (f : EntryForest) :
    ofJson? f.toJson = if f.toJson.nesting ≤ maxBrackets then some f else none := by
  have hhttp := CallTree.mapM_ofJson?_allToJson (maxBrackets - 2) f.http
  have hrpc := CallTree.mapM_ofJson?_allToJson (maxBrackets - 2) f.rpc
  have hfields : f.toJson.fields? ["http", "rpc"] =
      some [some (.array (CallTree.allToJson f.http)),
        some (.array (CallTree.allToJson f.rpc))] := by
    simp [toJson, fields?]
  rw [ofJson?, hfields, nesting_toJson]
  simp only [required, items?, Option.bind_eq_bind, Option.bind_some, hhttp, hrpc]
  have hdepth : 2 + 2 * max (CallTree.depthAll f.http) (CallTree.depthAll f.rpc) ≤ maxBrackets ↔
      2 * CallTree.depthAll f.http ≤ maxBrackets - 2 ∧
        2 * CallTree.depthAll f.rpc ≤ maxBrackets - 2 := by
    rw [maxBrackets]
    omega
  by_cases hleft : 2 * CallTree.depthAll f.http ≤ maxBrackets - 2 <;>
    by_cases hright : 2 * CallTree.depthAll f.rpc ≤ maxBrackets - 2 <;>
      simp [hdepth, hleft, hright]

theorem toJson_injective {f g : EntryForest} (h : f.toJson = g.toJson) : f = g := by
  obtain ⟨http, rpc⟩ := f
  obtain ⟨http', rpc'⟩ := g
  simp only [toJson, Json.object.injEq, List.cons.injEq, Prod.mk.injEq, Json.array.injEq, true_and,
    and_true] at h
  rw [CallTree.allToJson_injective h.1, CallTree.allToJson_injective h.2]

/-- The document of a forest is the text of its value. -/
theorem parse?_toDocument (f : EntryForest) : Json.parse? f.toDocument = some f.toJson :=
  Json.parse?_pretty ⟨CallTree.allLegible_allToJson f.http, CallTree.allLegible_allToJson f.rpc,
    trivial⟩

end EntryForest

/-- The document of a forest is read back as the forest, with whatever texts are in it, if its
brackets are within the limit, and is refused otherwise. Forests with the same document are equal,
whether it can be read or not. -/
theorem ofDocument?_toDocument (f : EntryForest) :
    EntryForest.ofDocument? f.toDocument =
        (if f.toJson.nesting ≤ maxBrackets then some f else none) ∧
      ∀ g : EntryForest, g.toDocument = f.toDocument → g = f := by
  refine ⟨?_, ?_⟩
  · rw [EntryForest.ofDocument?, f.parse?_toDocument]
    exact f.ofJson?_toJson
  · intro g hsame
    have hread := g.parse?_toDocument
    rw [hsame, f.parse?_toDocument] at hread
    exact EntryForest.toJson_injective (Option.some_inj.mp hread).symm

/-- A forest whose texts need every kind of escape, with a path that is empty and one that is not
there. -/
def quotedForest : EntryForest where
  http := [.node
    { signature := "shop/Café#find \"all\"(\\)", className := "shop/Café",
      methodName := "find \"all\"", parameters := ["\\", ""], isAbstract := true,
      mappingPath := some "", requestMethods := ["GET", "\x01\t\n"] }
    [.node { signature := "", className := "", methodName := "", parameters := [] } []]]

theorem ofDocument?_toDocument_quotedForest :
    quotedForest.toJson.nesting = 6 ∧
      EntryForest.ofDocument? quotedForest.toDocument = some quotedForest ∧
      EntryForest.toDocument {} ≠ quotedForest.toDocument := by
  have hnesting : quotedForest.toJson.nesting = 6 := by
    rw [EntryForest.nesting_toJson]
    rfl
  refine ⟨hnesting, ?_, ?_⟩
  · rw [(ofDocument?_toDocument quotedForest).1, hnesting]
    rfl
  · intro hsame
    have hequal := (ofDocument?_toDocument quotedForest).2 {} hsame
    cases congrArg EntryForest.size hequal

end CallForest
