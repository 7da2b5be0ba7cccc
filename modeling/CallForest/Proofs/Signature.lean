import CallForest.Proofs.ParameterTypes
import CallForest.Proofs.Text.Mark

/-!
# Signatures as identities

A signature is one text, while dispatch compares the lists of parameter types. Both mean the same:
the first `#` of a signature ends the owner and the first `(` behind it ends the name, as long as
these have none of their own, and what stands between the parentheses is nothing but the parameter
types in their order. The type of the result comes after the closing parenthesis and does not count.

## Main definitions

* `Identifiable` — owner, name and descriptor can be told apart in a signature.

## Main results

* `Descriptor.inner_eq_iff` — parameter types agree exactly if what is between the parentheses does;
* `methodSignature_identifies` — signatures agree exactly if owner, name and parameter types do.
-/

namespace CallForest

/-- The marks between the parts of a signature do not come up too early, and the parameter types can
be told apart. -/
structure Identifiable (owner name descriptor : String) : Prop where
  owner_clear : '#' ∉ owner.toList
  name_clear : '(' ∉ name.toList
  opens : descriptor.toList.head? = some '('
  closes : ')' ∈ descriptor.toList
  divides : (Descriptor.parameters? descriptor).isSome = true

/-- The cut into parameter types can be undone. -/
theorem Descriptor.inner_eq_iff {descriptor descriptor' : String}
    (h : (parameters? descriptor).isSome = true) :
    inner descriptor.toList = inner descriptor'.toList ↔
      parameters? descriptor = parameters? descriptor' := by
  constructor
  · intro heq
    rw [parameters?, parameters?, heq]
  · intro heq
    obtain ⟨parameters, hparameters⟩ := Option.isSome_iff_exists.mp h
    rw [← join_parameters hparameters, ← join_parameters (heq ▸ hparameters)]

namespace Identifiable

variable {owner name descriptor owner' name' descriptor' : String}

theorem toList_methodSignature (h : Identifiable owner name descriptor) :
    (methodSignature owner name descriptor).toList = owner.toList ++
      '#' :: (name.toList ++ '(' :: (Descriptor.inner descriptor.toList ++ [')'])) := by
  simp [methodSignature, Descriptor.toList_identifying,
    Descriptor.identifyingChars_eq h.opens h.closes]

/-- Two methods share a signature exactly if class, name and parameters are the same. -/
theorem methodSignature_eq_iff (h : Identifiable owner name descriptor)
    (h' : Identifiable owner' name' descriptor') :
    methodSignature owner name descriptor = methodSignature owner' name' descriptor' ↔
      owner = owner' ∧ name = name' ∧
        Descriptor.parameters? descriptor = Descriptor.parameters? descriptor' := by
  -- The first `#` ends both owners, and then the first `(` ends both names.
  rw [← String.toList_inj, h.toList_methodSignature, h'.toList_methodSignature,
    Text.append_mark_inj h.owner_clear h'.owner_clear,
    Text.append_mark_inj h.name_clear h'.name_clear, List.append_left_inj, String.toList_inj,
    String.toList_inj, Descriptor.inner_eq_iff h.divides]

end Identifiable

/-- Two signatures agree if and only if owners, names and parameter types do, whatever the types of
the results. So a call and a method have one signature if and only if the call names the owner, the
name and the parameter types of the method. -/
theorem methodSignature_identifies {owner name descriptor owner' name' descriptor' : String}
    (h : Identifiable owner name descriptor) (h' : Identifiable owner' name' descriptor') :
    (methodSignature owner name descriptor = methodSignature owner' name' descriptor' ↔
      owner = owner' ∧ name = name' ∧
        Descriptor.parameters? descriptor = Descriptor.parameters? descriptor') ∧
    ∀ info : ClassInfo, info.name = owner' → ∃ site record,
      CallSite.of? owner name descriptor = some site ∧
      MethodRecord.of? info name' descriptor' = some record ∧
      (site.signature = record.signature ↔
        site.owner = record.owner.name ∧ site.name = record.name ∧
          site.parameters = record.parameters) := by
  have hsame := h.methodSignature_eq_iff h'
  refine ⟨hsame, ?_⟩
  intro info hinfo
  subst hinfo
  obtain ⟨parameters, hparameters⟩ := Option.isSome_iff_exists.mp h.divides
  obtain ⟨parameters', hparameters'⟩ := Option.isSome_iff_exists.mp h'.divides
  rw [hparameters, hparameters', Option.some.injEq] at hsame
  have hsite : CallSite.of? owner name descriptor = some
      { signature := methodSignature owner name descriptor, owner, name, descriptor,
        parameters } := by
    rw [CallSite.of?, hparameters, Option.map_some]
  have hrecord : MethodRecord.of? info name' descriptor' = some
      { signature := methodSignature info.name name' descriptor', name := name',
        descriptor := descriptor', parameters := parameters', owner := info } := by
    rw [MethodRecord.of?, hparameters', Option.map_some]
  exact ⟨_, _, hsite, hrecord, hsame⟩

/-- The marks may come up again further on, and a call may expect another result. -/
theorem methodSignature_identifies_markedNames :
    Identifiable "shop/Orders(1)" "find#all" "(ILshop/Café;)V" ∧
      Identifiable "shop/Orders(1)" "find#all" "(ILshop/Café;)J" ∧
      methodSignature "shop/Orders(1)" "find#all" "(ILshop/Café;)V" =
        methodSignature "shop/Orders(1)" "find#all" "(ILshop/Café;)J" ∧
      ∃ site record,
        CallSite.of? "shop/Orders(1)" "find#all" "(ILshop/Café;)V" = some site ∧
        MethodRecord.of? { name := "shop/Orders(1)" } "find#all" "(ILshop/Café;)J" = some record ∧
        (site.signature = record.signature ↔
          site.owner = record.owner.name ∧ site.name = record.name ∧
            site.parameters = record.parameters) := by
  have hcall : Identifiable "shop/Orders(1)" "find#all" "(ILshop/Café;)V" := by
    constructor <;> decide
  have hmethod : Identifiable "shop/Orders(1)" "find#all" "(ILshop/Café;)J" := by
    constructor <;> decide
  have hparameters : Descriptor.parameters? "(ILshop/Café;)V" =
      Descriptor.parameters? "(ILshop/Café;)J" := by
    decide
  obtain ⟨hsame, hsites⟩ := methodSignature_identifies hcall hmethod
  exact ⟨hcall, hmethod, hsame.mpr ⟨rfl, rfl, hparameters⟩, hsites _ rfl⟩

end CallForest
