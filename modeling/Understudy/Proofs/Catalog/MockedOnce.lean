import Mathlib.Data.List.Pairwise
import Understudy.Proofs.Catalog.Distinct

/-! # Functions mocked more than once

To C++ a parameter's type is its canonical form, and qualifiers on the parameter itself do not
belong to it. A catalog tells functions apart by the spellings of their parameter types, so it mocks
a function twice exactly when two of its declarations are spelled differently, each the first that
is spelled so, and nothing stands in the way of either.
-/

namespace Understudy

namespace CType

/-- The type that a parameter has to C++: without aliases, and without qualifiers on the parameter
itself. A reference has none, and those of an array belong to its elements. -/
def parameterType (type : CType) : CType :=
  let canonical := type.canonical
  if canonical.reference = .none ∧ canonical.extents = [] then
    canonical.mapWritten (·.mapOutermost fun _ => {})
  else canonical

end CType

namespace Declaration

variable {a b d e : Declaration} {declarations : List Declaration}

def parameterTypes (d : Declaration) : List CType := d.parameters.map fun p => p.type.parameterType

/-- One function to C++: the same name, constness and parameter types. -/
def SameFunction (a b : Declaration) : Prop :=
  a.qualifiedName = b.qualifiedName ∧ a.traits.isConst = b.traits.isConst ∧
    a.parameterTypes = b.parameterTypes

instance : DecidableRel SameFunction := fun _ _ => inferInstanceAs (Decidable (_ ∧ _ ∧ _))

/-- The first declaration of its spellings in a list. -/
def IsFirst (declarations : List Declaration) (d : Declaration) : Prop :=
  declarations.find? d.redeclares = some d

instance : Std.Symm fun a b : Declaration => ¬ a.SameFunction b where
  symm _ _ h hsame := h ⟨hsame.1.symm, hsame.2.1.symm, hsame.2.2.symm⟩

/-- Two declarations of one function that are told apart differ in their spellings. -/
theorem SameFunction.signature_eq_iff (h : a.SameFunction b) :
    a.signature = b.signature ↔ a.spellings = b.spellings := by
  simp [signature, h.1, h.2.1]

/-- The entries are what the first declarations are pooled into. -/
theorem mem_distinct_iff :
    e ∈ distinct declarations ↔
      ∃ d : Declaration, d.IsFirst declarations ∧ e = d.pooled declarations := by
  have hcollects := collects_distinct declarations
  constructor
  · intro he
    obtain ⟨first, hfirst, hpooled⟩ := hcollects.pooled e he
    refine ⟨first, ?_, hpooled⟩
    have hsignature : first.signature = e.signature := by rw [hpooled, signature_pooled]
    rwa [IsFirst, redeclares_congr hsignature]
  · rintro ⟨d, hd, rfl⟩
    obtain ⟨e, he, hsame⟩ := hcollects.covers d (List.mem_of_find?_eq_some hd)
    obtain ⟨first, hfirst, hpooled⟩ := hcollects.pooled e he
    rw [← redeclares_congr (redeclares_iff.mp hsame), hd, Option.some.injEq] at hfirst
    rwa [hfirst, ← hpooled]

end Declaration

namespace Catalog

variable {book : RuleBook} {declarations : List Declaration}

/-- Declarations of one function that could both be mocked are spelled alike. -/
def SpelledAlike (book : RuleBook) (declarations : List Declaration) : Prop :=
  ∀ a b : Declaration, a.IsFirst declarations → b.IsFirst declarations →
    (book.analyse (a.pooled declarations)).isMockable = true →
    (book.analyse (b.pooled declarations)).isMockable = true →
    a.SameFunction b → a.spellings = b.spellings

/-- A catalog mocks no function twice exactly when the declarations of each function that it could
mock are spelled alike. -/
theorem mocks_once_iff_spelledAlike (book : RuleBook) (declarations : List Declaration) :
    ((ofDeclarations book declarations).mockable.Pairwise fun a b =>
      ¬ a.declaration.SameFunction b.declaration) ↔ SpelledAlike book declarations := by
  have hentries : ((ofDeclarations book declarations).mockable.Pairwise fun a b =>
      ¬ a.declaration.SameFunction b.declaration) ↔
        ((Declaration.distinct declarations).filter fun d => (book.analyse d).isMockable).Pairwise
          fun a b => ¬ a.SameFunction b := by
    rw [← map_declaration_mockable, List.pairwise_map]
  rw [hentries]
  constructor
  · intro hapart a b ha hb hmockA hmockB hsame
    by_contra hspellings
    have hmem {d : Declaration} (hd : d.IsFirst declarations)
        (hmock : (book.analyse (d.pooled declarations)).isMockable = true) :
        d.pooled declarations ∈
          (Declaration.distinct declarations).filter fun d => (book.analyse d).isMockable :=
      List.mem_filter.mpr ⟨Declaration.mem_distinct_iff.mpr ⟨d, hd, rfl⟩, hmock⟩
    have hne : a.pooled declarations ≠ b.pooled declarations := by
      intro heq
      have hsignature := congrArg Declaration.signature heq
      exact hspellings (hsame.signature_eq_iff.mp hsignature)
    exact hapart.forall (hmem ha hmockA) (hmem hb hmockB) hne hsame
  · intro halike
    have hdistinct := (Declaration.collects_distinct declarations).distinct.filter
      fun d => (book.analyse d).isMockable
    refine hdistinct.imp_of_mem fun {a b} ha hb hne hsame => hne ?_
    obtain ⟨hmemA, hmockA⟩ := List.mem_filter.mp ha
    obtain ⟨hmemB, hmockB⟩ := List.mem_filter.mp hb
    obtain ⟨firstA, hfirstA, rfl⟩ := Declaration.mem_distinct_iff.mp hmemA
    obtain ⟨firstB, hfirstB, rfl⟩ := Declaration.mem_distinct_iff.mp hmemB
    exact hsame.signature_eq_iff.mpr (halike firstA firstB hfirstA hfirstB hmockA hmockB hsame)

/-- A parameter is `const` in one declaration and not in the other, which to C++ says nothing about
the function. -/
theorem mocked_twice_of_const_parameter :
    let int : Declaration :=
      { qualifiedName := "f"
        returnType := .void
        parameters := Parameter.ofList [("n", .arithmetic .int)] }
    let constInt : Declaration :=
      { qualifiedName := "f"
        returnType := .void
        parameters := Parameter.ofList [("n", (CType.arithmetic .int).withConst)] }
    int.SameFunction constInt ∧
      (ofDeclarations {} [int, constInt]).mockable.map Analysis.declaration = [int, constInt] ∧
      ¬ (ofDeclarations {} [int, constInt]).mockable.Pairwise fun a b =>
        ¬ a.declaration.SameFunction b.declaration := by
  decide

end Catalog

end Understudy
