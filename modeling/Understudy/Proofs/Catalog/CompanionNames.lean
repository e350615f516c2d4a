import Mathlib.Data.List.Pairwise
import Understudy.Proofs.Catalog.Numbering

/-! # Names of companions

The companions of a function that is not overloaded take its name, and those of an overloaded one
take its name with a number. Numbered names are apart from each other, but nothing keeps them apart
from the names that functions have of their own: the first overload of `f` and a function `f_1` have
companions of one name. A catalog is free of that exactly when no function is called so.
-/

namespace Understudy

namespace Catalog

variable {book : RuleBook} {declarations : List Declaration} {group : List Analysis}
  {a b : Analysis}

/-- The last underscore of a numbered name stands before its number. -/
theorem numberedName_inj {name other : String} {m n : Nat} :
    numberedName name m = numberedName other n ↔ name = other ∧ m = n := by
  refine ⟨fun h => ?_, by rintro ⟨rfl, rfl⟩; rfl⟩
  have hcut (name : String) (number : Nat) :
      Text.cut '_' (numberedName name number).toList.reverse =
        some ((toString number).toList.reverse, name.toList.reverse) :=
    Text.cut_eq_some_iff.mpr ⟨by simp [numberedName], by simp⟩
  have hparts := hcut name m
  rw [h, hcut other n, Option.some.injEq, Prod.mk.injEq, List.reverse_inj, List.reverse_inj,
    String.toList_inj] at hparts
  refine ⟨String.toList_inj.mp hparts.2.symm, ?_⟩
  have hnumber := congrArg (fun text => Nat.ofDigitChars 10 text.toList 0) hparts.1.symm
  simpa [Nat.toString_eq_ofList_toDigits] using hnumber

/-- How many of some functions share the qualified name of one. -/
def overloadCount (functions : List Declaration) (d : Declaration) : Nat :=
  functions.countP fun e => e.qualifiedName = d.qualifiedName

/-- The names of functions leave those of numbered companions alone. -/
structure LeavesNumbersAlone (functions : List Declaration) : Prop where
  /-- No function that is not overloaded is called like a numbered companion in its scopes. -/
  unnumbered : ∀ a ∈ functions, ∀ b ∈ functions, a.scopes = b.scopes →
    overloadCount functions a ≤ 1 → 1 < overloadCount functions b →
      ∀ number, 1 ≤ number → number ≤ overloadCount functions b →
        a.name ≠ numberedName b.name number
  /-- Of one name with and without two colons in front, exactly one is overloaded. -/
  rooted : ∀ a ∈ functions, ∀ b ∈ functions, a.Rooted b →
    (overloadCount functions a ≤ 1 ↔ 1 < overloadCount functions b)

/-- Entries whose companions have one name in one namespace. -/
def SharesName (a b : Analysis) : Prop :=
  a.declaration.scopes = b.declaration.scopes ∧ a.companionName = b.companionName

instance : DecidableRel SharesName := fun _ _ => inferInstanceAs (Decidable (_ ∧ _))

theorem SharesName.symm (h : SharesName a b) : SharesName b a := ⟨h.1.symm, h.2.symm⟩

/-! ## Entries before and after they are named -/

theorem length_overloads :
    (overloads group a).length = overloadCount (group.map Analysis.declaration) a.declaration := by
  rw [overloads, ← List.countP_eq_length_filter, overloadCount, List.countP_map]
  rfl

/-- Before they are named, entries stand for different functions and have the names of these. -/
structure Unnamed (group : List Analysis) : Prop where
  distinct : group.Pairwise fun a b => a.declaration.signature ≠ b.declaration.signature
  companionName : ∀ a ∈ group, a.companionName = a.declaration.name

namespace Unnamed

theorem name_of_alone (h : Unnamed group) (ha : a ∈ group)
    (halone : (overloads group a).length ≤ 1) :
    (named group a).companionName = a.declaration.name := by
  rw [companionName_named_of_alone halone, h.companionName a ha]

/-- Overloads have the same base and different numbers. -/
theorem name_ne_of_overloads (h : Unnamed group) (ha : a ∈ group) (hb : b ∈ group)
    (hname : a.declaration.qualifiedName = b.declaration.qualifiedName) (hne : a ≠ b) :
    (named group a).companionName ≠ (named group b).companionName := by
  have hmemA : a ∈ overloads group b := mem_overloads_iff.mpr ⟨ha, hname⟩
  have hmemB : b ∈ overloads group b := mem_overloads_iff.mpr ⟨hb, rfl⟩
  have hmany : 1 < (overloads group b).length := by
    by_contra halone
    obtain ⟨only, honly⟩ := List.length_eq_one_iff.mp
      (Nat.le_antisymm (Nat.not_lt.mp halone) (List.length_pos_of_mem hmemB))
    rw [honly, List.mem_singleton] at hmemA hmemB
    exact hne (hmemA.trans hmemB.symm)
  rw [companionName_named_of_overloaded hmany hmemA,
    companionName_named_of_overloaded hmany hmemB, ne_eq, numberedName_inj]
  exact fun heq => hne (overloadNumber_injective h.distinct hmemA hmemB heq.2)

/-- Each number up to how many overloads there are is that of one of them. -/
theorem exists_name_eq (h : Unnamed group) (hmany : 1 < (overloads group b).length) {number : Nat}
    (hpositive : 1 ≤ number) (hle : number ≤ (overloads group b).length) :
    ∃ c ∈ overloads group b,
      (named group c).companionName = numberedName b.declaration.name number := by
  obtain ⟨c, hc, rfl⟩ := (exists_overloadNumber_iff h.distinct).mpr ⟨hpositive, hle⟩
  exact ⟨c, hc, companionName_named_of_overloaded hmany hc⟩

/-- One function is not overloaded and the other is, so that only the second has a number. -/
theorem not_sharesName_of_alone (h : Unnamed group)
    (hfree : LeavesNumbersAlone (group.map Analysis.declaration)) (ha : a ∈ group) (hb : b ∈ group)
    (halone : (overloads group a).length ≤ 1) (hmany : 1 < (overloads group b).length) :
    ¬ SharesName (named group a) (named group b) := by
  rintro ⟨hscopes, hnames⟩
  have hmem : b ∈ overloads group b := mem_overloads_iff.mpr ⟨hb, rfl⟩
  obtain ⟨hpositive, hle⟩ := (exists_overloadNumber_iff h.distinct).mp ⟨b, hmem, rfl⟩
  rw [named_declaration, named_declaration] at hscopes
  rw [h.name_of_alone ha halone, companionName_named_of_overloaded hmany hmem] at hnames
  rw [length_overloads] at halone hmany hle
  exact hfree.unnumbered _ (List.mem_map_of_mem ha) _ (List.mem_map_of_mem hb) hscopes halone hmany
    _ hpositive hle hnames

/-- Names that numbers leave alone are apart. -/
theorem not_sharesName (h : Unnamed group)
    (hfree : LeavesNumbersAlone (group.map Analysis.declaration)) (ha : a ∈ group) (hb : b ∈ group)
    (hne : a ≠ b) : ¬ SharesName (named group a) (named group b) := by
  by_cases hname : a.declaration.qualifiedName = b.declaration.qualifiedName
  · exact fun hshared => h.name_ne_of_overloads ha hb hname hne hshared.2
  · -- What is left of a number is a name of its own, so one of the two is alone and one is not.
    have hbase (hscopes : a.declaration.scopes = b.declaration.scopes)
        (hlast : a.declaration.name = b.declaration.name) :
        (overloads group a).length ≤ 1 ↔ 1 < (overloads group b).length := by
      rw [length_overloads, length_overloads]
      have hmemA := List.mem_map_of_mem (f := Analysis.declaration) ha
      have hmemB := List.mem_map_of_mem (f := Analysis.declaration) hb
      rcases Declaration.qualifiedName_eq_or_rooted hscopes hlast with hsame | hrooted | hrooted
      · exact absurd hsame hname
      · exact hfree.rooted _ hmemA _ hmemB hrooted
      · have hiff := hfree.rooted _ hmemB _ hmemA hrooted
        omega
    rcases Nat.lt_or_ge 1 (overloads group a).length with hmanyA | haloneA <;>
      rcases Nat.lt_or_ge 1 (overloads group b).length with hmanyB | haloneB
    · rintro ⟨hscopes, hnames⟩
      rw [named_declaration, named_declaration] at hscopes
      rw [companionName_named_of_overloaded hmanyA (mem_overloads_iff.mpr ⟨ha, rfl⟩),
        companionName_named_of_overloaded hmanyB (mem_overloads_iff.mpr ⟨hb, rfl⟩),
        numberedName_inj] at hnames
      have hiff := hbase hscopes hnames.1
      omega
    · exact fun hshared => h.not_sharesName_of_alone hfree hb ha haloneB hmanyA hshared.symm
    · exact h.not_sharesName_of_alone hfree ha hb haloneA hmanyB
    · rintro ⟨hscopes, hnames⟩
      rw [named_declaration, named_declaration] at hscopes
      rw [h.name_of_alone ha haloneA, h.name_of_alone hb haloneB] at hnames
      have hiff := hbase hscopes hnames
      omega

/-- Names that are apart leave numbers alone, because every number is given to a companion. -/
theorem leavesNumbersAlone (h : Unnamed group)
    (hapart : ∀ a ∈ group, ∀ b ∈ group, a ≠ b → ¬ SharesName (named group a) (named group b)) :
    LeavesNumbersAlone (group.map Analysis.declaration) where
  unnumbered := by
    simp only [List.forall_mem_map, ← length_overloads]
    intro a ha b hb hscopes halone hmany number hpositive hle heq
    obtain ⟨c, hc, hnumber⟩ := h.exists_name_eq hmany hpositive hle
    obtain ⟨hmem, hname⟩ := mem_overloads_iff.mp hc
    have hne : a ≠ c := by
      rintro rfl
      rw [overloads_congr hname] at halone
      omega
    refine hapart a ha c hmem hne ⟨?_, ?_⟩
    · rw [named_declaration, named_declaration, hscopes, Declaration.scopes_congr hname]
    · rw [h.name_of_alone ha halone, hnumber, heq]
  rooted := by
    simp only [List.forall_mem_map, ← length_overloads]
    intro a ha b hb hrooted
    have hscopes : a.declaration.scopes = b.declaration.scopes :=
      hrooted.scopes_left.trans hrooted.scopes_right.symm
    rw [← Nat.not_lt]
    constructor
    · intro haloneA
      by_contra haloneB
      refine hapart a ha b hb (fun heq => hrooted.qualifiedName_ne (by rw [heq])) ⟨?_, ?_⟩
      · rw [named_declaration, named_declaration, hscopes]
      · rw [h.name_of_alone ha (Nat.not_lt.mp haloneA), h.name_of_alone hb (Nat.not_lt.mp haloneB),
          hrooted.name_eq]
    · intro hmanyB hmanyA
      -- Both have a companion with the number one.
      obtain ⟨c, hc, hfirstA⟩ := h.exists_name_eq hmanyA le_rfl hmanyA.le
      obtain ⟨d, hd, hfirstB⟩ := h.exists_name_eq hmanyB le_rfl hmanyB.le
      obtain ⟨hmemC, hnameC⟩ := mem_overloads_iff.mp hc
      obtain ⟨hmemD, hnameD⟩ := mem_overloads_iff.mp hd
      have hne : c ≠ d := by
        rintro rfl
        exact hrooted.qualifiedName_ne (hnameC.symm.trans hnameD)
      refine hapart c hmemC d hmemD hne ⟨?_, ?_⟩
      · rw [named_declaration, named_declaration, Declaration.scopes_congr hnameC, hscopes,
          Declaration.scopes_congr hnameD]
      · rw [hfirstA, hfirstB, hrooted.name_eq]

theorem pairwise_iff (h : Unnamed group) :
    (group.Pairwise fun a b => ¬ SharesName (named group a) (named group b)) ↔
      LeavesNumbersAlone (group.map Analysis.declaration) := by
  have hsymm : Std.Symm fun a b => ¬ SharesName (named group a) (named group b) :=
    ⟨fun _ _ hapart hshared => hapart hshared.symm⟩
  constructor
  · intro hapart
    exact h.leavesNumbersAlone fun a ha b hb hne => hapart.forall ha hb hne
  · intro hfree
    refine h.distinct.imp_of_mem fun {a b} ha hb hne => ?_
    exact h.not_sharesName hfree ha hb fun heq => hne (by rw [heq])

end Unnamed

/-- The entries of a catalog before they are named. -/
theorem unnamed_filter :
    Unnamed
      (((Declaration.distinct declarations).map book.analyse).filter Analysis.isMockable) where
  distinct := by
    refine List.Pairwise.filter _ (List.pairwise_map.mpr ?_)
    exact (Declaration.collects_distinct declarations).distinct
  companionName := by
    intro a ha
    obtain ⟨d, -, rfl⟩ := List.mem_map.mp (List.mem_of_mem_filter ha)
    rfl

/-- The companions of a catalog have names of their own in their namespaces exactly when the names
of its functions leave those of numbered companions alone. -/
theorem names_apart_iff (book : RuleBook) (declarations : List Declaration) :
    ((ofDeclarations book declarations).mockable.Pairwise fun a b => ¬ SharesName a b) ↔
      LeavesNumbersAlone
        ((ofDeclarations book declarations).mockable.map Analysis.declaration) := by
  change (nameCompanions _).Pairwise _ ↔ LeavesNumbersAlone ((nameCompanions _).map _)
  rw [map_nameCompanions, nameCompanions_eq_map, List.pairwise_map]
  exact unnamed_filter.pairwise_iff

/-- The companions of a function and of the first of two overloads are declared alike. -/
theorem sharesName_of_numbered_function :
    let declare (name : String) (types : List CType) : Declaration :=
      { qualifiedName := name
        returnType := .void
        parameters := Parameter.ofList (types.map fun type => ("", type)) }
    let catalog :=
      ofDeclarations {} [declare "f" [], declare "f" [.arithmetic .int], declare "f_1" []]
    catalog.mockable.map Analysis.companionName = ["f_1", "f_2", "f_1"] ∧
      catalog.mockable.map (Analysis.companionHead · .one) =
        ["MockExpectedCall& f_1()", "MockExpectedCall& f_2(int _unnamedArg0)",
          "MockExpectedCall& f_1()"] ∧
      ¬ catalog.mockable.Pairwise fun a b => ¬ SharesName a b := by
  decide

end Catalog

end Understudy
