import Understudy.Proofs.Catalog.Numbering

/-! # Rearranged declarations

A header that declares the same functions in another order has the same catalog, in another order:
nothing in an entry depends on where its declaration stands. That includes the numbers of
overloads, which follow the order of the overloads and not that of the header.
-/

namespace Understudy

namespace Declaration

variable {declarations : List Declaration}

/-- Declarations of different functions are kept as they are. -/
theorem distinct_of_pairwise (h : declarations.Pairwise fun a b => a.redeclares b = false) :
    distinct declarations = declarations := by
  induction declarations using List.reverseRecOn with
  | nil => rfl
  | append_singleton seen d ih =>
      obtain ⟨hseen, -, hlast⟩ := List.pairwise_append.mp h
      have hkept : seen.foldl (fun seen d => d.insert seen) [] = seen := ih hseen
      rw [distinct, List.foldl_concat, hkept]
      refine insert_of_forall_not fun e he => ?_
      rw [redeclares_comm]
      exact hlast e he d (List.mem_singleton_self d)

end Declaration

namespace Catalog

variable {book : RuleBook} {declarations arranged : List Declaration} {group : List Analysis}

/-- In each group of overloads the companions are numbered from one, in the order of the spellings
of the parameter types and then of constness. -/
def NumbersOverloads (entries : List Analysis) : Prop :=
  ∀ a ∈ entries, 1 < (overloads entries a).length → ∃ ordered : List Analysis,
    ordered.Perm (overloads entries a) ∧
      (ordered.Pairwise fun b c => orderKey b < orderKey c) ∧
      ordered.map Analysis.companionName =
        (List.range ordered.length).map fun i => numberedName a.declaration.name (i + 1)

theorem numbersOverloads_nameCompanions
    (hdistinct : group.Pairwise fun a b => a.declaration.signature ≠ b.declaration.signature) :
    NumbersOverloads (nameCompanions group) := by
  intro a _ hoverloaded
  obtain ⟨ordered, hperm, hordered⟩ := exists_ordered hdistinct a
  rw [overloads_nameCompanions, List.length_map] at hoverloaded
  refine ⟨ordered.map (named group), ?_, ?_, ?_⟩
  · rw [overloads_nameCompanions]
    exact hperm.map _
  · simpa only [List.pairwise_map, orderKey_named] using hordered
  · refine List.ext_getElem (by simp) fun i hi _ => ?_
    have hplace : i < ordered.length := by simpa using hi
    have hmem : ordered[i] ∈ overloads group a := hperm.mem_iff.mp (List.getElem_mem hplace)
    simp only [List.getElem_map, List.getElem_range,
      companionName_named_of_overloaded hoverloaded hmem,
      overloadNumber_getElem hperm hordered hplace]

/-- Two catalogs that differ at most in the order of their entries. -/
structure Agrees (catalog other : Catalog) : Prop where
  mockable : catalog.mockable.Perm other.mockable
  unmockable : catalog.unmockable.Perm other.unmockable
  /-- A declaration has the same entry in both: the same classifications, the same obstacle and
  the same companion name, and so the same texts. -/
  entry_eq : ∀ a ∈ catalog.mockable ++ catalog.unmockable,
    ∀ b ∈ other.mockable ++ other.unmockable, a.declaration = b.declaration → a = b
  mocks : catalog.mocks.Perm other.mocks
  companions : ∀ presentation,
    (catalog.companions presentation).Perm (other.companions presentation)

/-- Catalogs with the same entries, in which no declaration has two, agree. -/
theorem Agrees.of_perm {catalog other : Catalog} (hmockable : catalog.mockable.Perm other.mockable)
    (hunmockable : catalog.unmockable.Perm other.unmockable)
    (hdistinct : ((catalog.mockable ++ catalog.unmockable).map Analysis.declaration).Nodup) :
    Agrees catalog other where
  mockable := hmockable
  unmockable := hunmockable
  entry_eq := by
    intro a ha b hb hsame
    have hkept : b ∈ catalog.mockable ++ catalog.unmockable :=
      (hmockable.append hunmockable).mem_iff.mpr hb
    exact List.inj_on_of_nodup_map hdistinct ha hkept hsame
  mocks := hmockable.filterMap _
  companions _ := hmockable.filterMap _

/-- The entries of a catalog are of different functions. -/
theorem nodup_map_declaration :
    (((ofDeclarations book declarations).mockable ++
      (ofDeclarations book declarations).unmockable).map Analysis.declaration).Nodup := by
  rw [List.map_append, map_declaration_mockable, map_declaration_unmockable]
  refine (List.filter_append_perm _ _).nodup_iff.mpr ?_
  exact (Declaration.collects_distinct declarations).distinct.imp fun hne heq =>
    hne (congrArg Declaration.signature heq)

/-- A catalog does not depend on the order of the declarations of different functions, but for the
order of its entries, and it numbers overloads in their own order. -/
theorem agrees_of_rearranged (book : RuleBook) (hperm : declarations.Perm arranged)
    (hdistinct : declarations.Pairwise fun a b => a.redeclares b = false) :
    Agrees (ofDeclarations book declarations) (ofDeclarations book arranged) ∧
      NumbersOverloads (ofDeclarations book declarations).mockable := by
  have harranged : arranged.Pairwise fun a b => a.redeclares b = false := by
    refine (hperm.pairwise_iff fun {a b} h => ?_).mp hdistinct
    rwa [Declaration.redeclares_comm]
  have hanalyses : ((Declaration.distinct declarations).map book.analyse).Perm
      ((Declaration.distinct arranged).map book.analyse) := by
    rw [Declaration.distinct_of_pairwise hdistinct, Declaration.distinct_of_pairwise harranged]
    exact hperm.map _
  constructor
  · exact .of_perm (nameCompanions_of_perm (hanalyses.filter _)) (hanalyses.filter _)
      nodup_map_declaration
  · refine numbersOverloads_nameCompanions (List.Pairwise.filter _ (List.pairwise_map.mpr ?_))
    exact (Declaration.collects_distinct declarations).distinct

/-- Three overloads of a member function, one of which cannot be mocked. -/
theorem agrees_of_rearranged_overloads :
    let overload (isConst : Bool) (types : List CType) : Declaration :=
      { qualifiedName := "C::get"
        isMember := true
        traits := { isConst }
        parameters := Parameter.ofList (types.map fun type => ("", type))
        returnType := .void }
    let reading := overload true [.arithmetic .int]
    let writing := overload false [.arithmetic .int]
    let copying := overload false [.record "R"]
    Agrees (ofDeclarations {} [reading, copying, writing])
        (ofDeclarations {} [writing, reading, copying]) ∧
      (ofDeclarations {} [reading, copying, writing]).mockable.map Analysis.companionName =
        ["get_2", "get_1"] := by
  intro overload reading writing copying
  have hperm : [reading, copying, writing].Perm [writing, reading, copying] := by decide
  exact ⟨(agrees_of_rearranged {} hperm (by decide)).1, by decide⟩

end Catalog

end Understudy
