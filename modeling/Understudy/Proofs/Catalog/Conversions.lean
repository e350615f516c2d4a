import Understudy.Proofs.Catalog.Distinct
import Understudy.Proofs.Header.Names

/-! # Conversion operators

A conversion operator has no return type to declare a mock with, so it is left out whatever the rules
are. It is told from other operators by the last part of its qualified name, which is `operator`,
blanks and the type that it converts to as long as the type shows no two colons outside of angle
brackets. Otherwise the name is divided inside of the type, and what is left is no operator.
-/

namespace Understudy

/-! ## Names of conversion operators -/

/-- The name of a conversion operator, with the type that it converts to. The type starts with a
word other than `new` and `delete`. -/
inductive IsConversionName : (target name : List Char) → Prop
  | intro {gap word rest : List Char} (hgap : Text.IsGap gap) (hgapNe : gap ≠ [])
      (hword : Text.IsWord word) (hne : word ≠ []) (hrest : Text.EndsWord rest)
      (hnew : word ≠ "new".toList) (hdelete : word ≠ "delete".toList) :
      IsConversionName (word ++ rest) ("operator".toList ++ gap ++ (word ++ rest))

namespace IsConversionName

variable {target name : List Char}

theorem namesConversion (h : IsConversionName target name) :
    Declaration.namesConversion name = true := by
  cases h with
  | @intro gap word rest hgap hgapNe hword hne hrest hnew hdelete =>
      obtain ⟨c, gap, rfl⟩ := List.exists_cons_of_ne_nil hgapNe
      have hblank : Text.isBlank c = true := hgap c List.mem_cons_self
      have hdrop : Text.dropStart? "operator".toList
          ("operator".toList ++ c :: gap ++ (word ++ rest)) = some (c :: gap ++ (word ++ rest)) :=
        Text.dropStart?_eq_some_iff.mpr (List.append_assoc _ _ _)
      have hstart : Text.trimStart (c :: gap ++ (word ++ rest)) = word ++ rest := by
        rw [Text.trimStart_gap_append hgap]
        apply Text.trimStart_of_head
        intro d hd
        rw [List.head?_append_of_ne_nil _ hne] at hd
        exact Text.isBlank_eq_false_of_isWordChar (hword d (List.mem_of_mem_head? hd))
      rw [Declaration.namesConversion, hdrop]
      dsimp only
      rw [hstart, Text.takeWhile_append_of_isWord hword hrest, List.cons_append, List.head?_cons,
        Option.any_some, hblank]
      simpa [hne] using ⟨hnew, hdelete⟩

theorem isOperatorName (h : IsConversionName target name) :
    FunctionEntity.isOperatorName name = true := by
  cases h with
  | @intro gap word rest hgap hgapNe _ _ _ _ _ =>
      obtain ⟨c, gap, rfl⟩ := List.exists_cons_of_ne_nil hgapNe
      apply Occurrence.isOperatorName_iff.mpr
      refine ⟨c, gap ++ (word ++ rest), List.append_assoc _ _ _, ?_⟩
      by_contra hword
      have hblank := Text.isBlank_eq_false_of_isWordChar (Bool.not_eq_false _ ▸ hword)
      rw [hgap c List.mem_cons_self] at hblank
      cases hblank

/-- What stands before the type has neither colons nor angle brackets. -/
theorem exists_start (h : IsConversionName target name) :
    ∃ start, name = start ++ target ∧ start.head? = some 'o' ∧ ':' ∉ start ∧ '<' ∉ start ∧
      '>' ∉ start := by
  cases h with
  | @intro gap word rest hgap _ _ _ _ _ _ =>
      have hmark {c : Char} (hword : c ∉ "operator".toList) (hblank : Text.isBlank c = false) :
          c ∉ "operator".toList ++ gap := by
        rw [List.mem_append, not_or]
        exact ⟨hword, hgap.notMem hblank⟩
      exact ⟨"operator".toList ++ gap, rfl, rfl, hmark (by decide) (by decide),
        hmark (by decide) (by decide), hmark (by decide) (by decide)⟩

theorem head?_ne (h : IsConversionName target name) : name.head? ≠ some ':' := by
  obtain ⟨start, rfl, hhead, -⟩ := h.exists_start
  rw [List.head?_append, hhead]
  exact fun heq => absurd (Option.some.inj heq) (by decide)

/-- The name of a conversion operator is divided where the type is. -/
theorem showsDivision_iff (h : IsConversionName target name) :
    NameParts.ShowsDivision 0 name ↔ NameParts.ShowsDivision 0 target := by
  obtain ⟨start, rfl, -, hcolon, hopening, hclosing⟩ := h.exists_start
  exact NameParts.showsDivision_append_iff hcolon hopening hclosing

end IsConversionName

theorem operator_prefix_of_namesConversion {name : List Char}
    (h : Declaration.namesConversion name = true) : "operator".toList <+: name := by
  unfold Declaration.namesConversion at h
  split at h
  next => cases h
  next rest hdrop => exact ⟨rest, (Text.dropStart?_eq_some_iff.mp hdrop).symm⟩

namespace Occurrence

variable {o : Occurrence} {target : List Char}

/-- A conversion operator keeps its name exactly when the type shows no two colons outside of angle
brackets and the names around it close theirs. -/
theorem keepsName_iff_of_isConversionName
    (hname : IsConversionName target o.function.name.toList) :
    o.KeepsName ↔
      NameParts.openAfter 0 o.scopeText = 0 ∧ ¬ NameParts.ShowsDivision 0 target := by
  rw [← hname.showsDivision_iff]
  exact ⟨fun h => ⟨h.closed, h.whole⟩, fun h => ⟨h.1, h.2⟩⟩

/-- One that keeps its name is recognised. -/
theorem isConversionOperator_of_keepsName
    (hname : IsConversionName target o.function.name.toList) (hkeeps : o.KeepsName) :
    o.declaration.isConversionOperator = true := by
  rw [Declaration.isConversionOperator, nameParts_of_keepsName hname.head?_ne hkeeps,
    hname.namesConversion, Bool.and_true]
  exact hname.isOperatorName

/-- One that does not is recognised only by another `operator` around it or in its type. -/
theorem keepsName_of_isConversionOperator
    (hname : IsConversionName target o.function.name.toList)
    (h : o.declaration.isConversionOperator = true)
    (hscopes : ¬ "operator".toList <:+: o.scopeText) (htarget : ¬ "operator".toList <:+: target) :
    o.KeepsName := by
  rw [← name_eq_iff_keepsName hname.head?_ne]
  have hlast := operator_prefix_of_namesConversion (Bool.and_eq_true_iff.mp h).2
  have hcolon : ':' ∉ "operator".toList := by decide
  have hcases := NameParts.name_ofQualified_cases (o.scopes.map String.toList)
    o.function.name.toList
  rw [← toList_qualifiedName] at hcases
  rcases hcases with hwhole | ⟨front, hfront⟩ | ⟨part, hpart, back, hback⟩
  · exact hwhole
  · -- Only the type has colons, so what comes off is the end of the type.
    obtain ⟨start, hsplit, -, hstart, -⟩ := hname.exists_start
    obtain ⟨middle, -, hend⟩ := Text.exists_append_of_notMem hstart (hsplit.symm.trans hfront)
    refine absurd (hlast.isInfix.trans ?_) htarget
    exact ⟨middle ++ [':'], [], by rw [hend, List.append_nil, List.append_assoc]; rfl⟩
  · obtain ⟨rest, hrest⟩ := hlast
    obtain ⟨middle, hmiddle, -⟩ := Text.exists_append_of_notMem hcolon (hrest.trans hback)
    have hshown : "operator".toList <:+: part := ⟨[], middle, hmiddle.symm⟩
    exact absurd (hshown.trans hpart.isInfix) hscopes

end Occurrence

/-! ## Functions without a mock -/

namespace Declaration

variable {d e : Declaration} {declarations : List Declaration}

/-- Whether the catalog of some declarations lists the function of `d` as one that cannot be mocked,
and not as one that can, whatever the rules are. -/
def IsLeftOut (declarations : List Declaration) (d : Declaration) : Prop :=
  ∀ book : RuleBook,
    (∃ a ∈ (Catalog.ofDeclarations book declarations).unmockable,
      d.redeclares a.declaration = true) ∧
    ∀ a ∈ (Catalog.ofDeclarations book declarations).mockable, d.redeclares a.declaration = false

theorem isMockable_of_isConversionOperator (book : RuleBook) (h : d.isConversionOperator = true) :
    (book.analyse d).isMockable = false := by
  by_contra hmockable
  have htraits := (RuleBook.isMockable_analyse_iff.mp (Bool.not_eq_false _ ▸ hmockable)).1
  unfold Obstacle.ofTraits? at htraits
  rw [if_pos h] at htraits
  split at htraits <;> cases htraits

/-- The entry of a function is a conversion operator when all declarations of the function are. -/
theorem isConversionOperator_of_mem_distinct
    (h : ∀ other ∈ declarations, d.redeclares other = true → other.isConversionOperator = true)
    (he : e ∈ distinct declarations) (hsame : d.redeclares e = true) :
    e.isConversionOperator = true := by
  obtain ⟨first, hfirst, hpooled⟩ := (collects_distinct declarations).pooled e he
  have hentry : e.redeclares first = true := List.find?_some hfirst
  have hoperator := h first (List.mem_of_find?_eq_some hfirst)
    (equivalence_redeclares.trans hsame hentry)
  rw [hpooled]
  exact hoperator

theorem isLeftOut_of_forall (hd : d ∈ declarations)
    (h : ∀ other ∈ declarations, d.redeclares other = true → other.isConversionOperator = true) :
    d.IsLeftOut declarations := by
  intro book
  constructor
  · obtain ⟨e, he, hsame⟩ := (collects_distinct declarations).covers d hd
    have hmockable := isMockable_of_isConversionOperator book
      (isConversionOperator_of_mem_distinct h he hsame)
    have hentry : e ∈ (Catalog.ofDeclarations book declarations).unmockable.map
        Analysis.declaration := by
      rw [Catalog.map_declaration_unmockable, List.mem_filter, hmockable]
      exact ⟨he, rfl⟩
    obtain ⟨a, ha, rfl⟩ := List.mem_map.mp hentry
    exact ⟨a, ha, hsame⟩
  · intro a ha
    by_contra hsame
    have hentry := List.mem_map_of_mem (f := Analysis.declaration) ha
    rw [Catalog.map_declaration_mockable, List.mem_filter] at hentry
    have hoperator := isConversionOperator_of_mem_distinct h hentry.1
      (Bool.not_eq_false _ ▸ hsame)
    rw [isMockable_of_isConversionOperator book hoperator] at hentry
    cases hentry.2

end Declaration

namespace Header

variable {header : Header} {o : Occurrence} {target : List Char}

/-- A conversion operator that keeps its name, in a tree that has no function of another name where
it stands, is recognised and left out whatever the rules are. -/
theorem leaves_out_conversions (ho : o ∈ header.collected)
    (hname : IsConversionName target o.function.name.toList)
    (hone : ∀ p ∈ header.collected, o.declaration.redeclares p.declaration = true →
      p.function.name = o.function.name) :
    (NameParts.openAfter 0 o.scopeText = 0 ∧ ¬ NameParts.ShowsDivision 0 target →
      o.declaration.isConversionOperator = true ∧
        o.declaration.IsLeftOut header.declarations) ∧
    (o.declaration.isConversionOperator = true → ¬ "operator".toList <:+: o.scopeText →
      ¬ "operator".toList <:+: target →
        NameParts.openAfter 0 o.scopeText = 0 ∧ ¬ NameParts.ShowsDivision 0 target) := by
  rw [← Occurrence.keepsName_iff_of_isConversionName hname]
  refine ⟨fun hkeeps => ?_, Occurrence.keepsName_of_isConversionOperator hname⟩
  have hoperator := Occurrence.isConversionOperator_of_keepsName hname hkeeps
  refine ⟨hoperator, ?_⟩
  rw [declarations_eq_map_collected]
  apply Declaration.isLeftOut_of_forall (List.mem_map_of_mem ho)
  rw [List.forall_mem_map]
  intro p hp hsame
  have hpath : p.declaration.qualifiedName = o.declaration.qualifiedName :=
    (congrArg Prod.fst (Declaration.redeclares_iff.mp hsame)).symm
  have hsign : p.declaration.traits.isOperator = o.declaration.traits.isOperator := by
    change FunctionEntity.isOperatorName p.function.name.toList = _
    rw [hone p hp hsame]
    rfl
  rw [Declaration.isConversionOperator, Declaration.nameParts, hpath, hsign]
  exact hoperator

/-- A class and a type with two colons in their template arguments. -/
theorem leaves_out_conversions_of_template_arguments :
    let target := "Box<x::y> &".toList
    let convert : FunctionEntity :=
      { name := "operator Box<x::y> &"
        returnType := (CType.record "Box<x::y>").withReference .lvalue }
    let header : Header := { entities := [.record "Pair<a::b>" true false [.function convert]] }
    let o : Occurrence :=
      { address := [0, 0]
        enclosures := [.record "Pair<a::b>" true false]
        function := convert }
    o ∈ header.collected ∧ IsConversionName target o.function.name.toList ∧
      (∀ p ∈ header.collected, o.declaration.redeclares p.declaration = true →
        p.function.name = o.function.name) ∧
      o.declaration.isConversionOperator = true ∧
      o.declaration.IsLeftOut header.declarations := by
  intro target convert header o
  have hcollected : header.collected = [o] := by decide
  have ho : o ∈ header.collected := hcollected ▸ List.mem_singleton_self o
  have htarget : target = "Box".toList ++ "<x::y> &".toList := by decide
  have hwritten : o.function.name.toList = "operator".toList ++ " ".toList ++ target := by decide
  have hname : IsConversionName target o.function.name.toList := by
    rw [hwritten, htarget]
    exact .intro (by decide) (by decide) (by decide) (by decide) (by decide) (by decide) (by decide)
  have hone : ∀ p ∈ header.collected, o.declaration.redeclares p.declaration = true →
      p.function.name = o.function.name := by
    rw [hcollected, List.forall_mem_singleton]
    exact fun _ => rfl
  obtain ⟨hoperator, hout⟩ := (leaves_out_conversions ho hname hone).1 ⟨by decide, by decide⟩
  exact ⟨ho, hname, hone, hoperator, hout⟩

/-- The type is a scoped name, at whose two colons the name is divided. -/
theorem mocks_conversion_to_scoped_type :
    let target := "ns::Flag".toList
    let flag := CType.typedef "ns::Flag" (.arithmetic .bool)
    let convert : FunctionEntity := { name := "operator ns::Flag", returnType := flag }
    let header : Header := { entities := [.record "C" true false [.function convert]] }
    let o : Occurrence :=
      { address := [0, 0], enclosures := [.record "C" true false], function := convert }
    o ∈ header.collected ∧ IsConversionName target o.function.name.toList ∧
      header.declarations = [o.declaration] ∧
      o.declaration.isConversionOperator = false ∧
      (Catalog.ofDeclarations {} header.declarations).mockable.map Analysis.declaration =
        [o.declaration] := by
  intro target flag convert header o
  have htarget : target = "ns".toList ++ "::Flag".toList := by decide
  have hwritten : o.function.name.toList = "operator".toList ++ " ".toList ++ target := by decide
  have hname : IsConversionName target o.function.name.toList := by
    rw [hwritten, htarget]
    exact .intro (by decide) (by decide) (by decide) (by decide) (by decide) (by decide) (by decide)
  exact ⟨by decide, hname, by decide, by decide, by decide⟩

end Header

end Understudy
