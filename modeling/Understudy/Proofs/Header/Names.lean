import Understudy.Proofs.Declaration.Division
import Understudy.Proofs.Header.Collected
import Understudy.Proofs.Text.Token

/-! # Names and scopes of collected functions

The path of a function, the namespaces and classes around it and its own name, is joined into one
qualified name, and the declaration takes its name and its scopes off it again. The name survives
template arguments in the path. A scope does not when its template arguments show two colons: the
qualified name is divided outside of angle brackets, but the scopes are split inside of them too.
-/

namespace Understudy

/-! ## Names as they are written -/

/-- The name of a class: an identifier, or one with template arguments, whose angle brackets pair
up. -/
inductive IsClassName : List Char → Prop
  | plain {word : List Char} (hne : word ≠ []) (hword : Text.IsWord word) : IsClassName word
  | specialised {word arguments : List Char} (hne : word ≠ []) (hword : Text.IsWord word)
      (hpair : Text.PairsUp '<' '>' arguments) : IsClassName (word ++ '<' :: arguments ++ ['>'])

/-- The name of a function: an identifier, or a symbolic operator. -/
inductive IsFunctionName : List Char → Prop
  | plain {word : List Char} (hne : word ≠ []) (hword : Text.IsWord word) : IsFunctionName word
  | operator {symbols : List Char}
      (hsymbols : ∀ c ∈ symbols, Text.isWordChar c = false ∧ c ≠ ':') :
      IsFunctionName ("operator".toList ++ symbols)

theorem IsFunctionName.colon_notMem {name : List Char} (h : IsFunctionName name) : ':' ∉ name := by
  cases h with
  | plain _ hword => exact hword.notMem (by decide)
  | operator hsymbols =>
      rw [List.mem_append, not_or]
      exact ⟨by decide, fun hmem => (hsymbols ':' hmem).2 rfl⟩

namespace NameParts

variable {word arguments text : List Char}

theorem openAfter_of_isWord (h : Text.IsWord word) (depth : Nat) :
    openAfter depth word = depth :=
  openAfter_of_notMem (h.notMem (by decide)) (h.notMem (by decide))

end NameParts

namespace IsClassName

variable {name : List Char}

theorem ne_nil (h : IsClassName name) : name ≠ [] := by
  cases h with
  | plain hne _ => exact hne
  | specialised _ _ _ => simp

theorem getLast?_ne (h : IsClassName name) : name.getLast? ≠ some ':' := by
  cases h with
  | plain _ hword => exact hword.getLast?_ne (by decide)
  | specialised _ _ _ =>
      rw [List.getLast?_concat]
      decide

/-- A class name closes the angle brackets that it opens. -/
theorem openAfter_eq (h : IsClassName name) : NameParts.openAfter 0 name = 0 := by
  cases h with
  | plain _ hword => exact NameParts.openAfter_of_isWord hword 0
  | @specialised word arguments _ hword hpair =>
      have harguments : NameParts.openAfter 1 arguments = 1 := NameParts.openAfter_of_pairsUp hpair
      have hopened : NameParts.openAfter 0 ('<' :: arguments) = NameParts.openAfter 1 arguments := rfl
      rw [NameParts.openAfter_append, NameParts.openAfter_append,
        NameParts.openAfter_of_isWord hword, hopened, harguments]
      rfl

end IsClassName

namespace Enclosure

/-- Whether a namespace has an identifier for its name, and a class the name of a class. -/
def IsWellNamed : Enclosure → Prop
  | scope name _ => name.toList ≠ [] ∧ Text.IsWord name.toList
  | record name _ _ => IsClassName name.toList
  | other _ => True

theorem IsWellNamed.isClassName {e : Enclosure} {name : String} (h : e.IsWellNamed)
    (hname : e.name? = some name) : IsClassName name.toList := by
  cases e with
  | scope => cases hname; exact .plain h.1 h.2
  | record => cases hname; exact h
  | other => cases hname

end Enclosure

namespace Occurrence

variable {o : Occurrence}

/-- The names of the namespaces and classes around a function, outermost first. -/
def scopes (o : Occurrence) : List String := o.enclosures.filterMap Enclosure.name?

/-- The declaration of a function by what is around it. -/
def declaration (o : Occurrence) : Declaration :=
  o.function.declaration (Place.within o.enclosures)

/-- Whether a function and what is around it have names as C++ writes them. -/
structure IsWellNamed (o : Occurrence) : Prop where
  enclosures : ∀ e ∈ o.enclosures, e.IsWellNamed
  function : IsFunctionName o.function.name.toList

/-- The qualified name without the function's own name. -/
def scopeText (o : Occurrence) : List Char := [':', ':'].intercalate (o.scopes.map String.toList)

theorem toList_qualifiedName (o : Occurrence) :
    o.declaration.qualifiedName.toList =
      [':', ':'].intercalate (o.scopes.map String.toList ++ [o.function.name.toList]) := by
  have hqualified : o.declaration.qualifiedName =
      String.intercalate "::" (o.scopes ++ [o.function.name]) := by
    rw [scopes, ← Place.scopes_within]
    rfl
  rw [hqualified, String.toList_intercalate, List.map_append]
  rfl

/-- Whether the name that was put after the scopes of a function comes off again: the angle brackets
of the scopes close, and the name shows two colons at most inside of its own. -/
structure KeepsName (o : Occurrence) : Prop where
  closed : NameParts.openAfter 0 o.scopeText = 0
  whole : ¬ NameParts.ShowsDivision 0 o.function.name.toList

theorem nameParts_of_keepsName (hhead : o.function.name.toList.head? ≠ some ':')
    (h : o.KeepsName) :
    o.declaration.nameParts = { scope := o.scopeText, name := o.function.name.toList } := by
  rw [Declaration.nameParts, toList_qualifiedName]
  exact NameParts.ofQualified_joined hhead h.closed h.whole

theorem name_eq_iff_keepsName (hhead : o.function.name.toList.head? ≠ some ':') :
    o.declaration.nameParts.name = o.function.name.toList ↔ o.KeepsName := by
  rw [Declaration.nameParts, toList_qualifiedName, NameParts.name_ofQualified_joined_iff hhead]
  exact ⟨fun h => ⟨h.1, h.2⟩, fun h => ⟨h.closed, h.whole⟩⟩

/-! ## Functions with names as they are written -/

theorem isClassName_of_mem_scopes (h : ∀ e ∈ o.enclosures, e.IsWellNamed) :
    ∀ name ∈ o.scopes, IsClassName name.toList := by
  intro name hname
  obtain ⟨e, he, hname⟩ := List.mem_filterMap.mp hname
  exact (h e he).isClassName hname

/-- The names around a function close their angle brackets. -/
theorem openAfter_scopeText (h : ∀ e ∈ o.enclosures, e.IsWellNamed) :
    NameParts.openAfter 0 o.scopeText = 0 := by
  apply NameParts.openAfter_intercalate
  rw [List.forall_mem_map]
  exact fun name hname => (isClassName_of_mem_scopes h name hname).openAfter_eq

theorem IsWellNamed.keepsName (h : o.IsWellNamed) : o.KeepsName where
  closed := openAfter_scopeText h.enclosures
  whole := NameParts.not_showsDivision_of_notMem h.function.colon_notMem

theorem IsWellNamed.nameParts (h : o.IsWellNamed) :
    o.declaration.nameParts = { scope := o.scopeText, name := o.function.name.toList } := by
  apply nameParts_of_keepsName _ h.keepsName
  intro hhead
  exact h.function.colon_notMem (List.mem_of_mem_head? hhead)

/-- The scopes come off as they were put on exactly when no two colons are in any of them. -/
theorem IsWellNamed.scopes_eq_iff (h : o.IsWellNamed) :
    o.declaration.scopes = o.scopes ↔ ∀ name ∈ o.scopes, ¬ Text.ShowsColons name.toList := by
  have hnames := isClassName_of_mem_scopes h.enclosures
  rw [Declaration.scopes, h.nameParts, scopeText]
  generalize o.scopes = scopes at hnames ⊢
  cases scopes with
  | nil => simp
  | cons name scopes =>
      have hfull : [':', ':'].intercalate ((name :: scopes).map String.toList) ≠ [] :=
        Text.intercalate_ne_nil (hnames name List.mem_cons_self).ne_nil
      have hsplit : Text.splitColons ([':', ':'].intercalate ((name :: scopes).map String.toList)) =
          ((name :: scopes).map String.toList).flatMap Text.splitColons := by
        apply Text.splitColons_intercalate (by simp)
        rw [List.forall_mem_map]
        exact fun name hname => (hnames name hname).getLast?_ne
      have hstrings (parts : List (List Char)) :
          parts.map String.ofList = name :: scopes ↔
            parts = (name :: scopes).map String.toList := by
        constructor
        · intro hparts
          simp [← hparts]
        · intro hparts
          simp [hparts]
      rw [if_neg (by simpa using hfull), hsplit, hstrings, Text.flatMap_splitColons_eq_iff]
      exact List.forall_mem_map

end Occurrence

namespace Header

/-- The functions of the tree that are declared, in the order of the tree. -/
def collected (header : Header) : List Occurrence :=
  (Entity.occurrencesFrom 0 header.entities).filter Occurrence.isCollected

theorem declarations_eq_map_collected (header : Header) :
    header.declarations = header.collected.map Occurrence.declaration :=
  Entity.declarationsOfAll_eq_of_forall (fun entity _ => entity.declarations_eq {}) 0

/-- Where namespaces, classes and functions have names as C++ writes them, every declaration has the
name of its function. It has the scopes of its function exactly when no template arguments around it
show two colons. -/
theorem takes_paths_apart_iff {header : Header} (h : ∀ o ∈ header.collected, o.IsWellNamed) :
    List.Forall₂
      (fun o d => d.name = o.function.name ∧
        (d.scopes = o.scopes ↔ ∀ name ∈ o.scopes, ¬ Text.ShowsColons name.toList))
      header.collected header.declarations := by
  rw [declarations_eq_map_collected, List.forall₂_map_right_iff, List.forall₂_same]
  intro o ho
  refine ⟨?_, (h o ho).scopes_eq_iff⟩
  rw [Declaration.name, (h o ho).nameParts, String.ofList_toList]

/-- An operator of a full specialisation inside of a namespace. -/
theorem takes_paths_apart_of_specialisation :
    let header : Header :=
      { entities := [.scope "io" true [.record "Box<Pair<int, char>>" true false
          [.function { name := "operator->", returnType := .void }]]] }
    (∀ o ∈ header.collected, o.IsWellNamed) ∧
      header.declarations.map Declaration.name = ["operator->"] ∧
      header.declarations.map Declaration.scopes = [["io", "Box<Pair<int, char>>"]] := by
  intro header
  let o : Occurrence :=
    { address := [0, 0, 0]
      enclosures := [.scope "io" true, .record "Box<Pair<int, char>>" true false]
      function := { name := "operator->", returnType := .void } }
  have hcollected : header.collected = [o] := by decide
  have hnamed : ∀ o ∈ header.collected, o.IsWellNamed := by
    rw [hcollected, List.forall_mem_singleton]
    have hbox : IsClassName ("Box".toList ++ '<' :: "Pair<int, char>".toList ++ ['>']) :=
      .specialised (by decide) (by decide) (by decide)
    have harrow : "operator->".toList = "operator".toList ++ ['-', '>'] := by decide
    have hsymbols : ∀ c ∈ ['-', '>'], Text.isWordChar c = false ∧ c ≠ ':' := by
      rw [List.forall_mem_cons, List.forall_mem_singleton]
      decide
    constructor
    · rw [List.forall_mem_cons, List.forall_mem_singleton]
      exact ⟨⟨by decide, by decide⟩, hbox⟩
    · change IsFunctionName "operator->".toList
      rw [harrow]
      exact .operator hsymbols
  refine ⟨hnamed, ?_⟩
  have happart := takes_paths_apart_iff hnamed
  rw [declarations_eq_map_collected, hcollected] at happart ⊢
  cases happart with
  | cons hfirst hrest =>
      rw [List.map_singleton, List.map_singleton, List.map_singleton, hfirst.1,
        hfirst.2.mpr (by decide)]
      exact ⟨rfl, rfl⟩

/-- Two colons in the template arguments split the name of the class. -/
theorem splits_name_of_specialisation :
    let header : Header :=
      { entities := [.record "Box<a::b>" true false
          [.function { name := "f", returnType := .void }]] }
    (∀ o ∈ header.collected, o.IsWellNamed) ∧
      header.collected.map Occurrence.scopes = [["Box<a::b>"]] ∧
      header.declarations.map Declaration.scopes = [["Box<a", "b>"]] := by
  intro header
  let o : Occurrence :=
    { address := [0, 0]
      enclosures := [.record "Box<a::b>" true false]
      function := { name := "f", returnType := .void } }
  have hcollected : header.collected = [o] := by decide
  have hnamed : ∀ o ∈ header.collected, o.IsWellNamed := by
    rw [hcollected, List.forall_mem_singleton]
    have hbox : IsClassName ("Box".toList ++ '<' :: "a::b".toList ++ ['>']) :=
      .specialised (by decide) (by decide) (by decide)
    constructor
    · rwa [List.forall_mem_singleton]
    · exact .plain (by decide) (by decide)
  refine ⟨hnamed, ?_⟩
  rw [hcollected]
  decide

end Header

end Understudy
