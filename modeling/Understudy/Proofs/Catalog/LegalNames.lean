import Understudy.Proofs.Catalog.CompanionNames
import Understudy.Proofs.Header.Names
import Understudy.Proofs.Text.Literal

/-! # Legal names of companions

The companions of a function are ordinary functions, so they need an identifier for their name. They
take the last part of the function's qualified name, with a number behind it if the function is
overloaded, and the number changes nothing about that. The last part is the function's own name, or
what stands in it after two colons. So the companions of an operator have no legal name, unless it
converts to a type that is written as a scoped name, whose last part they take.
-/

namespace Understudy

/-! ## Last parts that are identifiers -/

namespace NameParts

variable {text : List Char}

/-- Whether a text ends in an identifier after two colons outside of angle brackets. -/
def EndsInIdentifier (text : List Char) : Prop :=
  ∃ front last, text = front ++ ':' :: ':' :: last ∧ openAfter 0 front = 0 ∧ Text.IsIdentifier last

theorem not_showsDivision_of_isIdentifier {depth : Nat} (h : Text.IsIdentifier text) :
    ¬ ShowsDivision depth text :=
  not_showsDivision_of_notMem (h.1.notMem (by decide))

/-- Nothing is divided off after an identifier. -/
theorem divide?_append_of_isIdentifier {front last : List Char} (hopen : openAfter 0 front = 0)
    (hlast : Text.IsIdentifier last) :
    divide? 0 (front ++ ':' :: ':' :: last) = some { scope := front, name := last } := by
  refine divide?_eq_some_iff.mpr ⟨rfl, hopen, divide?_eq_none_iff.mpr ?_⟩
  rw [showsDivision_colon_cons_iff (hlast.1.head?_ne (by decide))]
  exact not_showsDivision_of_isIdentifier hlast

/-- The last part of a text is an identifier if the text is one or ends in one. -/
theorem isIdentifier_name_iff :
    Text.IsIdentifier (ofQualified text).name ↔
      Text.IsIdentifier text ∨ EndsInIdentifier text := by
  constructor
  · intro h
    rw [ofQualified] at h
    cases hdivide : divide? 0 text with
    | none =>
        rw [hdivide] at h
        exact .inl h
    | some parts =>
        rw [hdivide] at h
        obtain ⟨htext, hopen, -⟩ := divide?_eq_some_iff.mp hdivide
        exact .inr ⟨parts.scope, parts.name, htext, hopen, h⟩
  · rintro (h | ⟨front, last, rfl, hopen, hlast⟩)
    · rwa [ofQualified, divide?_eq_none_iff.mpr (not_showsDivision_of_isIdentifier h)]
    · rwa [ofQualified, divide?_append_of_isIdentifier hopen hlast]

/-- Nothing is left of a text only if it ends in a colon. -/
theorem name_ofQualified_ne_nil (hne : text ≠ []) (hlast : text.getLast? ≠ some ':') :
    (ofQualified text).name ≠ [] := by
  rw [ofQualified]
  cases hdivide : divide? 0 text with
  | none => exact hne
  | some parts =>
      intro hnil
      apply hlast
      have hnil : parts.name = [] := hnil
      rw [eq_of_divide? hdivide, hnil]
      simp

end NameParts

/-! ## Functions as they are called -/

/-- What C++ calls a function: an identifier, or an operator. An operator is called `operator` and
something more, which begins with no word character and does not end in a colon. -/
inductive IsLegalFunctionName : List Char → Prop
  | identifier {name : List Char} (h : Text.IsIdentifier name) : IsLegalFunctionName name
  | operator {name : List Char} (h : FunctionEntity.isOperatorName name = true)
      (hlast : name.getLast? ≠ some ':') : IsLegalFunctionName name

namespace IsLegalFunctionName

variable {name : List Char}

theorem ne_nil (h : IsLegalFunctionName name) : name ≠ [] := by
  cases h with
  | identifier h => exact h.ne_nil
  | operator h _ =>
      rintro rfl
      cases h

theorem getLast?_ne (h : IsLegalFunctionName name) : name.getLast? ≠ some ':' := by
  cases h with
  | identifier h => exact h.1.getLast?_ne (by decide)
  | operator _ hlast => exact hlast

theorem head?_ne (h : IsLegalFunctionName name) : name.head? ≠ some ':' := by
  cases h with
  | identifier h => exact h.1.head?_ne (by decide)
  | operator h _ =>
      obtain ⟨c, rest, rfl, -⟩ := Occurrence.isOperatorName_iff.mp h
      exact fun hhead => absurd (Option.some.inj hhead) (by decide)

end IsLegalFunctionName

namespace Occurrence

variable {o : Occurrence}

/-- Whether a function has a name as C++ calls functions, and what is around it has names as C++
writes them. -/
structure IsLegallyNamed (o : Occurrence) : Prop where
  enclosures : ∀ e ∈ o.enclosures, e.IsWellNamed
  function : IsLegalFunctionName o.function.name.toList

/-- What is around a function leaves the last part of its name alone. -/
theorem IsLegallyNamed.name_eq (h : o.IsLegallyNamed) :
    o.declaration.name.toList = (NameParts.ofQualified o.function.name.toList).name := by
  rw [Declaration.name, String.toList_ofList, Declaration.nameParts, toList_qualifiedName,
    NameParts.name_ofQualified_joined h.function.head?_ne (openAfter_scopeText h.enclosures)]

theorem IsLegallyNamed.name_ne_nil (h : o.IsLegallyNamed) : o.declaration.name.toList ≠ [] := by
  rw [h.name_eq]
  exact NameParts.name_ofQualified_ne_nil h.function.ne_nil h.function.getLast?_ne

end Occurrence

/-! ## Companions as they are called -/

namespace Catalog

variable {book : RuleBook} {declarations : List Declaration} {a : Analysis}

/-- A number at the end keeps a name legal, and makes no name legal. -/
theorem isIdentifier_numberedName_iff {name : String} {number : Nat} (hne : name.toList ≠ []) :
    Text.IsIdentifier (numberedName name number).toList ↔ Text.IsIdentifier name.toList := by
  have hnumber : Text.IsWord ('_' :: Nat.toDigits 10 number) :=
    List.forall_mem_cons.mpr ⟨by decide, Text.isWord_toDigits number⟩
  have htext : (numberedName name number).toList =
      name.toList ++ '_' :: Nat.toDigits 10 number := by
    simp [numberedName]
  rw [htext, Text.isIdentifier_append_iff hne hnumber]

theorem companionName_cases (ha : a ∈ (ofDeclarations book declarations).mockable) :
    a.companionName = a.declaration.name ∨
      ∃ number, a.companionName = numberedName a.declaration.name number := by
  change a ∈ nameCompanions _ at ha
  rw [nameCompanions_eq_map] at ha
  obtain ⟨b, hb, rfl⟩ := List.mem_map.mp ha
  rw [named_declaration]
  rcases Nat.lt_or_ge 1 (overloads _ b).length with hmany | halone
  · exact .inr ⟨_, companionName_named_of_overloaded hmany (mem_overloads_iff.mpr ⟨hb, rfl⟩)⟩
  · exact .inl (unnamed_filter.name_of_alone hb halone)

theorem isIdentifier_companionName_iff (ha : a ∈ (ofDeclarations book declarations).mockable)
    (hne : a.declaration.name.toList ≠ []) :
    Text.IsIdentifier a.companionName.toList ↔ Text.IsIdentifier a.declaration.name.toList := by
  rcases companionName_cases ha with hname | ⟨number, hname⟩
  · rw [hname]
  · rw [hname, isIdentifier_numberedName_iff hne]

end Catalog

namespace Analysis

variable {a : Analysis}

/-- The parameters as the head of a companion lists them. -/
def companionParameterList (a : Analysis) (quantity : Quantity) : String :=
  String.intercalate ", " (a.companionParameters quantity)

theorem companionHead_eq (a : Analysis) (quantity : Quantity) : a.companionHead quantity =
    "MockExpectedCall& " ++ a.companionName ++ "(" ++ a.companionParameterList quantity ++ ")" :=
  rfl

/-- Whether the head declares a companion by its name, which is one token between the type that is
returned and the parameters. -/
def DeclaresByName (a : Analysis) (quantity : Quantity) : Prop :=
  Text.tokens (a.companionHead quantity).toList =
    "MockExpectedCall".toList :: ['&'] :: a.companionName.toList :: ['('] ::
      (Text.tokens (a.companionParameterList quantity).toList ++ [[')']])

theorem declaresByName (h : Text.IsIdentifier a.companionName.toList) (quantity : Quantity) :
    a.DeclaresByName quantity := by
  have htext : (a.companionHead quantity).toList =
      "MockExpectedCall& ".toList ++ (a.companionName.toList ++
        ('(' :: ((a.companionParameterList quantity).toList ++ [')']))) := by
    rw [companionHead_eq]
    simp only [String.toList_append, List.append_assoc]
    rfl
  have hstarts : Text.StartsWord "MockExpectedCall& ".toList := by
    rintro _ ⟨⟩
    decide
  have hreturned : Text.tokens "MockExpectedCall& ".toList =
      ["MockExpectedCall".toList, ['&']] := by decide
  rw [DeclaresByName, htext, Text.tokens_append (.inl hstarts), hreturned,
    Text.tokens_append_of_isWord h.ne_nil h.1 (by rintro _ ⟨⟩; decide),
    Text.tokens_cons_of_mark (by decide) (by decide),
    Text.tokens_append (.inr (by rintro _ ⟨⟩; decide))]
  rfl

end Analysis

namespace Header

variable {header : Header} {book : RuleBook} {a : Analysis}

/-- A mockable entry stands for a function of the tree. -/
theorem exists_collected_of_mem_mockable
    (ha : a ∈ (Catalog.ofDeclarations book header.declarations).mockable) :
    ∃ o ∈ header.collected, o.declaration.redeclares a.declaration = true := by
  obtain ⟨d, hd, name, rfl⟩ := Catalog.exists_of_mem_ofDeclarations (List.mem_append_left _ ha)
  obtain ⟨first, hfirst, hsame⟩ :=
    (Declaration.collects_distinct header.declarations).exists_mem_seen hd
  rw [declarations_eq_map_collected] at hfirst
  obtain ⟨o, ho, rfl⟩ := List.mem_map.mp hfirst
  exact ⟨o, ho, Declaration.redeclares_comm ▸ hsame⟩

/-- Where functions are called as C++ calls them, the companions of a function have a legal name
exactly when the function is called by an identifier, or its name ends in one after two colons.
Under a legal name both companions are declared by that name. -/
theorem names_companions_legally_iff (book : RuleBook)
    (h : ∀ o ∈ header.collected, o.IsLegallyNamed) :
    ∀ a ∈ (Catalog.ofDeclarations book header.declarations).mockable,
      (∃ o ∈ header.collected, o.declaration.redeclares a.declaration = true) ∧
      (∀ o ∈ header.collected, o.declaration.redeclares a.declaration = true →
        (Text.IsIdentifier a.companionName.toList ↔
          Text.IsIdentifier o.function.name.toList ∨
            NameParts.EndsInIdentifier o.function.name.toList)) ∧
      (Text.IsIdentifier a.companionName.toList → ∀ quantity, a.DeclaresByName quantity) := by
  intro a ha
  refine ⟨exists_collected_of_mem_mockable ha, fun o ho hsame => ?_, Analysis.declaresByName⟩
  have hname : a.declaration.name = o.declaration.name :=
    (Declaration.name_congr (congrArg Prod.fst (Declaration.redeclares_iff.mp hsame))).symm
  have hnamed := h o ho
  rw [Catalog.isIdentifier_companionName_iff ha (hname ▸ hnamed.name_ne_nil), hname,
    hnamed.name_eq, NameParts.isIdentifier_name_iff]

/-- Overloads of a function beside an operator that converts to a scoped type. -/
theorem names_companions_legally_of_overloads :
    let count : FunctionEntity := { name := "count", returnType := .arithmetic .int }
    let countUpTo : FunctionEntity := { count with parameters := [("limit", .arithmetic .int)] }
    let flag := CType.typedef "ns::Flag" (.arithmetic .bool)
    let convert : FunctionEntity := { name := "operator ns::Flag", returnType := flag }
    let header : Header :=
      { entities :=
          [.record "Queue" true false [.function count, .function countUpTo, .function convert]] }
    let catalog := Catalog.ofDeclarations {} header.declarations
    (∀ o ∈ header.collected, o.IsLegallyNamed) ∧
      catalog.mockable.map Analysis.companionName = ["count_1", "count_2", "Flag"] ∧
      ∀ a ∈ catalog.mockable, Text.IsIdentifier a.companionName.toList := by
  intro count countUpTo flag convert header catalog
  let o (i : Nat) (f : FunctionEntity) : Occurrence :=
    { address := [0, i], enclosures := [.record "Queue" true false], function := f }
  have hcollected : header.collected = [o 0 count, o 1 countUpTo, o 2 convert] := by decide
  have hqueue : ∀ e ∈ [Enclosure.record "Queue" true false], e.IsWellNamed :=
    List.forall_mem_singleton.mpr (.plain (by decide) (by decide))
  have hnamed : ∀ o ∈ header.collected, o.IsLegallyNamed := by
    rw [hcollected, List.forall_mem_cons, List.forall_mem_cons, List.forall_mem_singleton]
    exact ⟨⟨hqueue, .identifier (by decide)⟩, ⟨hqueue, .identifier (by decide)⟩,
      ⟨hqueue, .operator (by decide) (by decide)⟩⟩
  have hlegal : ∀ o ∈ header.collected, Text.IsIdentifier o.function.name.toList ∨
      NameParts.EndsInIdentifier o.function.name.toList := by
    rw [hcollected, List.forall_mem_cons, List.forall_mem_cons, List.forall_mem_singleton]
    exact ⟨.inl (by decide), .inl (by decide),
      .inr ⟨"operator ns".toList, "Flag".toList, by decide, by decide, by decide⟩⟩
  refine ⟨hnamed, by decide, fun a ha => ?_⟩
  obtain ⟨⟨o, ho, hsame⟩, hiff, -⟩ := names_companions_legally_iff {} hnamed a ha
  exact (hiff o ho hsame).mpr (hlegal o ho)

/-- The companions of an operator, alone and as overloads, have no legal name. -/
theorem names_companions_after_operators :
    let equals : FunctionEntity :=
      { name := "operator==", returnType := .arithmetic .bool
        parameters := [("other", .arithmetic .int)] }
    let call (parameters : List (String × CType)) : FunctionEntity :=
      { name := "operator()", returnType := .void, parameters }
    let header : Header :=
      { entities := [.record "Point" true false
          [.function equals, .function (call []), .function (call [("n", .arithmetic .int)])]] }
    let catalog := Catalog.ofDeclarations {} header.declarations
    (∀ o ∈ header.collected, o.IsLegallyNamed) ∧
      catalog.mockable.map Analysis.companionName =
        ["operator==", "operator()_1", "operator()_2"] ∧
      catalog.mockable.map (Analysis.companionHead · .one) =
        ["MockExpectedCall& operator==(void *__object__, int other, bool __return__)",
          "MockExpectedCall& operator()_1(void *__object__)",
          "MockExpectedCall& operator()_2(void *__object__, int n)"] ∧
      ∀ a ∈ catalog.mockable, ¬ Text.IsIdentifier a.companionName.toList := by
  intro equals call header catalog
  let o (i : Nat) (f : FunctionEntity) : Occurrence :=
    { address := [0, i], enclosures := [.record "Point" true false], function := f }
  have hcollected : header.collected =
      [o 0 equals, o 1 (call []), o 2 (call [("n", .arithmetic .int)])] := by decide
  have hpoint : ∀ e ∈ [Enclosure.record "Point" true false], e.IsWellNamed :=
    List.forall_mem_singleton.mpr (.plain (by decide) (by decide))
  have hoperator (i : Nat) {f : FunctionEntity}
      (hname : FunctionEntity.isOperatorName f.name.toList = true)
      (hlast : f.name.toList.getLast? ≠ some ':') : (o i f).IsLegallyNamed :=
    ⟨hpoint, .operator hname hlast⟩
  have hnamed : ∀ o ∈ header.collected, o.IsLegallyNamed := by
    rw [hcollected, List.forall_mem_cons, List.forall_mem_cons, List.forall_mem_singleton]
    exact ⟨hoperator 0 (by decide) (by decide), hoperator 1 (by decide) (by decide),
      hoperator 2 (by decide) (by decide)⟩
  have hnames : catalog.mockable.map Analysis.companionName =
      ["operator==", "operator()_1", "operator()_2"] := by decide
  have hillegal : ∀ name ∈ ["operator==", "operator()_1", "operator()_2"],
      ¬ Text.IsIdentifier name.toList := by decide
  exact ⟨hnamed, hnames, by decide, fun a ha => hillegal _ (hnames ▸ List.mem_map_of_mem ha)⟩

end Header

end Understudy
