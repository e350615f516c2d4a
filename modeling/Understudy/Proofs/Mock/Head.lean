import Understudy.Mock
import Understudy.Proofs.CType.Described

/-! # The head of a mock

The head of a mock should declare the mocked function: its name, its parameters and what it returns.
It is the spelling of the return type, the name and the parameters, one after the other. The
declarator of a function pointer or of an array goes around the name of the function, so a function
that returns one is not declared.
-/

namespace Understudy

open Declarator

/-- The name of a function starts with a word that is no qualifier, or with the `::` of the
outermost scope. -/
def IsDeclaratorName (name : List Char) : Prop :=
  ∃ token rest, Text.tokens name = token :: rest ∧ isQualifier token = false ∧
    (Text.IsWord token ∨ token = [':'])

/-- The first token of a function's name is no mark that a declarator knows. -/
theorem IsDeclaratorName.head?_ne {name : List Char} (hname : IsDeclaratorName name)
    (rest : List (List Char)) {token : List Char}
    (htoken : (Text.tokens name ++ rest).head? = some token) :
    isOperator token = false ∧ token ≠ ['('] ∧ token ≠ ['['] ∧ token ≠ [')'] := by
  obtain ⟨first, others, hname, hqualifier, hfirst⟩ := hname
  rw [hname] at htoken
  cases htoken
  have hmark {c : Char} (hc : Text.isWordChar c = false ∧ c ≠ ':') : token ≠ [c] := by
    rintro rfl
    rcases hfirst with hword | hcolon
    · exact hword.notMem hc.1 List.mem_cons_self
    · exact hc.2 (List.cons.inj hcolon).1
  refine ⟨?_, hmark (by decide), hmark (by decide), hmark (by decide)⟩
  simp only [isOperator, hqualifier, Bool.or_false, Bool.or_eq_false_iff, decide_eq_false_iff_not]
  exact ⟨hmark (by decide), hmark (by decide)⟩

theorem IsDeclaratorName.stops_append {name : List Char} (hname : IsDeclaratorName name)
    (rest : List (List Char)) : Stops (Text.tokens name ++ rest) :=
  fun _ htoken => ⟨(hname.head?_ne rest htoken).1, (hname.head?_ne rest htoken).2.1⟩

namespace Declaration

/-- A declaration from whose types it can be told what its mock should declare. -/
structure IsSpelledInFull (d : Declaration) : Prop where
  name : IsDeclaratorName d.qualifiedName.toList
  result : ∃ specifier t, d.returnType.written.Describes specifier t
  parameters : ∀ p ∈ d.parameters, IsDeclarable p.name.toList ∧
    ∃ specifier t, p.type.written.Describes specifier t

/-- Nothing of the return type goes after the name of the function, and no parameter is a reference
to an array of function pointers. -/
structure HasPlainHead (d : Declaration) : Prop where
  extents : d.returnType.extents = []
  notCallback : d.returnType.category ≠ .functionPointer
  parameters : ∀ p ∈ d.parameters, p.type.category = .functionPointer →
    p.type.reference = .none ∨ p.type.extents = []

end Declaration

namespace Analysis

/-- The name that the head shows for a parameter, or no name for one that is skipped. -/
def shownName (p : Parameter) (c : Classification) : String :=
  match c.passing with
  | .skip => ""
  | _ => p.name

/-- The parameters as the head lists them. -/
def parameterList (a : Analysis) : String := String.intercalate ", " a.mockParameters

/-- The head declares a function of the name, with the parameters and the return type of the
declaration. -/
structure HeadDeclares (a : Analysis) : Prop where
  function : ∃ specifier t, a.declaration.returnType.written.Describes specifier t ∧
    Declares specifier (Text.tokens a.declaration.qualifiedName.toList) a.mockHead
      (.function (Text.tokens a.parameterList.toList) a.declaration.traits.isConst t)
  parameters : List.Forall₂ (fun entry text => ∃ specifier t,
      entry.1.type.written.Describes specifier t ∧
        Declares specifier (Text.tokens (shownName entry.1 entry.2).toList) text t)
    a.parameters a.mockParameters

theorem mockParameters_eq (a : Analysis) : a.mockParameters =
    a.parameters.map fun entry => entry.1.type.declare (shownName entry.1 entry.2) := by
  refine List.map_congr_left fun entry _ => ?_
  obtain ⟨p, passing, modifier, origin, byAddress⟩ := entry
  cases passing <;> rfl

theorem tokens_mockHead (a : Analysis) : Text.tokens a.mockHead.toList =
    Text.tokens a.declaration.returnType.spelling.toList ++
      (Text.tokens a.declaration.qualifiedName.toList ++
        ['('] :: (Text.tokens a.parameterList.toList ++
          [')'] :: if a.declaration.traits.isConst then ["const".toList] else [])) := by
  have hconst : Text.tokens (if a.declaration.traits.isConst then " const" else "").toList =
      if a.declaration.traits.isConst then ["const".toList] else [] := by
    cases a.declaration.traits.isConst <;> decide
  have htext : a.mockHead.toList = a.declaration.returnType.spelling.toList ++
      ([' '] ++ (a.declaration.qualifiedName.toList ++ ('(' :: (a.parameterList.toList ++
        (')' :: (if a.declaration.traits.isConst then " const" else "").toList))))) := by
    simp [mockHead, parameterList]
  rw [htext, Text.tokens_append_of_gap (by decide) (by decide),
    Text.tokens_append (.inr (by rintro _ ⟨⟩; decide)),
    Text.tokens_cons_of_mark (by decide) (by decide),
    Text.tokens_append (.inr (by rintro _ ⟨⟩; decide)),
    Text.tokens_cons_of_mark (by decide) (by decide), hconst]

end Analysis

/-! ## The return type in front of the name -/

section

variable {text : String} {name : List Char} {w : Written}
  {clause specifier rest : List (List Char)} {isConst : Bool} {t u : Reading}

/-- Where a mark follows the operators in front, no function is declared. -/
theorem IsDeclaratorName.not_declares (hname : IsDeclaratorName name)
    (before rest : List (List Char))
    (htext : Text.tokens text.toList = specifier ++ (before ++ rest))
    (hbefore : front (Text.tokens name) (before ++ rest) = before)
    (hrest : rest.head? = some ['['] ∨ rest.head? = some [')']) :
    ¬ Declares specifier (Text.tokens name) text t := by
  rintro ⟨before', after, htext', hfront, -⟩
  have hdeclarator := List.append_cancel_left (htext.symm.trans htext')
  obtain rfl : before = before' := by rw [← hbefore, hdeclarator, hfront]
  rw [List.append_cancel_left hdeclarator] at hrest
  rcases hrest with hrest | hrest
  · exact (hname.head?_ne _ hrest).2.2.1 rfl
  · exact (hname.head?_ne _ hrest).2.2.2 rfl

/-- In the usual layout the operators of a return type without extents stand in front of the name
of the function. -/
theorem Written.declares_function (hcategory : w.category ≠ .functionPointer)
    (hextents : w.extents = []) (hname : IsDeclaratorName name)
    (hclause : Text.Balanced clause.flatten)
    (htext : Text.tokens text.toList = Text.tokens (w.declare "").toList ++
      (Text.tokens name ++
        ['('] :: (clause ++ [')'] :: if isConst then ["const".toList] else []))) :
    Declares (Text.tokens w.qualifiedName) (Text.tokens name) text
      (.function clause isConst (w.layers (.named (Text.tokens w.qualifiedName)))) := by
  have hread := (w.outward_operators (Text.tokens w.qualifiedName)).function isConst hclause
  have hlayers (t : Reading) : w.layers t = .refer w.reference (.pointTo w.pointers t) := by
    rw [layers, hextents]
    rfl
  rw [← hlayers] at hread
  refine ⟨_, _, ?_, ?_, hread⟩
  · rw [htext, declare_of_ordinary hcategory, tokens_declareOrdinary, nameTokens, hextents,
      if_pos (.inl rfl)]
    simp [extentTokens, Text.tokens]
  · rw [List.append_assoc]
    exact front_operators _ _ (hname.stops_append _) _

/-- What goes after the name in a declaration with the type stands in front of the name of the
function. -/
theorem Written.Describes.not_declares_function (h : w.Describes specifier t)
    (hplain : ¬ (w.extents = [] ∧ w.category ≠ .functionPointer)) (hname : IsDeclaratorName name)
    (htext : Text.tokens text.toList =
      Text.tokens (w.declare "").toList ++ (Text.tokens name ++ rest)) :
    ¬ Declares specifier (Text.tokens name) text u := by
  have hextents (rest : List (List Char)) :
      (extentTokens w.extents ++ rest).head? =
        if w.extents = [] then rest.head? else some ['['] := by
    cases w.extents <;> rfl
  cases h with
  | ordinary hcategory =>
      have hnil : w.extents ≠ [] := fun hnil => hplain ⟨hnil, hcategory⟩
      rw [declare_of_ordinary hcategory, tokens_declareOrdinary, nameTokens] at htext
      by_cases hreference : w.reference = .none
      · refine hname.not_declares (levelTokens w.pointers)
          (extentTokens w.extents ++ (Text.tokens name ++ rest)) ?_ ?_
          (.inl (by rw [hextents, if_neg hnil]))
        · rw [htext, if_pos (.inr hreference), hreference]
          simp [Reference.tokens, Reference.spelling, Text.tokens]
        · rw [front_append (isOperator_levelTokens _),
            front_of_stops (stops_extentTokens_append (hname.stops_append _) _), List.append_nil]
      · refine hname.not_declares
          (levelTokens w.pointers ++ ['('] :: w.reference.tokens)
          ([')'] :: (extentTokens w.extents ++ (Text.tokens name ++ rest))) ?_ ?_ (.inr rfl)
        · rw [htext, if_neg (not_or.mpr ⟨hnil, hreference⟩)]
          simp [Text.tokens]
        · rw [List.append_assoc]
          exact front_reference _ hreference (stops_close _) _
  | @callback result clause _ _ hw hresult =>
      obtain ⟨ops, hops, hread⟩ := hresult
      have hoperators : ∀ token ∈ ops, isOperator token = true :=
        fun token htoken => hread.isOperator token (List.mem_reverse.mpr htoken)
      rw [hw.tokens_declare, hops] at htext
      refine hname.not_declares
        (ops ++ ['('] :: (levelTokens (w.base :: w.pointers) ++ w.reference.tokens))
        (extentTokens w.extents ++ [')'] ::
          (['('] :: (Text.tokens clause ++ [')'] :: (Text.tokens name ++ rest)))) ?_ ?_ ?_
      · rw [htext]
        simp [Text.tokens]
      · rw [List.append_assoc, List.cons_append, List.append_assoc]
        exact front_callback hoperators _ _ _ (stops_extentTokens_append (stops_close _) _) _
      · rw [hextents]
        split
        · exact .inr rfl
        · exact .inl rfl

end

/-! ## The list of parameters -/

theorem Text.balanced_intercalate {texts : List (List Char)}
    (h : ∀ text ∈ texts, Text.Balanced text) : Text.Balanced ([',', ' '].intercalate texts) := by
  have hcomma : Text.Balanced [',', ' '] := by decide
  induction texts with
  | nil => decide
  | cons first texts ih =>
      obtain ⟨hfirst, htexts⟩ := List.forall_mem_cons.mp h
      cases texts with
      | nil => simpa using hfirst
      | cons second texts =>
          rw [List.intercalate_cons_cons, List.append_assoc]
          exact hfirst.append (hcomma.append (ih htexts))

namespace RuleBook

variable {book : RuleBook} {d : Declaration}

theorem isDeclarable_shownName {p : Parameter} (hp : IsDeclarable p.name.toList)
    (c : Classification) : IsDeclarable (Analysis.shownName p c).toList := by
  obtain ⟨passing, modifier, origin, byAddress⟩ := c
  cases passing with
  | skip =>
      have hnone : IsDeclarable "".toList := by decide
      exact hnone
  | scalar | output | copiedOutput | memoryBuffer | object => exact hp

theorem balanced_parameterList (hd : d.IsSpelledInFull) :
    Text.Balanced (book.analyse d).parameterList.toList := by
  rw [Analysis.parameterList, String.toList_intercalate]
  refine Text.balanced_intercalate (List.forall_mem_map.mpr fun text htext => ?_)
  rw [Analysis.mockParameters_eq, analyse, List.map_map] at htext
  obtain ⟨p, hp, rfl⟩ := List.mem_map.mp htext
  obtain ⟨hname, specifier, t, hdescribes⟩ := hd.parameters p hp
  exact hdescribes.balanced_declare (isDeclarable_shownName hname _).isWord

/-- The parameters are declared unless one is a reference to an array of function pointers. -/
theorem declares_parameters_iff (hd : d.IsSpelledInFull) :
    List.Forall₂ (fun entry text => ∃ specifier t,
        entry.1.type.written.Describes specifier t ∧ Declares specifier
          (Text.tokens (Analysis.shownName entry.1 entry.2).toList) text t)
      (book.analyse d).parameters (book.analyse d).mockParameters ↔
    ∀ p ∈ d.parameters, p.type.category = .functionPointer →
      p.type.reference = .none ∨ p.type.extents = [] := by
  rw [Analysis.mockParameters_eq, List.forall₂_map_right_iff, List.forall₂_same, analyse,
    List.forall_mem_map]
  refine forall₂_congr fun p hp => ?_
  obtain ⟨hname, specifier, t, hdescribes⟩ := hd.parameters p hp
  have hshown := isDeclarable_shownName hname (book.classifyParameter d.qualifiedName p)
  constructor
  · rintro ⟨specifier, t, hdescribes, hdeclares⟩
    exact (hdescribes.declares_iff hshown).mp hdeclares
  · intro hplain
    exact ⟨specifier, t, hdescribes, (hdescribes.declares_iff hshown).mpr hplain⟩

/-- The first line of a mock declares the mocked function unless its return type has a declarator
that goes around the name, or a parameter is a reference to an array of function pointers. -/
theorem mockHead_declares_iff (book : RuleBook) (d : Declaration) (text : String)
    (hd : d.IsSpelledInFull) (hmock : (book.analyse d).mock? = some text) :
    (∃ body, text = (book.analyse d).mockHead ++ "\n" ++ body) ∧
      ((book.analyse d).HeadDeclares ↔ d.HasPlainHead) := by
  have htokens := (book.analyse d).tokens_mockHead
  constructor
  · rw [Analysis.mock?] at hmock
    split at hmock
    · cases hmock
      refine ⟨"\x7b\n    " ++ (book.analyse d).mockStatement ++ ";\n\x7d\n", ?_⟩
      have hline : "\n\x7b\n    " = "\n" ++ "\x7b\n    " := rfl
      rw [Analysis.mockText, hline]
      simp only [String.append_assoc]
    · cases hmock
  constructor
  · rintro ⟨⟨specifier, t, hdescribes, hdeclares⟩, hparameters⟩
    have hplain : d.returnType.extents = [] ∧ d.returnType.category ≠ .functionPointer := by
      by_contra hplain
      exact hdescribes.not_declares_function hplain hd.name htokens hdeclares
    exact ⟨hplain.1, hplain.2, (declares_parameters_iff hd).mp hparameters⟩
  · rintro ⟨hextents, hcategory, hparameters⟩
    refine ⟨?_, (declares_parameters_iff hd).mpr hparameters⟩
    obtain ⟨specifier, t, hdescribes⟩ := hd.result
    cases hdescribes with
    | ordinary _ hbase =>
        exact ⟨_, _, .ordinary hcategory hbase, Written.declares_function hcategory hextents hd.name
          (Text.balanced_flatten_tokens_iff.mpr (balanced_parameterList hd)) htokens⟩
    | callback hw => exact absurd hw.category hcategory

/-- A skipped callback has no name and a named one is declared inside its parentheses. -/
theorem mockHead_declares_of_callback :
    let book : RuleBook :=
      { parameterRules := [{ selector := .functionParameter "ns::on" "unused", treatment := .skip },
          { selector := .functionParameter "ns::on" "cb", treatment := .scalar .pointer }] }
    let callback := CType.plain { name := "int (*)(char)", category := .functionPointer }
    let d : Declaration :=
      { qualifiedName := "ns::on", parameters := [⟨"unused", 0, callback⟩, ⟨"cb", 1, callback⟩],
        returnType := (CType.arithmetic .char).withConst.pointer }
    (book.analyse d).mockHead = "const char * ns::on(int (*)(char), int (*cb)(char))" ∧
      (book.analyse d).HeadDeclares := by
  intro book callback d
  have hcallback : callback.written.Describes ["int".toList] (callback.written.layers
      (.pointer {} (.function (Text.tokens "char".toList) false (.named ["int".toList])))) :=
    have hspelled : callback.written.IsCallback "int".toList "char".toList :=
      ⟨rfl, by decide, by decide⟩
    .callback hspelled ⟨[], by decide, .specifier⟩ (by decide) (by decide)
  have hd : d.IsSpelledInFull :=
    { name := ⟨"ns".toList, [[':'], [':'], "on".toList], by decide, by decide, .inl (by decide)⟩
      result := ⟨_, _, .ordinary (by decide) (by decide)⟩
      parameters := List.forall_mem_cons.mpr ⟨⟨by decide, _, _, hcallback⟩,
        List.forall_mem_cons.mpr ⟨⟨by decide, _, _, hcallback⟩, List.forall_mem_nil _⟩⟩ }
  have hmockable : (book.analyse d).isMockable = true := by decide
  have hmock : (book.analyse d).mock? = some (book.analyse d).mockText := by
    rw [Analysis.mock?, if_pos hmockable]
  exact ⟨by decide, (mockHead_declares_iff book d _ hd hmock).2.mpr
    ⟨rfl, by decide, by decide⟩⟩

/-- The name of a function that returns a function pointer does not stand inside the parentheses. -/
theorem mockHead_not_declares_of_returned_callback :
    let book : RuleBook :=
      { parameterRules :=
          [{ selector := .functionResult "handler", treatment := .scalar .pointer }] }
    let d : Declaration :=
      { qualifiedName := "handler", parameters := [⟨"id", 0, CType.arithmetic .int⟩],
        returnType := CType.plain { name := "void (*)(int)", category := .functionPointer } }
    ofOptions false ["handler@=Pointer"] [] = .ok book ∧ (book.analyse d).isMockable = true ∧
      (book.analyse d).mockHead = "void (*)(int) handler(int id)" ∧
      ¬ (book.analyse d).HeadDeclares ∧
      Declares ["void".toList] ["handler".toList] "void (*handler(int id))(int)"
        (.function ["int".toList, "id".toList] false
          (.pointer {} (.function ["int".toList] false (.named ["void".toList])))) := by
  intro book d
  have hname : IsDeclaratorName d.qualifiedName.toList :=
    ⟨"handler".toList, [], by decide, by decide, .inl (by decide)⟩
  have hmeant : Outward ["void".toList] [['*'], ['(']]
      [['('], "int".toList, "id".toList, [')'], [')'], ['('], "int".toList, [')']]
      (.function ["int".toList, "id".toList] false
        (.pointer {} (.function ["int".toList] false (.named ["void".toList])))) := by
    have hresult := (Outward.specifier : Outward ["void".toList] [] [] _).function false
      (by decide : Text.Balanced ["int".toList].flatten)
    have hpointer := hresult.group.pointer (by decide) (List.forall_mem_nil _)
    exact hpointer.function false (by decide : Text.Balanced ["int".toList, "id".toList].flatten)
  refine ⟨by decide, by decide, by decide, ?_,
    [['('], ['*']], _, by decide, by decide, hmeant⟩
  rintro ⟨⟨specifier, t, hdescribes, hdeclares⟩, -⟩
  exact hdescribes.not_declares_function (by decide) hname (book.analyse d).tokens_mockHead
    hdeclares

end RuleBook

end Understudy
