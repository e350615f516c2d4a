import Understudy.Proofs.Header.Collected
import Understudy.Proofs.Mock.MoreRules

/-! # Rules for a function by its name

The key of a rule may name the function whose parameter or return value the rule is about. A key
reaches to the first `=` of an option, and the function in it to the first `#` or to a final `@`. An
operator is named with neither of the last two, but it may be named with `=`. Then the key ends
inside of the name, and no option at all gives a rule for the function.
-/

namespace Understudy

/-! ## Names of functions -/

/-- What a function itself is called: an identifier, or an operator. The name of an operator has no
`#` and does not end in a blank. -/
inductive IsOwnName : List Char → Prop
  | identifier {word : List Char} (hne : word ≠ []) (hword : Text.IsWord word) : IsOwnName word
  | operator {name : List Char} (hoperator : FunctionEntity.isOperatorName name = true)
      (hmark : '#' ∉ name) (hlast : ∀ c, name.getLast? = some c → Text.isBlank c = false) :
      IsOwnName name

/-- A qualified name: identifiers and at the end what the function itself is called, with two colons
after each identifier. -/
inductive IsQualifiedName : List Char → Prop
  | own {name : List Char} (hname : IsOwnName name) : IsQualifiedName name
  | qualified {scope name : List Char} (hne : scope ≠ []) (hscope : Text.IsWord scope)
      (hname : IsQualifiedName name) : IsQualifiedName (scope ++ ':' :: ':' :: name)

/-- A function that a key can name before its mark. -/
structure Selector.IsFunctionKey (function : List Char) : Prop where
  hasContent : Text.HasContent function
  isTrimmed : Text.IsTrimmed function
  notMem : '#' ∉ function

theorem IsOwnName.isFunctionKey {name : List Char} (h : IsOwnName name) :
    Selector.IsFunctionKey name := by
  cases h with
  | identifier hne hword =>
      have hkey := Selector.IsKeyName.of_isWord hne hword
      exact ⟨hkey.hasContent, hkey.isTrimmed, hword.notMem (by decide)⟩
  | operator hoperator hmark hlast =>
      obtain ⟨c, rest, rfl, -⟩ := Occurrence.isOperatorName_iff.mp hoperator
      refine ⟨⟨'o', List.mem_append_left _ (by decide), by decide⟩, ⟨?_, hlast⟩, hmark⟩
      rintro _ ⟨⟩
      decide

theorem IsQualifiedName.isFunctionKey {name : List Char} (h : IsQualifiedName name) :
    Selector.IsFunctionKey name := by
  induction h with
  | own hname => exact hname.isFunctionKey
  | @qualified scope name hne hscope _ ih =>
      obtain ⟨c, hc⟩ := List.exists_mem_of_ne_nil scope hne
      have hcolon : Text.isBlank ':' = false := by decide
      have hname := (ih.isTrimmed.cons hcolon).cons hcolon
      refine ⟨⟨c, ?_, ?_⟩, hscope.isTrimmed.append hname, ?_⟩
      · exact List.mem_append_left _ hc
      · exact Text.isBlank_eq_false_of_isWordChar (hscope c hc)
      · simp [hscope.notMem (c := '#') (by decide), ih.notMem]

/-! ## Keys that name a function -/

namespace Selector

variable {function parameter : String}

theorem written_functionParameter (hfunction : IsFunctionKey function.toList)
    (hparameter : IsKeyName parameter.toList) :
    Written .parameter (Text.trim (function.toList ++ '#' :: parameter.toList))
      (.functionParameter function parameter) := by
  have hwritten := Written.functionParameter hfunction.hasContent hfunction.notMem
    hparameter.hasContent hparameter.getLast?_ne
  rw [hfunction.isTrimmed.trim_eq, hparameter.isTrimmed.trim_eq, String.ofList_toList,
    String.ofList_toList] at hwritten
  rwa [(hfunction.isTrimmed.append (hparameter.isTrimmed.cons (by decide))).trim_eq]

theorem written_functionResult (hfunction : IsFunctionKey function.toList) :
    Written .parameter (Text.trim (function.toList ++ ['@'])) (.functionResult function) := by
  have hwritten := Written.functionResult hfunction.hasContent hfunction.notMem
  rw [hfunction.isTrimmed.trim_eq, String.ofList_toList] at hwritten
  rwa [(hfunction.isTrimmed.append (.singleton (by decide))).trim_eq]

/-- The function that a selector names. -/
def function? : Selector → Option String
  | functionParameter function _ | functionResult function => some function
  | parameterName _ | typeSpelling _ _ | typeName _ _ => none

/-- The function is shown whole. -/
theorem mem_render_of_function? {selector : Selector} {c : Char}
    (h : selector.function? = some function) (hc : c ∈ function.toList) :
    c ∈ selector.render.toList := by
  cases selector with
  | functionParameter | functionResult =>
      cases h
      simp [render, hc]
  | parameterName | typeSpelling | typeName => cases h

end Selector

namespace Rule

/-- The key of a rule that is read has no `=`, for it ends at the first one. -/
theorem notMem_of_parse {level : Level} {text : String} {rule : Rule}
    (h : parse level text = .ok rule) : '=' ∉ rule.selector.render.toList := by
  obtain ⟨-, hkey, hselector, -⟩ := parse_eq_ok_iff_written.mp h
  exact hselector.notMem_render (mt Text.mem_of_mem_trim hkey)

end Rule

/-! ## Rules that are found -/

namespace RuleBook

variable {book : RuleBook} {resolveAliases : Bool} {function parameter text : String}

/-- No rule that options give is about a function with `=` in its name. -/
theorem notMem_of_function? {parameters types : List String} {level : Level} {rule : Rule}
    (hbook : ofOptions resolveAliases parameters types = .ok book)
    (hmem : rule ∈ book.rules level) (hfunction : rule.selector.function? = some function) :
    '=' ∉ function.toList := by
  have hkey := forall_rules_of_ofOptions (fun _ _ _ => Rule.notMem_of_parse) hbook level rule hmem
  intro hsign
  exact hkey (Selector.mem_render_of_function? hfunction hsign)

/-- One rule text of the first level gives the book with that rule alone. -/
theorem ofOptions_singleton {rule : Rule} (h : Rule.parse .parameter text = .ok rule) :
    ofOptions resolveAliases [text] [] = .ok { resolveAliases, parameterRules := [rule] } := by
  have hadd : addAll { resolveAliases } .parameter [text] =
      .ok { resolveAliases, parameterRules := [rule] } :=
    addAll_eq_ok_iff.mpr ⟨[rule], .cons h .nil, by simp, by simp [rules], rfl⟩
  exact bind_eq_ok_iff.mpr ⟨_, hadd, rfl⟩

/-- A rule for a parameter of a function, and one for its return value, can be given with the
function's qualified name, and are found by it, exactly when no `=` is in the name. -/
theorem finds_function_by_name_iff (resolveAliases : Bool)
    (hfunction : IsQualifiedName function.toList) (hne : parameter.toList ≠ [])
    (hparameter : Text.IsWord parameter.toList) :
    ((∃ book,
        ofOptions resolveAliases [function ++ "#" ++ parameter ++ "=Skip"] [] = .ok book ∧
        book.parameterRule? function parameter =
          some { selector := .functionParameter function parameter, treatment := .skip }) ↔
      '=' ∉ function.toList) ∧
    ((∃ book, ofOptions resolveAliases [function ++ "@=Int"] [] = .ok book ∧
        book.resultRule? function =
          some { selector := .functionResult function, treatment := .scalar .int }) ↔
      '=' ∉ function.toList) := by
  have hkey := hfunction.isFunctionKey
  have hname := Selector.IsKeyName.of_isWord hne hparameter
  constructor
  · constructor
    · rintro ⟨book, hbook, hfound⟩
      exact notMem_of_function? hbook (mem_of_parameterRule? hfound) rfl
    · intro hsign
      have htext : (function ++ "#" ++ parameter ++ "=Skip").toList =
          function.toList ++ '#' :: parameter.toList ++ '=' :: "Skip".toList := by simp
      let rule : Rule :=
        { selector := .functionParameter function parameter, treatment := .skip }
      have hparse : Rule.parse .parameter (function ++ "#" ++ parameter ++ "=Skip") = .ok rule :=
        Rule.parse_of_kind htext (by simp [hsign, hname.notMem])
          (Selector.written_functionParameter hkey hname) .skip rfl
      exact ⟨_, ofOptions_singleton hparse, by simp [parameterRule?_eq, find?, rule]⟩
  · constructor
    · rintro ⟨book, hbook, hfound⟩
      exact notMem_of_function? hbook (mem_of_resultRule? hfound).1 rfl
    · intro hsign
      have htext : (function ++ "@=Int").toList =
          function.toList ++ ['@'] ++ '=' :: "Int".toList := by simp
      let rule : Rule := { selector := .functionResult function, treatment := .scalar .int }
      have hparse : Rule.parse .parameter (function ++ "@=Int") = .ok rule :=
        Rule.parse_of_kind htext (by simp [hsign]) (Selector.written_functionResult hkey)
          (.scalar .result .int) rfl
      exact ⟨_, ofOptions_singleton hparse, by simp [resultRule?, find?, rule]⟩

/-- A call operator of a class in a namespace. -/
theorem finds_function_by_name_of_call_operator :
    let function := "geo::Scale::operator()"
    IsQualifiedName function.toList ∧ Text.IsWord "by".toList ∧ '=' ∉ function.toList ∧
      (∃ book, ofOptions false ["geo::Scale::operator()#by=Skip"] [] = .ok book ∧
        book.parameterRule? function "by" =
          some { selector := .functionParameter function "by", treatment := .skip }) ∧
      ∃ book, ofOptions false ["geo::Scale::operator()@=Int"] [] = .ok book ∧
        book.resultRule? function =
          some { selector := .functionResult function, treatment := .scalar .int } := by
  intro function
  have hsplit : function.toList =
      "geo".toList ++ ':' :: ':' :: ("Scale".toList ++ ':' :: ':' :: "operator()".toList) := by
    decide
  have hcall : IsOwnName "operator()".toList := by
    refine .operator (by decide) (by decide) ?_
    rintro _ ⟨⟩
    decide
  have hname : IsQualifiedName function.toList := by
    rw [hsplit]
    exact .qualified (by decide) (by decide) (.qualified (by decide) (by decide) (.own hcall))
  have hword : Text.IsWord "by".toList := by decide
  have hsign : '=' ∉ function.toList := by decide
  obtain ⟨hparameter, hresult⟩ := finds_function_by_name_iff false hname (by decide) hword
  exact ⟨hname, hword, hsign, hparameter.mpr hsign, hresult.mpr hsign⟩

/-- The key of a rule for an operator that compares ends in front of the operator's `=`. -/
theorem refuses_name_of_comparison :
    IsQualifiedName "operator==".toList ∧
      ofOptions false ["operator==#other=Skip"] [] =
        .error { option := "operator==#other=Skip", defect := .invalidKey } ∧
      ofOptions false ["operator==@=Int"] [] =
        .error { option := "operator==@=Int", defect := .invalidKey } := by
  have hname : IsOwnName "operator==".toList := by
    refine .operator (by decide) (by decide) ?_
    rintro _ ⟨⟩
    decide
  exact ⟨.own hname, by decide, by decide⟩

end RuleBook

end Understudy
