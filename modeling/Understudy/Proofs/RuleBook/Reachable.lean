import Mathlib.Data.List.Forall2
import Understudy.Proofs.Sequencing
import Understudy.RuleBook

/-! # Rule books that options give

A rule text is read in parts, and a rule book grows by one rule at a time. So what every rule text
gives holds of every rule in a book that was built from options. The first such law is that a rule
for return values asks for a scalar: nothing else can be returned.
-/

namespace Understudy

namespace Rule

/-- A rule text is read exactly when each of its parts is: the key and the value around the first
`=`, the kind, and the modifier if there is one. -/
theorem parse_eq_ok_iff {level : Level} {text : String} {rule : Rule} :
    parse level text = .ok rule ↔
      ∃ key value parts, Text.cut '=' text.toList = some (key, value) ∧
        Text.trim key ≠ [] ∧ Selector.parse level (Text.trim key) = .ok rule.selector ∧
        Text.trim value ≠ [] ∧ ValueParts.parse (Text.trim value) = .ok parts ∧
        Treatment.ofParts rule.selector.role parts = .ok rule.treatment ∧
        parts.modifier?.mapM Modifier.parse = .ok rule.modifier? := by
  unfold parse
  constructor
  · intro h
    cases hcut : Text.cut '=' text.toList with
    | none => rw [hcut] at h; cases h
    | some halves =>
        obtain ⟨key, value⟩ := halves
        rw [hcut] at h
        by_cases hkey : Text.trim key = []
        · simp [hkey, throw, throwThe, MonadExceptOf.throw, bind, Except.bind] at h
        simp only [List.isEmpty_iff, if_neg hkey] at h
        obtain ⟨selector, hselector, h⟩ := bind_eq_ok_iff.mp h
        by_cases hvalue : Text.trim value = []
        · simp [hvalue, throw, throwThe, MonadExceptOf.throw, bind, Except.bind] at h
        simp only [if_neg hvalue] at h
        obtain ⟨parts, hparts, h⟩ := bind_eq_ok_iff.mp h
        obtain ⟨treatment, htreatment, h⟩ := bind_eq_ok_iff.mp h
        refine ⟨key, value, parts, rfl, hkey, ?_⟩
        cases hmodifier : parts.modifier? with
        | none =>
            rw [hmodifier] at h
            cases h
            exact ⟨hselector, hvalue, hparts, htreatment, by simp [Option.mapM_none]; rfl⟩
        | some modifier =>
            rw [hmodifier] at h
            obtain ⟨read, hread, h⟩ := bind_eq_ok_iff.mp h
            cases h
            exact ⟨hselector, hvalue, hparts, htreatment, by
              simp [hread, Functor.map, Except.map]⟩
  · rintro ⟨key, value, parts, hcut, hkey, hselector, hvalue, hparts, htreatment, hmodifier⟩
    obtain ⟨selector, treatment, modifier?⟩ := rule
    simp only [hcut, List.isEmpty_iff, if_neg hkey, if_neg hvalue]
    refine bind_eq_ok_iff.mpr ⟨selector, hselector, ?_⟩
    refine bind_eq_ok_iff.mpr ⟨parts, hparts, ?_⟩
    refine bind_eq_ok_iff.mpr ⟨treatment, htreatment, ?_⟩
    -- A modifier is read only where there is one.
    cases hwritten : parts.modifier? with
    | none =>
        rw [hwritten] at hmodifier
        cases hmodifier
        rfl
    | some modifier =>
        rw [hwritten] at hmodifier
        cases hread : Modifier.parse modifier with
        | error defect => simp [hread, Functor.map, Except.map] at hmodifier
        | ok read =>
            simp only [Option.mapM_some, hread, Functor.map, Except.map] at hmodifier
            cases hmodifier
            exact bind_eq_ok_iff.mpr ⟨read, hread, rfl⟩

/-- Whether a rule is about the base name of a type. -/
def namesType (rule : Rule) (type : CType) (role : Role) : Bool :=
  rule.selector = .typeName role (RuleBook.normalised type.written.name) ||
    rule.selector = .typeName role (RuleBook.normalised type.bareName)

end Rule

namespace Treatment

/-- The parts of a value name a treatment for return values only if that is a scalar. -/
theorem exists_scalar_of_ofParts {parts : ValueParts} {treatment : Treatment}
    (h : ofParts .result parts = .ok treatment) : ∃ s, treatment = scalar s := by
  simp only [ofParts] at h
  split at h
  · cases h
  split at h
  · cases h
  cases hnamed : ofToken? (String.ofList parts.token) (parts.argument?.map String.ofList) with
  | none => rw [hnamed] at h; cases h
  | some named =>
      rw [hnamed] at h
      cases named with
      | scalar s =>
          cases h
          exact ⟨s, rfl⟩
      | output | memoryBuffer | object | skip => cases h

end Treatment

/-- A rule for return values asks for a scalar. -/
theorem Rule.exists_scalar_of_parse {level : Level} {text : String} {rule : Rule}
    (h : parse level text = .ok rule) (hrole : rule.selector.role = .result) :
    ∃ s, rule.treatment = .scalar s := by
  obtain ⟨_, _, parts, -, -, -, -, -, htreatment, -⟩ := parse_eq_ok_iff.mp h
  rw [hrole] at htreatment
  exact Treatment.exists_scalar_of_ofParts htreatment

namespace RuleBook

variable {book next : RuleBook} {level : Level}

theorem mem_rules_append {new rule : Rule} {other : Level} :
    rule ∈ (book.append level new).rules other ↔
      rule ∈ book.rules other ∨ other = level ∧ rule = new := by
  cases level <;> cases other <;> simp [append, rules]

/-- A text adds the rule that it gives, unless the list has a rule with the same selector. -/
theorem add_eq_ok_iff {text : String} :
    book.add level text = .ok next ↔
      ∃ rule, Rule.parse level text = .ok rule ∧
        (∀ earlier ∈ book.rules level, earlier.selector ≠ rule.selector) ∧
        next = book.append level rule := by
  unfold add
  cases hparse : Rule.parse level text with
  | error defect => simp
  | ok rule =>
      by_cases htaken : (book.rules level).any fun earlier => earlier.selector = rule.selector
      · simp only [htaken, if_true, reduceCtorEq, Except.ok.injEq, exists_eq_left', false_iff]
        rintro ⟨hfree, -⟩
        obtain ⟨earlier, hmem, hsame⟩ := List.any_eq_true.mp htaken
        exact hfree earlier hmem (of_decide_eq_true hsame)
      · simp only [htaken, if_false, Except.ok.injEq, exists_eq_left', Bool.false_eq_true]
        have hfree : ∀ earlier ∈ book.rules level, earlier.selector ≠ rule.selector := by
          intro earlier hmem hsame
          exact htaken (List.any_eq_true.mpr ⟨earlier, hmem, decide_eq_true hsame⟩)
        exact ⟨fun h => ⟨hfree, h.symm⟩, fun h => h.2.symm⟩

theorem rules_append (other : Level) (rule : Rule) :
    (book.append level rule).rules other =
      if other = level then book.rules other ++ [rule] else book.rules other := by
  cases level <;> cases other <;> rfl

/-- A book with more rules at the end of one of its lists. -/
def extend (book : RuleBook) (level : Level) (rules : List Rule) : RuleBook :=
  match level with
  | .parameter => { book with parameterRules := book.parameterRules ++ rules }
  | .type => { book with typeRules := book.typeRules ++ rules }

theorem extend_nil : book.extend level [] = book := by
  cases level <;> simp [extend]

theorem extend_cons {rule : Rule} {rules : List Rule} :
    book.extend level (rule :: rules) = (book.append level rule).extend level rules := by
  cases level <;> simp [extend, append]

theorem rules_extend (other : Level) (rules : List Rule) :
    (book.extend level rules).rules other =
      if other = level then book.rules other ++ rules else book.rules other := by
  cases level <;> cases other <;> rfl

/-- Texts are all added exactly when each is read as a rule and no two of these rules, and none of
them and one that was there before, have the same selector. -/
theorem addAll_eq_ok_iff {texts : List String} :
    book.addAll level texts = .ok next ↔
      ∃ rules, List.Forall₂ (fun text rule => Rule.parse level text = .ok rule) texts rules ∧
        (rules.Pairwise fun a b => a.selector ≠ b.selector) ∧
        (∀ earlier ∈ book.rules level, ∀ rule ∈ rules, earlier.selector ≠ rule.selector) ∧
        next = book.extend level rules := by
  induction texts generalizing book with
  | nil =>
      constructor
      · intro hrun
        cases hrun
        exact ⟨[], .nil, .nil, by simp, extend_nil.symm⟩
      · rintro ⟨rules, hreads, -, -, rfl⟩
        cases hreads
        rw [extend_nil]
        rfl
  | cons text texts ih =>
      simp only [addAll, List.foldlM_cons] at ih ⊢
      rw [bind_eq_ok_iff]
      constructor
      · rintro ⟨middle, hmiddle, hrun⟩
        obtain ⟨rule, hread, hfree, rfl⟩ := add_eq_ok_iff.mp hmiddle
        -- The other rules come to a book that has the first one already.
        obtain ⟨rules, hreads, hapart, hfresh, rfl⟩ := ih.mp hrun
        rw [rules_append, if_pos rfl] at hfresh
        obtain ⟨hfresh, hlast⟩ := List.forall_mem_append.mp hfresh
        refine ⟨rule :: rules, .cons hread hreads, ?_, ?_, extend_cons.symm⟩
        · exact List.pairwise_cons.mpr ⟨hlast rule (List.mem_singleton_self rule), hapart⟩
        · intro earlier hmem
          exact List.forall_mem_cons.mpr ⟨hfree earlier hmem, hfresh earlier hmem⟩
      · rintro ⟨rules, hreads, hapart, hfresh, rfl⟩
        cases hreads with
        | @cons _ rule _ rules hread hreads =>
            obtain ⟨hlast, hapart⟩ := List.pairwise_cons.mp hapart
            refine ⟨book.append level rule, add_eq_ok_iff.mpr ⟨rule, hread, ?_, rfl⟩, ?_⟩
            · intro earlier hmem
              exact hfresh earlier hmem rule List.mem_cons_self
            · refine ih.mpr ⟨rules, hreads, hapart, ?_, extend_cons⟩
              rw [rules_append, if_pos rfl]
              refine List.forall_mem_append.mpr ⟨fun earlier hmem later hlater => ?_, ?_⟩
              · exact hfresh earlier hmem later (List.mem_cons_of_mem rule hlater)
              · intro earlier hmem
                rw [List.mem_singleton.mp hmem]
                exact hlast

/-- What every accepted text preserves, a run over texts preserves. -/
theorem addAll_induction {P : RuleBook → Prop}
    (hadd : ∀ book level text next, P book → add book level text = .ok next → P next)
    {texts : List String} (hbook : P book) (hrun : book.addAll level texts = .ok next) :
    P next := by
  induction texts generalizing book with
  | nil =>
      cases hrun
      exact hbook
  | cons text texts ih =>
      simp only [addAll, List.foldlM_cons] at hrun
      obtain ⟨middle, hmiddle, hrun⟩ := bind_eq_ok_iff.mp hrun
      exact ih (hadd book level text middle hbook hmiddle) hrun

/-- What holds of the empty book and is preserved by every accepted text holds of every book that
options give. -/
theorem ofOptions_induction {P : RuleBook → Prop} {resolveAliases : Bool}
    {parameters types : List String} (hempty : P { resolveAliases })
    (hadd : ∀ book level text next, P book → add book level text = .ok next → P next)
    (hbook : ofOptions resolveAliases parameters types = .ok book) : P book := by
  obtain ⟨middle, hmiddle, hbook⟩ := bind_eq_ok_iff.mp hbook
  exact addAll_induction hadd (addAll_induction hadd hempty hmiddle) hbook

/-- What every rule text gives holds of every rule that options give. -/
theorem forall_rules_of_ofOptions {p : Rule → Prop} {resolveAliases : Bool}
    {parameters types : List String}
    (hparse : ∀ level text rule, Rule.parse level text = .ok rule → p rule)
    (hbook : ofOptions resolveAliases parameters types = .ok book) :
    ∀ level, ∀ rule ∈ book.rules level, p rule := by
  refine ofOptions_induction (P := fun book => ∀ level, ∀ rule ∈ book.rules level, p rule)
    ?_ ?_ hbook
  · intro level rule hmem
    cases level <;> simp [rules] at hmem
  · intro book level text next hall hnext other rule hmem
    obtain ⟨new, hnew, -, rfl⟩ := add_eq_ok_iff.mp hnext
    rcases mem_rules_append.mp hmem with hmem | ⟨-, rfl⟩
    · exact hall other rule hmem
    · exact hparse level text rule hnew

theorem mem_of_find? {rules : List Rule} {selector : Selector} {rule : Rule}
    (h : find? rules selector = some rule) : rule ∈ rules ∧ rule.selector = selector := by
  unfold find? at h
  have hsame := List.find?_some h
  exact ⟨List.mem_of_find?_eq_some h, of_decide_eq_true hsame⟩

theorem parameterRule?_eq {function parameter : String} :
    book.parameterRule? function parameter =
      (find? book.parameterRules (.functionParameter function parameter)).or
        (find? book.parameterRules (.parameterName parameter)) := by
  rw [parameterRule?, Option.orElse_eq_orElse, Option.orElse_eq_or]

theorem typeRule?_eq {type : CType} {role : Role} :
    book.typeRule? type role =
      (find? book.typeRules (.typeSpelling role (normalised type.spelling))).or
        (book.typeRules.find? fun rule => rule.namesType type role) := by
  rw [typeRule?, Option.orElse_eq_orElse, Option.orElse_eq_or]
  rfl

theorem mem_of_parameterRule? {function parameter : String} {rule : Rule}
    (h : book.parameterRule? function parameter = some rule) : rule ∈ book.rules .parameter := by
  rw [parameterRule?_eq, Option.or_eq_some_iff] at h
  rcases h with hfunction | ⟨-, hname⟩
  · exact (mem_of_find? hfunction).1
  · exact (mem_of_find? hname).1

theorem mem_of_resultRule? {function : String} {rule : Rule}
    (h : book.resultRule? function = some rule) :
    rule ∈ book.rules .parameter ∧ rule.selector = .functionResult function :=
  mem_of_find? h

theorem mem_of_typeRule? {type : CType} {role : Role} {rule : Rule}
    (h : book.typeRule? type role = some rule) :
    rule ∈ book.rules .type ∧ rule.selector.role = role := by
  rw [typeRule?_eq, Option.or_eq_some_iff] at h
  rcases h with hspelling | ⟨-, hname⟩
  · obtain ⟨hmem, hselector⟩ := mem_of_find? hspelling
    exact ⟨hmem, by rw [hselector]; rfl⟩
  · refine ⟨List.mem_of_find?_eq_some hname, ?_⟩
    have hselector := List.find?_some hname
    simp only [Rule.namesType, Bool.or_eq_true, decide_eq_true_eq] at hselector
    rcases hselector with hselector | hselector <;> rw [hselector] <;> rfl

/-- In a book that options give, a rule for return values asks for a scalar. -/
theorem exists_scalar_of_result {resolveAliases : Bool} {parameters types : List String}
    (hbook : ofOptions resolveAliases parameters types = .ok book) {rule : Rule}
    (hmem : rule ∈ book.rules level) (hrole : rule.selector.role = .result) :
    ∃ s, rule.treatment = .scalar s := by
  have hall := forall_rules_of_ofOptions (fun _ _ _ => Rule.exists_scalar_of_parse) hbook
  exact hall level rule hmem hrole

end RuleBook

end Understudy
