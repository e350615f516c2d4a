import Understudy.Classification.Decide
import Understudy.Proofs.RuleBook.Reachable

/-! # What decides a classification

A type rule decides on a type when it is found for it and applies to its shape. What no rule decides
on is left to the heuristics. The origin of a classification tells which of these it was, so only
the heuristics leave a value unsupported.
-/

namespace Understudy

namespace Classification

/-- What the heuristics make of a type. -/
def ofType : Role → CType → Classification
  | .parameter => ofParameterType
  | .result => ofReturnType

variable {c : Classification}

theorem isUnsupported_iff : c.isUnsupported = true ↔ c.passing = .skip ∧ c.origin = .heuristic := by
  simp [isUnsupported]

/-- What a rule decides on is supported, even where the rule asks to leave it out. -/
theorem isUnsupported_of_rule (h : c.origin ≠ .heuristic) : c.isUnsupported = false := by
  simp [isUnsupported, h]

end Classification

namespace Rule

variable {rule : Rule} {role : Role} {type looked : CType} {c : Classification}

/-- What a type rule makes of a type, if it applies. -/
def classifyTyped? (rule : Rule) (role : Role) (type looked : CType) : Option Classification :=
  match role with
  | .parameter => rule.classifyTypedParameter? type looked
  | .result => rule.classifyTypedResult? type looked

/-- A type rule for parameters classifies as a rule for a parameter does, where it applies, but that
an object rule may call for the copier of its tag. -/
theorem classifyParameter_of_typed (h : rule.classifyTypedParameter? type looked = some c) :
    c = rule.classifyParameter type .typeRule ∨
      ∃ tag, rule.treatment = .object tag ∧
        c = { rule.classifyParameter type .typeRule with passing := .copiedOutput tag } := by
  unfold classifyTypedParameter? at h
  split at h
  next tag _ htreatment =>
    unfold classifyObject? at h
    dsimp only at h
    split at h
    · split at h
      · cases h
        exact .inr ⟨tag, htreatment, rfl⟩
      · cases h
        exact .inl rfl
    · cases h
  · split at h
    · cases h
      exact .inl rfl
    · cases h
  · cases h
    exact .inl rfl

/-- A type rule for return values classifies as a rule for a function does, where it applies. -/
theorem classifyResult_of_typed (h : rule.classifyTypedResult? type looked = some c) :
    c = rule.classifyResult type .typeRule := by
  unfold classifyTypedResult? at h
  split at h
  · split at h
    · cases h
      rfl
    · cases h
  · cases h
    rfl

theorem origin_classifyResult (rule : Rule) (type : CType) (origin : Origin) :
    (rule.classifyResult type origin).origin = origin := by
  unfold classifyResult
  split <;> rfl

theorem origin_of_typed (h : rule.classifyTyped? role type looked = some c) :
    c.origin = .typeRule := by
  cases role with
  | parameter =>
      rcases classifyParameter_of_typed h with rfl | ⟨tag, -, rfl⟩
      · rfl
      · rfl
  | result =>
      rw [classifyResult_of_typed h]
      exact rule.origin_classifyResult type .typeRule

/-- Only a rule for a base name may leave a type alone that it was found for. -/
theorem exists_typeName_of_typed (h : rule.classifyTyped? role type looked = none) :
    ∃ other name, rule.selector = .typeName other name := by
  cases role with
  | parameter =>
      simp only [classifyTyped?, classifyTypedParameter?] at h
      split at h
      next hselector _ => exact ⟨_, _, hselector⟩
      next hselector _ => exact ⟨_, _, hselector⟩
      next => cases h
  | result =>
      simp only [classifyTyped?, classifyTypedResult?] at h
      split at h
      next hselector => exact ⟨_, _, hselector⟩
      next => cases h

end Rule

namespace RuleBook

variable {book : RuleBook} {role : Role} {type : CType} {function : String}

/-- The classification that a type rule gives, if one is found and applies. -/
def typeDecision? (book : RuleBook) (role : Role) (type : CType) : Option Classification :=
  (book.typeRule? (book.lookedUp type) role).bind fun rule =>
    rule.classifyTyped? role type (book.lookedUp type)

theorem classifyType_eq :
    book.classifyType type role =
      (book.typeDecision? role type).getD (Classification.ofType role type) := by
  cases role <;> rfl

/-- Without a rule for it, a parameter is classified by its type. -/
theorem classifyParameter_of_no_rule {p : Parameter}
    (h : book.parameterRule? function p.name = none) :
    book.classifyParameter function p =
      (book.typeDecision? .parameter p.type).getD (Classification.ofParameterType p.type) := by
  rw [classifyParameter, h]
  exact classifyType_eq

/-- Only the heuristics leave a type unsupported, and only where no type rule decides. -/
theorem isUnsupported_classifyType_iff :
    (book.classifyType type role).isUnsupported = true ↔
      book.typeDecision? role type = none ∧
        (Classification.ofType role type).isUnsupported = true := by
  rw [classifyType_eq]
  cases hdecision : book.typeDecision? role type with
  | none => simp
  | some c =>
      obtain ⟨rule, -, hgiven⟩ := Option.bind_eq_some_iff.mp hdecision
      have hsupported : c.isUnsupported = false :=
        Classification.isUnsupported_of_rule (by simp [Rule.origin_of_typed hgiven])
      simp [hsupported]

theorem isUnsupported_classifyParameter_iff {p : Parameter} :
    (book.classifyParameter function p).isUnsupported = true ↔
      book.parameterRule? function p.name = none ∧
        (book.classifyType p.type .parameter).isUnsupported = true := by
  unfold classifyParameter
  cases hrule : book.parameterRule? function p.name with
  | none => simp
  | some rule =>
      have hsupported : (rule.classifyParameter p.type .parameterRule).isUnsupported = false :=
        Classification.isUnsupported_of_rule (by simp [Rule.classifyParameter])
      simp [hsupported]

theorem exists_isUnsupported_classifyResult?_iff :
    (∃ c, book.classifyResult? function type = some c ∧ c.isUnsupported = true) ↔
      type.canonical.isVoid = false ∧ book.resultRule? function = none ∧
        (book.classifyType type .result).isUnsupported = true := by
  unfold classifyResult?
  split
  next hvoid => simp [hvoid]
  next hvoid =>
    cases hrule : book.resultRule? function with
    | none => simp [hvoid]
    | some rule =>
        have hsupported : (rule.classifyResult type .parameterRule).isUnsupported = false :=
          Classification.isUnsupported_of_rule (by simp [Rule.origin_classifyResult])
        simp [hsupported]

/-- Either a type rule of the role decides, or the heuristics do. -/
theorem classifyType_cases (book : RuleBook) (type : CType) (role : Role) :
    (∃ rule ∈ book.rules .type, rule.selector.role = role ∧
      rule.classifyTyped? role type (book.lookedUp type) = some (book.classifyType type role)) ∨
    book.classifyType type role = Classification.ofType role type := by
  rw [classifyType_eq]
  cases hdecision : book.typeDecision? role type with
  | none => exact .inr rfl
  | some c =>
      obtain ⟨rule, hfound, hgiven⟩ := Option.bind_eq_some_iff.mp hdecision
      obtain ⟨hmem, hrole⟩ := mem_of_typeRule? hfound
      exact .inl ⟨rule, hmem, hrole, hgiven⟩

/-- Either a rule for the parameter decides, or its type does. -/
theorem classifyParameter_cases (book : RuleBook) (function : String) (p : Parameter) :
    (∃ rule ∈ book.rules .parameter,
      book.classifyParameter function p = rule.classifyParameter p.type .parameterRule) ∨
    book.classifyParameter function p = book.classifyType p.type .parameter := by
  unfold classifyParameter
  cases hrule : book.parameterRule? function p.name with
  | none => exact .inr rfl
  | some rule => exact .inl ⟨rule, mem_of_parameterRule? hrule, rfl⟩

/-- Either a rule for the function decides, or its type does. -/
theorem classifyResult?_cases {c : Classification}
    (h : book.classifyResult? function type = some c) :
    (∃ rule ∈ book.rules .parameter, rule.selector.role = .result ∧
      c = rule.classifyResult type .parameterRule) ∨
    c = book.classifyType type .result := by
  unfold classifyResult? at h
  split at h
  · cases h
  cases hrule : book.resultRule? function with
  | some rule =>
      rw [hrule] at h
      cases h
      obtain ⟨hmem, hselector⟩ := mem_of_resultRule? hrule
      exact .inl ⟨rule, hmem, by rw [hselector]; rfl, rfl⟩
  | none =>
      rw [hrule] at h
      cases h
      exact .inr rfl

end RuleBook

end Understudy
