import Understudy.Analysis

/-! # What makes a declaration mockable

A declaration is mockable when none of the obstacles is there: none in what it says about the
function, none in its return type and none in any parameter. Which of several is reported does not
matter for that.
-/

namespace Understudy

namespace Obstacle

theorem ofResult?_eq_none_iff {type : CType} {result? : Option Classification} :
    ofResult? type result? = none ↔ ∀ c, result? = some c → c.isUnsupported = false := by
  cases result? <;> simp [ofResult?]

theorem ofParameters?_eq_none_iff {parameters : List (Parameter × Classification)} :
    ofParameters? parameters = none ↔ ∀ entry ∈ parameters, entry.2.isUnsupported = false := by
  simp [ofParameters?]

theorem find?_eq_none_iff {d : Declaration} {result? : Option Classification}
    {parameters : List (Parameter × Classification)} :
    find? d result? parameters = none ↔
      ofTraits? d = none ∧ ofResult? d.returnType result? = none ∧
        ofParameters? parameters = none := by
  simp only [find?, Option.orElse_eq_orElse, Option.orElse_eq_or, Option.or_eq_none_iff]

theorem ofTraits?_ne_unsupportedParameter {d : Declaration} {name type : String} :
    ofTraits? d ≠ some (unsupportedParameter name type) := by
  intro h
  unfold ofTraits? at h
  repeat' split at h
  all_goals cases h

/-- A parameter is reported only when it is the first thing that stands in the way. -/
theorem of_find?_eq_unsupportedParameter {d : Declaration} {result? : Option Classification}
    {parameters : List (Parameter × Classification)} {name type : String}
    (h : find? d result? parameters = some (unsupportedParameter name type)) :
    ofTraits? d = none ∧ ofResult? d.returnType result? = none := by
  simp only [find?, Option.orElse_eq_orElse, Option.orElse_eq_or, Option.or_eq_some_iff] at h
  rcases h with htraits | ⟨htraits, hresult | ⟨hresult, -⟩⟩
  · exact absurd htraits ofTraits?_ne_unsupportedParameter
  · unfold ofResult? at hresult
    split at hresult <;> cases hresult
  · exact ⟨htraits, hresult⟩

end Obstacle

namespace RuleBook

variable {book : RuleBook} {d : Declaration}

/-- A declaration is mockable exactly when it says nothing that forbids it and every value that
passes is supported. -/
theorem isMockable_analyse_iff :
    (book.analyse d).isMockable = true ↔
      Obstacle.ofTraits? d = none ∧
        (∀ c, book.classifyResult? d.qualifiedName d.returnType = some c →
          c.isUnsupported = false) ∧
        ∀ p ∈ d.parameters, (book.classifyParameter d.qualifiedName p).isUnsupported = false := by
  rw [Analysis.isMockable, Option.isNone_iff_eq_none]
  change Obstacle.find? d _ _ = none ↔ _
  rw [Obstacle.find?_eq_none_iff, Obstacle.ofResult?_eq_none_iff,
    Obstacle.ofParameters?_eq_none_iff]
  simp only [List.forall_mem_map]

end RuleBook

end Understudy
