import Understudy.Proofs.Classification.Decision

/-! # Classified return values

A return value passes as a scalar or not at all. The heuristics give a scalar or say that the type
is unsupported, and a rule for return values always asks for a scalar, so a supported return value
can be retrieved and given.
-/

namespace Understudy

namespace Classification

/-- The heuristics represent a return value by a scalar, or not at all. -/
theorem ofReturnType_scalar (type : CType) :
    ofReturnType type = unsupported ∨ ∃ s, (ofReturnType type).passing = .scalar s := by
  simp only [ofReturnType]
  split
  · exact .inl rfl
  split
  · unfold ofReturnedValue
    split
    · exact .inr ⟨_, rfl⟩
    · exact .inr ⟨_, rfl⟩
    · exact .inr ⟨_, rfl⟩
    all_goals exact .inl rfl
  · split
    · exact .inr ⟨_, rfl⟩
    · unfold ofReturnedPointer
      split <;> exact .inr ⟨_, rfl⟩

end Classification

namespace Rule

variable {rule : Rule}

theorem classifyResult_passing {s : Scalar} (hscalar : rule.treatment = .scalar s) (type : CType)
    (origin : Origin) : (rule.classifyResult type origin).passing = .scalar s := by
  simp [classifyResult, hscalar, Treatment.scalar?]

end Rule

namespace RuleBook

variable {book : RuleBook} {function : String} {type : CType}

/-- Exactly the functions that return nothing have no classified return value. -/
theorem classifyResult?_eq_none_iff :
    book.classifyResult? function type = none ↔ type.canonical.isVoid = true := by
  unfold classifyResult?
  split
  next hvoid => simp [hvoid]
  next hvoid => cases book.resultRule? function <;> simp [hvoid]

section

variable {resolveAliases : Bool} {parameters types : List String}

/-- In a book that options give, a type is returned as a scalar, or nothing represents it. -/
theorem scalar_of_classifyType (hbook : ofOptions resolveAliases parameters types = .ok book)
    (type : CType) :
    (book.classifyType type .result).isUnsupported = true ∨
      ∃ s, (book.classifyType type .result).passing = .scalar s := by
  rcases book.classifyType_cases type .result with ⟨rule, hmem, hrole, hgiven⟩ | hheuristic
  · obtain ⟨s, hscalar⟩ := exists_scalar_of_result hbook hmem hrole
    rw [Rule.classifyResult_of_typed hgiven]
    exact .inr ⟨s, Rule.classifyResult_passing hscalar type .typeRule⟩
  · rw [hheuristic]
    rcases Classification.ofReturnType_scalar type with hskip | hscalar
    · rw [Classification.ofType, hskip]
      exact .inl rfl
    · exact .inr hscalar

theorem scalar_of_classifyResult? (hbook : ofOptions resolveAliases parameters types = .ok book)
    {c : Classification} (hresult : book.classifyResult? function type = some c) :
    c.isUnsupported = true ∨ ∃ s, c.passing = .scalar s := by
  rcases classifyResult?_cases hresult with ⟨rule, hmem, hrole, rfl⟩ | rfl
  · obtain ⟨s, hscalar⟩ := exists_scalar_of_result hbook hmem hrole
    exact .inr ⟨s, Rule.classifyResult_passing hscalar type .parameterRule⟩
  · exact scalar_of_classifyType hbook type

end

end RuleBook

end Understudy
