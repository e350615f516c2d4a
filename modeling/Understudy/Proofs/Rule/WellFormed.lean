import Understudy.Proofs.Rule.Reading

/-! # What reading a rule promises

Every rule that is read is well formed: if it is about a return value, it asks for a scalar, and a
length that it gives is not blank. A text that is not read has a defect of its own. That a selector
was given before is no defect of a text, and reading never reports it.
-/

namespace Understudy

/-! ## Rules that are read -/

namespace Treatment

variable {role : Role} {token argument : List Char} {argument? : Option (List Char)}
  {treatment : Treatment} {length : String}

theorem Named.hasContent_length (h : Named role token argument? treatment)
    (hargument : ArgumentWritten argument argument?) (hlength : treatment.length? = some length) :
    Text.HasContent length.toList := by
  cases h with
  | scalar | output | skip | object => cases hlength
  | memoryBuffer text =>
      cases hlength
      cases hargument with
      | present _ _ hcontent _ =>
          rw [String.toList_ofList]
          exact hcontent.trim

end Treatment

namespace Rule

theorem ValueWritten.hasContent_length {role : Role} {value : List Char} {treatment : Treatment}
    {modifier? : Option Modifier} (h : ValueWritten role value treatment modifier?)
    {length : String} (hlength : treatment.length? = some length) :
    Text.HasContent length.toList := by
  cases h with
  | plain hnamed hargument | modified hnamed hargument =>
      exact hnamed.hasContent_length hargument hlength

/-- What the reading of a rule has checked about its treatment. -/
structure WellFormed (rule : Rule) : Prop where
  scalar_of_result : rule.selector.role = .result → ∃ s, rule.treatment = .scalar s
  hasContent_length : ∀ length, rule.treatment.length? = some length →
    Text.HasContent length.toList

variable {level : Level} {text : String} {rule : Rule}

theorem wellFormed_of_parse (h : parse level text = .ok rule) : rule.WellFormed where
  scalar_of_result := exists_scalar_of_parse h
  hasContent_length length hlength := by
    obtain ⟨-, -, -, hvalue⟩ := parse_eq_ok_iff_written.mp h
    exact hvalue.hasContent_length hlength

end Rule

/-! ## Texts that are not read -/

theorem Selector.parse_ne_duplicate (level : Level) (key : List Char) :
    Selector.parse level key ≠ .error .duplicate := by
  intro h
  cases level with
  | parameter =>
      simp only [Selector.parse, parseParameterKey] at h
      split at h
      · split at h <;> cases h
      split at h
      · cases h
      split at h
      · cases h
      · split at h <;> cases h
  | type =>
      simp only [Selector.parse] at h
      unfold parseTypeKey at h
      split at h
      · unfold parseTypeKey.ofType at h
        split at h
        · cases h
        · split at h <;> cases h
      · unfold parseTypeKey.ofType at h
        split at h
        · cases h
        · split at h <;> cases h
      · cases h

theorem ValueParts.ofRest_ne_duplicate (token : List Char) (argument? : Option (List Char))
    (rest : List Char) : ofRest token argument? rest ≠ .error .duplicate := by
  intro h
  unfold ofRest at h
  split at h
  · cases h
  · cases h
  · split at h <;> cases h

theorem ValueParts.parse_ne_duplicate (value : List Char) :
    ValueParts.parse value ≠ .error .duplicate := by
  intro h
  simp only [ValueParts.parse] at h
  split at h
  · split at h
    · cases h
    · exact ofRest_ne_duplicate _ _ _ h
  · exact ofRest_ne_duplicate _ _ _ h

theorem Treatment.ofParts_ne_duplicate (role : Role) (parts : ValueParts) :
    ofParts role parts ≠ .error .duplicate := by
  intro h
  simp only [ofParts] at h
  split at h
  · cases h
  split at h
  · cases h
  split at h <;> cases h

theorem Modifier.parse_ne_duplicate (text : List Char) :
    Modifier.parse text ≠ .error .duplicate := by
  intro h
  simp only [Modifier.parse] at h
  split at h
  · cases h
  split at h
  · cases h
  split at h <;> cases h

theorem Rule.parse_ne_duplicate (level : Level) (text : String) :
    Rule.parse level text ≠ .error .duplicate := by
  intro h
  unfold Rule.parse at h
  cases hcut : Text.cut '=' text.toList with
  | none =>
      rw [hcut] at h
      cases h
  | some halves =>
      obtain ⟨key, value⟩ := halves
      rw [hcut] at h
      by_cases hkey : Text.trim key = []
      · simp [hkey, throw, throwThe, MonadExceptOf.throw, bind, Except.bind] at h
      simp only [List.isEmpty_iff, if_neg hkey] at h
      rcases bind_eq_error_iff.mp h with hselector | ⟨selector, -, h⟩
      · exact Selector.parse_ne_duplicate level _ hselector
      by_cases hvalue : Text.trim value = []
      · simp [hvalue, throw, throwThe, MonadExceptOf.throw, bind, Except.bind] at h
      simp only [if_neg hvalue] at h
      rcases bind_eq_error_iff.mp h with hparts | ⟨parts, -, h⟩
      · exact ValueParts.parse_ne_duplicate _ hparts
      rcases bind_eq_error_iff.mp h with htreatment | ⟨treatment, -, h⟩
      · exact Treatment.ofParts_ne_duplicate _ _ htreatment
      cases hmodifier : parts.modifier? with
      | none =>
          rw [hmodifier] at h
          cases h
      | some modifier =>
          rw [hmodifier] at h
          rcases bind_eq_error_iff.mp h with hread | ⟨read, -, h⟩
          · exact Modifier.parse_ne_duplicate modifier hread
          · cases h

end Understudy
