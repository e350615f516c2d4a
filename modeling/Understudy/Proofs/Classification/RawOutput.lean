import Understudy.Proofs.Classification.Decision
import Understudy.Proofs.CType.Size

/-! # What outputs are copied into

Without a copier the bytes of an output are copied over whatever the parameter gives access to, so
that should be plain data. A pointer or a reference to anything else passes as a handle. Of an array
the heuristics only ask whether its elements have a size, and pointers and class template
specialisations have one too.
-/

namespace Understudy

namespace Category

/-- Whether values of the base type are plain data: arithmetic, enumerations and records. -/
def isData : Category → Bool
  | arithmetic _ | enum | record => true
  | void | typedef | template | functionPointer | incomplete => false

end Category

/-- Without extents, an indirection leads neither to a reference nor to an array. -/
theorem Written.of_pointee? {w pointee : Written} (hextents : w.extents = [])
    (hpointee : w.pointee? = some pointee) :
    pointee.reference = .none ∧ pointee.extents = [] := by
  by_cases hreference : w.reference = .none
  · simp only [pointee?, hreference, hextents, ne_eq, not_true, if_false] at hpointee
    split at hpointee
    next hcons => cases hcons
    next => cases hpointee
    next =>
      cases hpointee
      exact ⟨rfl, rfl⟩
  · rw [pointee?, if_pos hreference] at hpointee
    cases hpointee
    exact ⟨rfl, hextents⟩

namespace CType

/-- The object that the bytes of an output parameter are copied into: the elements of an array, or
what a pointer or a reference leads to. -/
def copiedInto? (t : CType) : Option CType :=
  if t.canonical.extents = [] then t.canonical.pointee? else some t.canonical.element

/-- Whether a canonical type is one of plain data, with nothing else written on it. -/
def IsPlainData (t : CType) : Prop := t.isPlain = true ∧ t.category.isData = true

instance : DecidablePred IsPlainData :=
  fun t => inferInstanceAs (Decidable (t.isPlain = true ∧ t.category.isData = true))

/-- Whether a type is an array, or a reference to one, whose elements are pointers or class template
specialisations. A pointer to one of these elements passes as a handle. -/
def IsArrayOfHandles (t : CType) : Prop :=
  t.canonical.extents ≠ [] ∧ (t.canonical.pointers ≠ [] ∨ t.canonical.category = .template)

variable {t : CType}

/-- What a canonical type has a size by is what is written, unless it is a pointer. -/
theorem isSized_plain_written (hcanonical : t.IsCanonical) (hpointers : t.pointers = []) :
    (plain t.written).isSized = t.isSized := by
  cases t with
  | plain w => rfl
  | aliasing w aliased =>
      rw [written, isSized, isSized]
      cases hcategory : w.category with
      | typedef => exact absurd hpointers (hcanonical hcategory).2
      | void | arithmetic | enum | record | template | functionPointer | incomplete => rfl

/-- What has a size without being a pointer is plain data or a class template specialisation. -/
theorem isData_category_iff (hcanonical : t.IsCanonical) (hpointers : t.pointers = [])
    (hsized : t.isSized = true) : t.category.isData = true ↔ t.category ≠ .template := by
  have hwritten : t.written.pointers = [] := hpointers
  rw [← isSized_plain_written hcanonical hpointers, isSized, hwritten] at hsized
  rw [CType.category]
  cases hcategory : t.written.category with
  | arithmetic | enum | record | template => simp [Category.isData]
  | void | typedef | functionPointer | incomplete =>
      rw [hcategory] at hsized
      cases hsized

/-- The elements of an array that have a size are plain data unless they are handles. -/
theorem isPlainData_element_iff (hcanonical : t.IsCanonical) (hsized : t.isSized = true) :
    t.element.IsPlainData ↔ ¬ (t.pointers ≠ [] ∨ t.category = .template) := by
  have hplain : t.element.isPlain = true ↔ t.pointers = [] := by
    simp [isPlain, element, Written.isPlain, Written.element, pointers]
  have hcategory : t.element.category = t.category := by
    simp [CType.category, element, Written.element]
  rw [IsPlainData, hplain, hcategory, not_or, not_not]
  exact and_congr_right fun hpointers => isData_category_iff hcanonical hpointers hsized

end CType

namespace Classification

variable {t : CType} {size? : Option ByteCount}

theorem passing_ofValue_ne_output (category : Category) :
    (ofValue category).passing ≠ .output size? := by
  cases category <;> simp [ofValue, unsupported]

theorem isSized_of_output_array (h : (ofArray t).passing = .output size?) :
    t.canonical.isSized = true := by
  rw [← t.canonical.isSized_element]
  unfold ofArray at h
  dsimp only at h
  split at h
  · cases h
  split at h
  · split at h
    · split at h <;> cases h
    · cases h
  split at h
  next hsized => exact hsized
  · cases h

theorem isData_of_output_indirect {byReference : Bool} {pointee : Written}
    (h : (ofIndirect t byReference pointee).passing = .output size?) :
    pointee.pointers = [] ∧ pointee.category.isData = true := by
  unfold ofIndirect at h
  dsimp only at h
  split at h
  · cases h
  split at h
  · split at h <;> cases h
  split at h
  · cases h
  next hpointers =>
    refine ⟨by simpa using hpointers, ?_⟩
    cases hcategory : pointee.category with
    | arithmetic | enum | record => rfl
    | void | incomplete | template | typedef | functionPointer =>
        rw [hcategory] at h
        cases h

/-- An output is an array of elements with a size, or leads to plain data. -/
theorem copiedInto?_of_output (h : (ofParameterType t).passing = .output size?) :
    ∃ copied, t.copiedInto? = some copied ∧ (copied.IsPlainData ↔ ¬ t.IsArrayOfHandles) := by
  unfold ofParameterType at h
  dsimp only at h
  split at h
  · cases h
  split at h
  · split at h
    · exact absurd h (passing_ofValue_ne_output _)
    · cases h
  split at h
  next hextents =>
    have harray : t.canonical.extents ≠ [] := by simpa using hextents
    refine ⟨t.canonical.element, if_neg harray, ?_⟩
    have hsized := isSized_of_output_array h
    rw [CType.IsArrayOfHandles, and_iff_right harray]
    exact CType.isPlainData_element_iff t.isCanonical_canonical hsized
  next hextents =>
    have hnone : t.canonical.extents = [] := by simpa using hextents
    split at h
    · exact absurd h (passing_ofValue_ne_output _)
    next pointee hpointee =>
      obtain ⟨hpointers, hdata⟩ := isData_of_output_indirect h
      refine ⟨t.canonical.mapWritten fun _ => pointee, ?_, ?_⟩
      · rw [CType.copiedInto?, if_pos hnone, CType.pointee?, hpointee, Option.map_some]
      · refine iff_of_true ⟨?_, ?_⟩ fun harray => harray.1 hnone
        · obtain ⟨hreference, hinner⟩ := Written.of_pointee? hnone hpointee
          simp [CType.isPlain, Written.isPlain, hpointers, hreference, hinner]
        · rw [CType.category, CType.written_mapWritten]
          exact hdata

end Classification

namespace RuleBook

/-- Where no rule decides and a parameter is an output, the bytes of the expectation are copied into
plain data exactly when the parameter is no array of handles. -/
theorem copies_into_plain_data_iff (book : RuleBook) (function : String) (p : Parameter)
    {size? : Option ByteCount} (hrule : book.parameterRule? function p.name = none)
    (hdecision : book.typeDecision? .parameter p.type = none)
    (houtput : (book.classifyParameter function p).passing = .output size?) :
    ∃ copied, p.type.copiedInto? = some copied ∧
      (copied.IsPlainData ↔ ¬ p.type.IsArrayOfHandles) := by
  rw [classifyParameter_of_no_rule hrule, hdecision] at houtput
  exact Classification.copiedInto?_of_output houtput

/-- A reference to a record is filled in by a raw copy into the record. -/
theorem copies_into_plain_data_of_reference :
    let p : Parameter :=
      { name := "p", position := 0, type := (CType.record "Point").withReference .lvalue }
    let size? : Option ByteCount := some { count := 1, element := .record "Point" }
    ({} : RuleBook).parameterRule? "f" p.name = none ∧
      ({} : RuleBook).typeDecision? .parameter p.type = none ∧
      (({} : RuleBook).classifyParameter "f" p).passing = .output size? ∧
      ¬ p.type.IsArrayOfHandles ∧
      ∃ copied, p.type.copiedInto? = some copied ∧ copied.IsPlainData := by
  intro p size?
  have houtput : (({} : RuleBook).classifyParameter "f" p).passing = .output size? := by decide
  have hplain : ¬ p.type.IsArrayOfHandles := fun harray => harray.1 rfl
  obtain ⟨copied, hcopied, hdata⟩ := copies_into_plain_data_iff {} "f" p rfl rfl houtput
  exact ⟨rfl, rfl, houtput, hplain, copied, hcopied, hdata.mpr hplain⟩

/-- An array of vectors is filled in by a raw copy over the vectors, while a pointer or a reference
to one is a handle. -/
theorem copies_into_array_of_vectors :
    let vector : CType := .plain { name := "std::vector<int>", category := .template }
    let passing := fun type =>
      (({} : RuleBook).classifyParameter "f" { name := "v", position := 0, type }).passing
    ({} : RuleBook).parameterRule? "f" "v" = none ∧
      ({} : RuleBook).typeDecision? .parameter (vector.array (some 2)) = none ∧
      passing (vector.array (some 2)) = .output (some { count := 2, element := vector }) ∧
      (vector.array (some 2)).copiedInto? = some vector ∧ ¬ vector.IsPlainData ∧
      passing vector.pointer = .scalar .pointer ∧
      passing (vector.withReference .lvalue) = .scalar .pointer := by
  decide

end RuleBook

end Understudy
