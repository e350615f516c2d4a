import Mathlib.Tactic.Ring
import Understudy.Proofs.Classification.Decision
import Understudy.Proofs.CType.Size

/-! # Generated byte counts

The byte count of a parameter is worth the size of the object behind it, but for two ways of writing
a type. Extents written on an alias of an array are counted with those of the alias, while the
element they are multiplied with still has the extents of the alias. And a pointer written on an
alias of a reference counts the referent in place of the pointer.
-/

namespace Understudy

/-- What the size expression evaluates to. -/
def ByteCount.value (model : DataModel) (bytes : ByteCount) : Nat :=
  bytes.count * bytes.element.withoutOuterConst.size model

/-- The byte count that a passing takes from the declared type. -/
def Passing.byteCount? : Passing → Option ByteCount
  | output size? => size?
  | memoryBuffer (.counted bytes) => some bytes
  | scalar _ | copiedOutput _ | memoryBuffer (.given _) | object _ | skip => none

namespace CType

section Count

variable {extents : List Extent}

/-- A count that starts with some elements is their number times the extents, up to `maxCount`. -/
theorem foldlM_count_eq_min (hknown : ∀ extent ∈ extents, extent.isSome = true) (start : Nat) :
    extents.foldlM (fun count extent => extent.map fun n => min (count * n.toNat) maxCount)
        (min start maxCount) =
      some (min (start * Extent.span extents) maxCount) := by
  induction extents generalizing start with
  | nil => simp [Extent.span]
  | cons extent extents ih =>
      obtain ⟨hextent, hrest⟩ := List.forall_mem_cons.mp hknown
      obtain ⟨n, rfl⟩ := Option.isSome_iff_exists.mp hextent
      have hstep : min (min start maxCount * n.toNat) maxCount =
          min (start * n.toNat) maxCount := by
        rcases Nat.eq_zero_or_pos n.toNat with hzero | hpos
        · simp [hzero]
        · -- A count at the ceiling stays there under any factor but zero.
          have hgrows : maxCount ≤ maxCount * n.toNat := Nat.le_mul_of_pos_right _ hpos
          rw [← Nat.mul_min_mul_right, Nat.min_assoc, Nat.min_eq_right hgrows]
      simp only [List.foldlM_cons, Option.map_some, Option.bind_eq_bind, Option.bind_some, hstep]
      rw [ih hrest, Extent.span, Option.elim_some, Nat.mul_assoc]

theorem elementCount?_eq_span (hknown : ∀ extent ∈ extents, extent.isSome = true)
    (hfits : Extent.span extents < UInt64.size) :
    elementCount? extents = some (Extent.span extents) := by
  have hcount := foldlM_count_eq_min hknown 1
  have hsmall : Extent.span extents ≤ maxCount := Nat.le_sub_one_of_lt hfits
  rw [Nat.one_mul, Nat.min_eq_left hsmall] at hcount
  exact hcount

end Count

variable (model : DataModel) (t : CType)

/-- The size of what a callee accesses through a parameter: a whole array, or what a pointer or a
reference leads to. -/
def accessedSize? : Option Nat :=
  let canonical := t.canonical
  if canonical.extents = [] then canonical.pointee?.map (size model)
  else some (Extent.span canonical.extents * canonical.element.size model)

/-- Whether the size that the declaration shows is the size of what the callee accesses. -/
def IsSizedAsAccessed : Prop :=
  if t.canonical.extents = [] then
    t.pointers ≠ [] → t.reference = .none → t.canonical.reference ≠ .none →
      t.pointee?.map (size model) = some model.pointer
  else
    t.extents ≠ [] → Extent.span (t.canonical.extents.drop t.extents.length) = 1 ∨ t.size model = 0

instance : Decidable (t.IsSizedAsAccessed model) := by
  unfold IsSizedAsAccessed
  infer_instance

/-- What the declared type shows of the object behind a parameter: its elements, or what the
parameter leads to. -/
inductive Shows (t : CType) : ByteCount → Prop
  | elements (count : Nat) (harray : t.canonical.extents ≠ [])
    (hcount : ∀ n, elementCount? t.canonical.extents = some n → count = n) :
    Shows t ⟨count, t.declaredElement⟩
  | declared (pointee : CType) (hextents : t.canonical.extents = [])
    (hindirect : t.reference ≠ .none ∨ t.pointers ≠ []) (hpointee : t.pointee? = some pointee) :
    Shows t ⟨1, pointee⟩
  | canonical (pointee : CType) (hextents : t.canonical.extents = [])
    (hreference : t.reference = .none) (hpointers : t.pointers = [])
    (hpointee : t.canonical.pointee? = some pointee) : Shows t ⟨1, pointee⟩

theorem shows_of_outputSize? {bytes : ByteCount} (h : t.outputSize? = some bytes) :
    t.Shows bytes := by
  simp only [outputSize?, List.isEmpty_iff, Bool.or_eq_true, Bool.not_eq_true', ne_eq,
    decide_eq_true_eq] at h
  split at h
  next hextents =>
    split at h
    next pointee hpointee =>
      split at h
      next =>
        cases h
        split at hpointee
        next hindirect =>
          refine .declared pointee hextents ?_ hpointee
          simpa using hindirect
        next hdirect =>
          rw [not_or] at hdirect
          refine .canonical pointee hextents ?_ ?_ hpointee
          · simpa using hdirect.1
          · simpa using hdirect.2
      next => cases h
    next => cases h
  next hextents =>
    split at h
    next =>
      cases h
      refine .elements _ hextents ?_
      intro n hcount
      rw [hcount, Option.getD_some]
    next => cases h

end CType

namespace Classification

variable {type : CType} {bytes : ByteCount}

theorem byteCount?_ofValue (category : Category) :
    (ofValue category).passing.byteCount? = none := by
  cases category <;> rfl

theorem shows_of_ofArray (harray : type.canonical.extents ≠ [])
    (h : (ofArray type).passing.byteCount? = some bytes) : type.Shows bytes := by
  unfold ofArray at h
  dsimp only at h
  split at h
  · cases h
  split at h
  · cases hcount : CType.elementCount? type.canonical.extents with
    | none => rw [hcount] at h; cases h
    | some count =>
        simp only [hcount] at h
        split at h
        · cases h
          refine .elements count harray ?_
          intro n hn
          rw [hcount] at hn
          exact Option.some.inj hn
        · cases h
  · split at h
    · exact type.shows_of_outputSize? h
    · cases h

theorem shows_of_ofIndirect {byReference : Bool} {pointee : Written}
    (h : (ofIndirect type byReference pointee).passing.byteCount? = some bytes) :
    type.Shows bytes := by
  unfold ofIndirect at h
  dsimp only at h
  split at h
  · cases h
  split at h
  · split at h <;> cases h
  split at h
  · cases h
  split at h
  · cases h
  · cases h
  · cases h
  · exact type.shows_of_outputSize? h
  · exact type.shows_of_outputSize? h
  · exact type.shows_of_outputSize? h
  · cases h
  · cases h

theorem shows_of_ofParameterType (h : (ofParameterType type).passing.byteCount? = some bytes) :
    type.Shows bytes := by
  unfold ofParameterType at h
  dsimp only at h
  split at h
  · cases h
  split at h
  · split at h
    · rw [byteCount?_ofValue] at h
      cases h
    · cases h
  split at h
  next harray =>
    refine shows_of_ofArray ?_ h
    simpa using harray
  next =>
    split at h
    · rw [byteCount?_ofValue] at h
      cases h
    · exact shows_of_ofIndirect h

end Classification

namespace Rule

variable {rule : Rule} {type : CType} {bytes : ByteCount}

theorem shows_of_classifyParameter {origin : Origin}
    (h : (rule.classifyParameter type origin).passing.byteCount? = some bytes) :
    type.Shows bytes := by
  rw [classifyParameter] at h
  cases htreatment : rule.treatment with
  | output =>
      rw [htreatment] at h
      exact type.shows_of_outputSize? h
  | scalar _ | memoryBuffer _ | object _ | skip =>
      rw [htreatment] at h
      cases h

theorem shows_of_classifyTypedParameter? {looked : CType} {c : Classification}
    (htyped : rule.classifyTypedParameter? type looked = some c)
    (h : c.passing.byteCount? = some bytes) : type.Shows bytes := by
  rcases classifyParameter_of_typed htyped with rfl | ⟨tag, -, rfl⟩
  · exact shows_of_classifyParameter h
  · cases h

end Rule

/-- A byte count comes from what the declared type shows, whichever rule or heuristic applies. -/
theorem RuleBook.shows_of_classifyParameter {book : RuleBook} {function : String}
    {parameter : Parameter} {bytes : ByteCount}
    (h : (book.classifyParameter function parameter).passing.byteCount? = some bytes) :
    parameter.type.Shows bytes := by
  rcases book.classifyParameter_cases function parameter with ⟨rule, -, hgiven⟩ | htype
  · rw [hgiven] at h
    exact Rule.shows_of_classifyParameter h
  · rw [htype] at h
    rcases book.classifyType_cases parameter.type .parameter with ⟨rule, -, -, hgiven⟩ | hheuristic
    · exact Rule.shows_of_classifyTypedParameter? hgiven h
    · rw [hheuristic] at h
      exact Classification.shows_of_ofParameterType h

namespace CType

variable (model : DataModel) {t : CType}

theorem value_elements (hknown : ∀ extent ∈ t.canonical.extents, extent.isSome = true)
    (hfits : Extent.span t.canonical.extents < UInt64.size) {count : Nat}
    (hcount : ∀ n, elementCount? t.canonical.extents = some n → count = n) :
    ByteCount.value model ⟨count, t.declaredElement⟩ =
      Extent.span t.canonical.extents * t.declaredElement.size model := by
  rw [ByteCount.value, hcount _ (elementCount?_eq_span hknown hfits), size_withoutOuterConst]

/-- Without extents of its own, the declared type shows the elements of the canonical form. -/
theorem span_mul_declaredElement_of_alias (hextents : t.extents = []) :
    Extent.span t.canonical.extents * t.declaredElement.size model = t.size model := by
  have helement : t.declaredElement = t.canonical.element := by simp [declaredElement, hextents]
  rw [helement, ← size_eq_span_mul_element, size_canonical]

/-- The extents of an alias are counted although the declared element has them already. -/
theorem span_mul_declaredElement_of_extents (hextents : t.extents ≠ []) :
    Extent.span t.canonical.extents * t.declaredElement.size model =
      Extent.span (t.canonical.extents.drop t.extents.length) * t.size model := by
  obtain ⟨inner, hinner⟩ := t.extents_canonical_eq
  have helement : t.declaredElement = t.element := by simp [declaredElement, hextents]
  have hdrop : t.canonical.extents.drop t.extents.length = inner := by
    rw [hinner, List.drop_left]
  rw [helement, hdrop, hinner, Extent.span_append, size_eq_span_mul_element model t]
  ring

theorem accessedSize?_of_array (harray : t.canonical.extents ≠ []) :
    t.accessedSize? model = some (t.size model) := by
  rw [accessedSize?, if_neg harray, ← size_eq_span_mul_element, size_canonical]

/-- The size of what a declared pointer or reference leads to is what the callee accesses, unless
the pointer is written on an alias of a reference. -/
theorem accessedSize?_of_declared {pointee : CType} (hextents : t.canonical.extents = [])
    (hindirect : t.reference ≠ .none ∨ t.pointers ≠ []) (hpointee : t.pointee? = some pointee) :
    t.accessedSize? model = some (pointee.size model) ↔ t.IsSizedAsAccessed model := by
  rw [accessedSize?, if_pos hextents, IsSizedAsAccessed, if_pos hextents]
  by_cases hreference : t.reference = .none
  · have hpointers : t.pointers ≠ [] := hindirect.resolve_left (not_not.mpr hreference)
    by_cases hcanonical : t.canonical.reference = .none
    · rw [size_pointee_canonical model hextents hcanonical hpointers, hpointee]
      simp [hcanonical]
    · rw [size_referent model hcanonical, size_canonical,
        size_eq_pointer model (extents_eq_nil_of_canonical hextents) hpointers, hpointee]
      simp [hpointers, hreference, hcanonical, eq_comm]
  · have hsame : t.pointee?.map (size model) = t.canonical.pointee?.map (size model) := by
      rw [size_referent model hreference,
        size_referent model (reference_canonical_ne_none hreference), size_canonical]
    rw [← hsame, hpointee]
    simp [hreference]

end CType

/-- The byte count of a parameter is worth the size of what the callee accesses exactly when the
declared type neither writes extents on an alias of an array nor a pointer on an alias of a
reference, but for the sizes and extents for which that makes no difference. -/
theorem RuleBook.byteCount_eq_accessedSize_iff {book : RuleBook} {function : String}
    {parameter : Parameter} {bytes : ByteCount} (model : DataModel)
    (hbytes : (book.classifyParameter function parameter).passing.byteCount? = some bytes)
    (hknown : ∀ extent ∈ parameter.type.canonical.extents, extent.isSome = true)
    (hfits : Extent.span parameter.type.canonical.extents < UInt64.size) :
    parameter.type.accessedSize? model = some (bytes.value model) ↔
      parameter.type.IsSizedAsAccessed model := by
  cases shows_of_classifyParameter hbytes with
  | elements count harray hcount =>
      rw [CType.accessedSize?_of_array model harray, Option.some.injEq, CType.IsSizedAsAccessed,
        if_neg harray, CType.value_elements model hknown hfits hcount]
      by_cases hextents : parameter.type.extents = []
      · rw [CType.span_mul_declaredElement_of_alias model hextents]
        simp [hextents]
      · rw [CType.span_mul_declaredElement_of_extents model hextents, eq_comm,
          mul_left_eq_self₀]
        simp [hextents]
  | declared pointee hextents hindirect hpointee =>
      rw [ByteCount.value, Nat.one_mul, CType.size_withoutOuterConst]
      exact CType.accessedSize?_of_declared model hextents hindirect hpointee
  | canonical pointee hextents hreference hpointers hpointee =>
      rw [ByteCount.value, Nat.one_mul, CType.size_withoutOuterConst, CType.accessedSize?,
        if_pos hextents, CType.IsSizedAsAccessed, if_pos hextents, hpointee]
      simp [hpointers]

/-- A `const` alias of an array is compared as a whole. -/
theorem RuleBook.byteCount_eq_accessedSize_of_array_alias :
    let row := ((CType.arithmetic .int).withConst.array (some 2)).array (some 3)
    let parameter : Parameter := ⟨"row", 0, CType.typedef "Row" row⟩
    let model : DataModel := ⟨fun _ _ => 4, 8⟩
    (({} : RuleBook).classifyParameter "f" parameter).passing =
        .memoryBuffer (.counted ⟨6, (CType.arithmetic .int).withConst⟩) ∧
      parameter.type.accessedSize? model = some 24 := by
  intro row parameter model
  refine ⟨by decide, ?_⟩
  have hextents : parameter.type.canonical.extents = [some 2, some 3] := by decide
  have hvalue := (@byteCount_eq_accessedSize_iff {} "f" parameter
    ⟨6, (CType.arithmetic .int).withConst⟩ model (by decide) (by simp [hextents])
    (by decide)).mpr (by decide)
  rw [hvalue]
  decide

/-- Two rows of three elements are taken for six rows. -/
theorem RuleBook.byteCount_ne_accessedSize_of_array_of_alias :
    let row := CType.typedef "Row" ((CType.arithmetic .int).array (some 3))
    let parameter : Parameter := ⟨"rows", 0, row.array (some 2)⟩
    let model : DataModel := ⟨fun _ _ => 4, 8⟩
    (({} : RuleBook).classifyParameter "f" parameter).passing = .output (some ⟨6, row⟩) ∧
      (ByteCount.mk 6 row).render = "6 * sizeof(Row)" ∧
      parameter.type.canonical.extents = [some 2, some 3] ∧
      parameter.type.accessedSize? model = some 24 ∧ (ByteCount.mk 6 row).value model = 72 := by
  decide

end Understudy
