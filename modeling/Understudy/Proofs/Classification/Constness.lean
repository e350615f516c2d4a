import Understudy.Proofs.CType.Meaning
import Understudy.Proofs.Classification.Decision

/-! # Constness of classifications

Without a rule the mock writes only to what is mutable and compares only what is constant. Whether
the object that a value gives access to is constant is read off the meaning of the declared type,
and the heuristics read it off the canonical form. The two agree as long as no alias stands for a
reference and no pointer is written on an alias of an array.
-/

namespace Understudy

namespace CType

namespace Meaning

/-- Whether objects of a type are constant. An array is when its elements are. -/
def isConst : Meaning → Bool
  | base _ _ cv | pointer cv _ => cv.isConst
  | array _ element => element.isConst
  | reference _ _ => false

/-- What is left of a type without its array extents. -/
def withoutExtents : Meaning → Meaning
  | array _ element => element.withoutExtents
  | m => m

/-- What an array, a reference or a pointer gives access to: the elements, also through a reference
to the array, the referent, or what is pointed to. -/
def accessed? : Meaning → Option Meaning
  | base _ _ _ => none
  | pointer _ pointee => some pointee
  | array _ element | reference _ (array _ element) => some element.withoutExtents
  | reference _ referent => some referent

/-- Whether a type is that of a record by value. -/
def isRecord : Meaning → Bool
  | base _ .record _ => true
  | _ => false

variable (m : Meaning)

theorem withoutExtents_arrayOf (extents : List Extent) :
    (m.arrayOf extents).withoutExtents = m.withoutExtents := by
  induction extents with
  | nil => rfl
  | cons _ _ ih => exact ih

/-- The elements of an array are accessed, whether through a reference or not. -/
theorem accessed?_refer_arrayOf {extents : List Extent} (h : extents ≠ []) (kind : Reference) :
    (refer kind (m.arrayOf extents)).accessed? = some m.withoutExtents := by
  obtain ⟨extent, inner, rfl⟩ := List.exists_cons_of_ne_nil h
  have helement : (m.arrayOf inner).withoutExtents = m.withoutExtents :=
    m.withoutExtents_arrayOf inner
  cases kind <;> exact congrArg some helement

end Meaning

/-! ## Constness in a writing -/

section

variable (w : Written)

/-- What the pointer levels make of the base name, when that is no alias. -/
def pointed : Meaning := (Meaning.base w.name w.category w.base).pointTo w.pointers

theorem meaning_plain : (plain w).meaning = .refer w.reference ((pointed w).arrayOf w.extents) :=
  rfl

/-- The outermost level is the base name, or a pointer to what the other levels make. -/
theorem pointed_cases :
    w.pointers = [] ∧ pointed w = .base w.name w.category w.outermost ∨
      w.pointers ≠ [] ∧
        pointed w = .pointer w.outermost (pointed { w with pointers := w.pointers.dropLast }) := by
  unfold pointed Written.outermost
  cases hlast : w.pointers.getLast? with
  | none =>
      have hnil : w.pointers = [] := List.getLast?_eq_none_iff.mp hlast
      exact .inl ⟨hnil, by rw [hnil]; rfl⟩
  | some last =>
      obtain ⟨before, hbefore⟩ := List.getLast?_eq_some_iff.mp hlast
      refine .inr ⟨by simp [hbefore], ?_⟩
      rw [hbefore, Meaning.pointTo_append, List.dropLast_concat]
      rfl

theorem isConst_pointed : (pointed w).isConst = w.outermost.isConst := by
  rcases pointed_cases w with ⟨-, h⟩ | ⟨-, h⟩ <;> rw [h] <;> rfl

theorem withoutExtents_pointed : (pointed w).withoutExtents = pointed w := by
  rcases pointed_cases w with ⟨-, h⟩ | ⟨-, h⟩ <;> rw [h] <;> rfl

theorem accessed?_refer_pointed {kind : Reference} (h : kind ≠ .none) :
    (Meaning.refer kind (pointed w)).accessed? = some (pointed w) := by
  cases kind with
  | none => exact absurd rfl h
  | lvalue | rvalue => rcases pointed_cases w with ⟨-, h⟩ | ⟨-, h⟩ <;> rw [h] <;> rfl

/-- Whether a type gives access to a constant object, if it gives access to one. -/
def accessesConst? (t : CType) : Option Bool := t.meaning.accessed?.map Meaning.isConst

/-- The elements of an array have the qualifiers of the outermost level. -/
theorem accessesConst?_of_extents (h : w.extents ≠ []) :
    (plain w).accessesConst? = some w.outermost.isConst := by
  rw [accessesConst?, meaning_plain, Meaning.accessed?_refer_arrayOf _ h, withoutExtents_pointed,
    Option.map_some, isConst_pointed]

/-- With one indirection less the outermost level is that of the accessed object. -/
theorem accessesConst?_of_pointee {pointee : Written} (hextents : w.extents = [])
    (hpointee : w.pointee? = some pointee) :
    (plain w).accessesConst? = some pointee.outermost.isConst := by
  rw [accessesConst?, meaning_plain, hextents]
  change ((Meaning.refer w.reference (pointed w)).accessed?.map Meaning.isConst) = _
  -- Without a reference the level that is written last is the pointer that is followed.
  by_cases hreference : w.reference = .none
  · simp only [Written.pointee?, hreference, hextents] at hpointee
    rw [hreference]
    rcases pointed_cases w with ⟨hnil, -⟩ | ⟨hpointers, hpointed⟩
    · simp [hnil] at hpointee
    · obtain ⟨first, rest, hcons⟩ := List.exists_cons_of_ne_nil hpointers
      simp only [ne_eq, not_true, if_false, hcons, Option.some.injEq] at hpointee
      rw [← hpointee, hpointed, ← isConst_pointed, hcons]
      rfl
  · rw [Written.pointee?, if_pos hreference, Option.some.injEq] at hpointee
    rw [accessed?_refer_pointed w hreference, Option.map_some, isConst_pointed, ← hpointee]
    rfl

/-- A record without pointers, reference and extents is one by value. -/
theorem isRecord_of_pointee?_eq_none (hpointee : w.pointee? = none)
    (hrecord : w.category = .record) : (plain w).meaning.isRecord = true := by
  by_cases hreference : w.reference = .none
  · simp only [Written.pointee?, hreference, ne_eq, not_true, if_false] at hpointee
    split at hpointee
    · cases hpointee
    next hextents hpointers =>
      rcases pointed_cases w with ⟨-, hpointed⟩ | ⟨hne, -⟩
      · rw [meaning_plain, hreference, hextents, hpointed, hrecord]
        rfl
      · exact absurd hpointers hne
    · cases hpointee
  · rw [Written.pointee?, if_pos hreference] at hpointee
    cases hpointee

end

/-! ## Canonical forms without aliases -/

variable {t : CType}

/-- The base name of a canonical form is no alias that means another type, unless a pointer is
written on an alias of an array. -/
theorem stem_canonical (hreference : t.AliasesNoReference)
    (harray : ∀ s ∈ t.chain, ¬ s.PointsToArrayAlias) (cv : Cv) :
    t.canonical.stem cv = .base t.canonical.written.name t.canonical.category cv := by
  induction t with
  | plain w => rfl
  | aliasing w aliased ih =>
      by_cases hcategory : w.category = .typedef
      · rw [chain, if_pos hcategory, List.forall_mem_cons,
          pointsToArrayAlias_iff hcategory hreference, not_and_or, not_not, not_not] at harray
        have haliased := (aliasesNoReference_of_typedef hcategory).mp hreference
        rw [canonical_of_resolved hcategory harray.1, stem_absorb, ih haliased.2 harray.2,
          category_absorb, written_mapWritten, Written.absorb_name]
      · rw [canonical_of_not_typedef hcategory, stem, if_neg hcategory]
        rfl

/-- What a canonical form shows is what the type means. -/
theorem meaning_written_canonical (hreference : t.AliasesNoReference)
    (harray : ∀ s ∈ t.chain, ¬ s.PointsToArrayAlias) :
    t.meaning = (plain t.canonical.written).meaning := by
  rw [← meaning_canonical hreference, meaning_eq, stem_canonical hreference harray]
  rfl

end CType

/-! ## What the heuristics access -/

/-- Whether a way of passing is for access to a constant object or to a mutable one, if it is for
either. -/
def Passing.accessesConst? : Role → Passing → Option Bool
  | .parameter, scalar .pointer | .parameter, output _ | .parameter, copiedOutput _ => some false
  | .parameter, scalar .constPointer | .parameter, memoryBuffer _ => some true
  | .result, scalar .pointer => some false
  | .result, scalar .constPointer | .result, scalar .string => some true
  | _, _ => none

namespace Classification

/-- Whether a parameter that passes as a constant or as a mutable object gives access to one. -/
def ParameterFits (t : CType) (c : Classification) : Prop :=
  ∀ isConst, c.passing.accessesConst? .parameter = some isConst → t.accessesConst? = some isConst

/-- The same of a return value. Besides, a record by value is returned through a pointer to a
constant one. -/
def ResultFits (t : CType) (c : Classification) : Prop :=
  ∀ isConst, c.passing.accessesConst? .result = some isConst → t.accessesConst? = some isConst ∨
    c.passing = .scalar .constPointer ∧ t.meaning.isRecord = true

variable {t : CType} {c : Classification} {w : Written}

theorem ParameterFits.of_none (h : c.passing.accessesConst? .parameter = none) :
    c.ParameterFits t := by
  intro isConst hpassing
  rw [h] at hpassing
  cases hpassing

theorem ParameterFits.of_some {isConst : Bool}
    (h : c.passing.accessesConst? .parameter = some isConst)
    (ht : t.accessesConst? = some isConst) : c.ParameterFits t := by
  intro other hpassing
  rwa [← hpassing, h]

theorem accessesConst?_ofValue (category : Category) :
    (ofValue category).passing.accessesConst? .parameter = none := by
  cases category with
  | arithmetic a => cases a <;> rfl
  | void | enum | record | typedef | template | functionPointer | incomplete => rfl

theorem parameterFits_ofArray
    (h : t.accessesConst? = some t.canonical.written.outermost.isConst) :
    (ofArray t).ParameterFits t := by
  unfold ofArray
  dsimp only
  have helement : t.canonical.element.isOuterConst = t.canonical.written.outermost.isConst := by
    rw [CType.isOuterConst, CType.element, CType.written_mapWritten]
    rfl
  rw [← helement] at h
  split
  · exact .of_none rfl
  split
  next hconst =>
    rw [hconst] at h
    split
    · split
      · exact .of_some rfl h
      · exact .of_some rfl h
    · exact .of_some rfl h
  next hmutable =>
    rw [Bool.not_eq_true] at hmutable
    rw [hmutable] at h
    split
    · exact .of_some rfl h
    · exact .of_some rfl h

theorem parameterFits_ofIndirect (byReference : Bool) {pointee : Written}
    (h : t.accessesConst? = some pointee.outermost.isConst) :
    (ofIndirect t byReference pointee).ParameterFits t := by
  unfold ofIndirect
  dsimp only
  split
  · exact .of_none rfl
  split
  next hconst =>
    rw [hconst] at h
    split
    · exact .of_none rfl
    · exact .of_some rfl h
  next hmutable =>
    rw [Bool.not_eq_true] at hmutable
    rw [hmutable] at h
    split
    · exact .of_some rfl h
    · cases pointee.category with
      | void | incomplete | template => exact .of_some rfl h
      | arithmetic | enum | record => exact .of_some rfl h
      | typedef | functionPointer => exact .of_none rfl

theorem parameterFits_ofParameterType
    (hmeaning : t.meaning = (CType.plain t.canonical.written).meaning) :
    (ofParameterType t).ParameterFits t := by
  have haccesses : t.accessesConst? = (CType.plain t.canonical.written).accessesConst? := by
    rw [CType.accessesConst?, hmeaning]
    rfl
  unfold ofParameterType
  dsimp only
  split
  · exact .of_none rfl
  split
  · split
    · exact .of_none (accessesConst?_ofValue _)
    · exact .of_none rfl
  split
  next hextents =>
    refine parameterFits_ofArray (haccesses.trans (CType.accessesConst?_of_extents _ ?_))
    simpa [CType.extents] using hextents
  next hextents =>
    split
    · exact .of_none (accessesConst?_ofValue _)
    next pointee hpointee =>
      refine parameterFits_ofIndirect _
        (haccesses.trans (CType.accessesConst?_of_pointee _ ?_ hpointee))
      simpa [CType.extents] using hextents

theorem ResultFits.of_none (h : c.passing.accessesConst? .result = none) : c.ResultFits t := by
  intro isConst hpassing
  rw [h] at hpassing
  cases hpassing

theorem ResultFits.of_some {isConst : Bool} (h : c.passing.accessesConst? .result = some isConst)
    (ht : t.accessesConst? = some isConst) : c.ResultFits t := by
  intro other hpassing
  rw [← hpassing, h]
  exact .inl ht

/-- The heuristics give a scalar of its own to a pointer to a constant object. -/
theorem accessesConst?_addressScalar (pointee : CType) :
    (Passing.scalar (addressScalar pointee)).accessesConst? .result =
      some pointee.isOuterConst := by
  unfold addressScalar
  cases pointee.isOuterConst <;> rfl

theorem resultFits_ofReturnedValue (declared : CType) {category : Category}
    (h : category = .record → t.meaning.isRecord = true) :
    (ofReturnedValue declared category).ResultFits t := by
  cases category with
  | arithmetic a => cases a <;> exact .of_none rfl
  | record => exact fun _ _ => .inr ⟨rfl, h rfl⟩
  | void | enum | typedef | template | functionPointer | incomplete => exact .of_none rfl

theorem resultFits_ofReturnedPointer (declared : CType) {pointee : CType}
    (h : t.accessesConst? = some pointee.isOuterConst) :
    (ofReturnedPointer declared pointee).ResultFits t := by
  unfold ofReturnedPointer
  split
  next hstring =>
    -- A string is a pointer to a plain constant character, whose base is its outermost level.
    simp only [Bool.and_eq_true] at hstring
    have hpointers : pointee.written.pointers = [] := by
      have hplain := hstring.1.1
      simp only [CType.isPlain, Written.isPlain, Bool.and_eq_true, List.isEmpty_iff] at hplain
      exact hplain.1.1
    have hconst : pointee.isOuterConst = true := by
      rw [CType.isOuterConst, Written.outermost, hpointers]
      exact hstring.1.2
    rw [hconst] at h
    exact .of_some rfl h
  · exact .of_some (accessesConst?_addressScalar pointee) h

theorem resultFits_ofReturnType
    (hmeaning : t.meaning = (CType.plain t.canonical.written).meaning) :
    (ofReturnType t).ResultFits t := by
  have haccesses : t.accessesConst? = (CType.plain t.canonical.written).accessesConst? := by
    rw [CType.accessesConst?, hmeaning]
    rfl
  unfold ofReturnType
  dsimp only
  split
  · exact .of_none rfl
  next hother =>
    simp only [Bool.or_eq_true, decide_eq_true_eq, Bool.not_eq_true', List.isEmpty_eq_false_iff,
      not_or, not_not] at hother
    obtain ⟨-, hextents⟩ := hother
    split
    next hnone =>
      refine resultFits_ofReturnedValue t fun hrecord => ?_
      rw [hmeaning]
      exact CType.isRecord_of_pointee?_eq_none _ (Option.map_eq_none_iff.mp hnone) hrecord
    next pointee hpointee =>
      obtain ⟨shown, hshown, rfl⟩ := Option.map_eq_some_iff.mp hpointee
      have hfits := haccesses.trans (CType.accessesConst?_of_pointee _ hextents hshown)
      split
      · exact .of_some (accessesConst?_addressScalar _) (by
          rw [hfits, CType.isOuterConst, CType.written_mapWritten])
      · exact resultFits_ofReturnedPointer t (by
          rw [hfits, CType.isOuterConst, CType.written_mapWritten])

end Classification

namespace RuleBook

/-- The heuristics are right about constness, for every type in whose chain no alias stands for a
reference and no pointer is written on an alias of an array. A parameter that no rule decides on
passes as a mutable pointer or an output only when it gives access to a mutable object, and as a
constant pointer or a buffer only when it gives access to a constant one. A return value that no
rule decides on passes as a mutable pointer only when it gives access to a mutable object, and as a
constant pointer or a string only when it gives access to a constant one or, as a pointer, when it
is a record by value. -/
theorem fits_constness (book : RuleBook) (function : String) (type : CType)
    (hreference : type.AliasesNoReference) (harray : ∀ s ∈ type.chain, ¬ s.PointsToArrayAlias) :
    (∀ parameter : Parameter, parameter.type = type →
      book.parameterRule? function parameter.name = none →
      book.typeDecision? .parameter type = none →
      (book.classifyParameter function parameter).ParameterFits type) ∧
    (∀ c, book.classifyResult? function type = some c → book.resultRule? function = none →
      book.typeDecision? .result type = none → c.ResultFits type) := by
  have hmeaning := CType.meaning_written_canonical hreference harray
  constructor
  · rintro parameter rfl hrule hdecision
    rw [classifyParameter, hrule]
    dsimp only
    rw [classifyType_eq, hdecision]
    exact Classification.parameterFits_ofParameterType hmeaning
  · intro c hresult hrule hdecision
    rw [classifyResult?, hrule] at hresult
    split at hresult
    · cases hresult
    cases hresult
    rw [classifyType_eq, hdecision]
    exact Classification.resultFits_ofReturnType hmeaning

/-- A reference to a constant alias of an array is a buffer of constant integers, and a constant
alias of a pointer is returned as a pointer to a mutable character. -/
theorem fits_constness_of_alias :
    let row := CType.typedef "Row" ((CType.arithmetic .int).array (some 3))
    let rows := row.withConst.withReference .lvalue
    let text := CType.typedef "Text" (CType.arithmetic .char).pointer
    let parameter : Parameter := { name := "rows", position := 0, type := rows }
    rows.meaning.accessed? = some (.base "int" (.arithmetic .int) ⟨true, false⟩) ∧
      (({} : RuleBook).classifyParameter "f" parameter).passing =
          .memoryBuffer (.counted ⟨3, (CType.arithmetic .int).withConst⟩) ∧
        rows.accessesConst? = some true ∧
      text.withConst.meaning.accessed? = some (.base "char" (.arithmetic .char) {}) ∧
      ∃ c, ({} : RuleBook).classifyResult? "f" text.withConst = some c ∧
        c.passing = .scalar .pointer ∧ text.withConst.accessesConst? = some false := by
  intro row rows text parameter
  obtain ⟨hparameter, -⟩ := fits_constness {} "f" rows (by decide) (by decide)
  obtain ⟨-, hresult⟩ := fits_constness {} "f" text.withConst (by decide) (by decide)
  have hbuffer : (({} : RuleBook).classifyParameter "f" parameter).passing =
      .memoryBuffer (.counted ⟨3, (CType.arithmetic .int).withConst⟩) := by decide
  have hpointer : ({} : RuleBook).classifyResult? "f" text.withConst =
      some { passing := .scalar .pointer, modifier := .staticCast "const Text" } := by decide
  refine ⟨by decide, hbuffer, hparameter parameter rfl rfl rfl true (by rw [hbuffer]; rfl),
    by decide, _, hpointer, rfl, ?_⟩
  exact (hresult _ hpointer rfl rfl false rfl).resolve_right fun h => by cases h.1

end RuleBook

end Understudy
