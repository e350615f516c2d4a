import Understudy.Proofs.CType.Meaning
import Understudy.Proofs.Classification.WellFormed

/-! # What a rule without a modifier passes

A rule for a parameter that has no modifier takes the address of what the mock support can only take
by address. So an object rule should hand over a pointer to the object, whether the parameter is the
object, a reference to it or a pointer to it. An array is the address of its first element already,
so its address should not be taken. A reference to a pointer goes wrong in the first respect and an
array of objects in the second: both pass the address of a pointer.
-/

namespace Understudy

namespace CType

/-! ## Parameters in an expression -/

namespace Meaning

variable {name : String} {category : Category}

/-- The type of an array where it is used as a value: a pointer to its first element. A parameter
that is declared as an array has this type from the start. -/
def decayed : Meaning → Meaning
  | array _ element => pointer {} element
  | m => m

/-- What the name of a reference stands for. -/
def readThrough : Meaning → Meaning
  | reference _ referent => referent.readThrough
  | m => m

/-- Whether a type is the given base type or a reference to it, with any qualifiers. -/
def IsBase (name : String) (category : Category) (m : Meaning) : Prop :=
  ∃ own, m.readThrough = base name category own

theorem readThrough_refer (kind : Reference) (m : Meaning) :
    (refer kind m).readThrough = m.readThrough := by
  cases kind <;> cases m <;> rfl

theorem isBase_qualify_iff (cv : Cv) (m : Meaning) :
    (m.qualify cv).IsBase name category ↔ m.IsBase name category := by
  cases m with
  | base | pointer | array => simp [IsBase, qualify, readThrough]
  | reference => rfl

theorem isBase_decayed_iff (m : Meaning) :
    m.decayed.IsBase name category ↔ m.IsBase name category := by
  cases m with
  | array => simp [IsBase, decayed, readThrough]
  | base | pointer | reference => rfl

theorem isBase_arrayOf_iff (extents : List Extent) (m : Meaning) :
    (m.arrayOf extents).IsBase name category ↔ extents = [] ∧ m.IsBase name category := by
  cases extents with
  | nil => simp [arrayOf]
  | cons => simp [arrayOf, IsBase, readThrough]

theorem isBase_pointTo_iff (levels : List Cv) (m : Meaning) :
    (m.pointTo levels).IsBase name category ↔ levels = [] ∧ m.IsBase name category := by
  by_cases hlevels : levels = []
  · simp [hlevels, pointTo]
  · rw [← List.dropLast_append_getLast hlevels, pointTo_append]
    simp [pointTo, IsBase, readThrough]

end Meaning

variable {name : String} {category : Category} {t : CType}

theorem isBase_declared_iff (w : Written) (m : Meaning) :
    (declared w m).IsBase name category ↔
      w.extents = [] ∧ w.pointers = [] ∧ m.IsBase name category := by
  rw [declared, Meaning.IsBase, Meaning.readThrough_refer]
  exact (Meaning.isBase_arrayOf_iff _ _).trans
    (and_congr_right fun _ => Meaning.isBase_pointTo_iff _ _)

/-- Unless an alias stays in it, the canonical form shows whether a type is a base type or a
reference to one. References do not count, so that aliases may stand for them. -/
theorem isBase_meaning_iff (h : t.canonical.category ≠ .typedef) :
    t.meaning.IsBase t.canonical.written.name t.canonical.category ↔
      t.canonical.extents = [] ∧ t.canonical.pointers = [] := by
  have hself (w : Written) :
      (declared w (.base w.name w.category w.base)).IsBase w.name w.category ↔
        w.extents = [] ∧ w.pointers = [] := by
    rw [isBase_declared_iff]
    exact and_congr_right fun _ => and_iff_left ⟨w.base, rfl⟩
  induction t with
  | plain w => exact hself w
  | aliasing w aliased ih =>
      by_cases hcategory : w.category = .typedef
      · by_cases hresolved : aliased.canonical.extents = [] ∨ w.pointers = []
        · rw [canonical_of_resolved hcategory hresolved, category_absorb] at h ⊢
          rw [written_mapWritten, Written.absorb_name, extents_absorb, List.append_eq_nil_iff,
            pointers_absorb_eq_nil_iff, meaning, if_pos hcategory, isBase_declared_iff,
            Meaning.isBase_qualify_iff]
          have haliased := ih h
          tauto
        · rw [not_or] at hresolved
          rw [canonical_of_unresolved hcategory hresolved.1 hresolved.2] at h
          exact absurd hcategory h
      · rw [canonical_of_not_typedef hcategory, meaning, if_neg hcategory]
        exact hself w

theorem stem_of_category (h : t.category ≠ .typedef) (cv : Cv) :
    t.stem cv = .base t.written.name t.category cv := by
  cases t with
  | plain w => rfl
  | aliasing w aliased => exact if_neg h

/-- What is no reference means what its canonical form shows. -/
theorem meaning_of_reference (h : t.canonical.reference = .none) :
    t.meaning =
      ((t.canonical.stem t.canonical.written.base).pointTo t.canonical.pointers).arrayOf
        t.canonical.extents := by
  have hwritten : t.canonical.written.reference = .none := h
  rw [← meaning_canonical_of_reference h, meaning_eq, declared, hwritten]
  rfl

theorem exists_array_of_extents (hextents : t.canonical.extents ≠ [])
    (hreference : t.canonical.reference = .none) :
    ∃ extent element, t.meaning = .array extent element := by
  obtain ⟨extent, inner, hcons⟩ := List.exists_cons_of_ne_nil hextents
  exact ⟨extent, _, by rw [meaning_of_reference hreference, hcons]; rfl⟩

end CType

namespace Modifier

open CType (Meaning)

/-- The type of the expression that a modifier makes of a parameter, for the two modifiers that the
natural one is chosen from. References are read through and arrays decay. -/
def passedType? (modifier : Modifier) (parameter : Meaning) : Option Meaning :=
  let object := parameter.decayed.readThrough
  if modifier = .none then some object.decayed
  else if modifier = .address then some (.pointer {} object)
  else Option.none

theorem passedType?_none (parameter : Meaning) :
    none.passedType? parameter = some parameter.decayed.readThrough.decayed := by
  rw [passedType?, if_pos rfl]

theorem passedType?_address (parameter : Meaning) :
    address.passedType? parameter = some (.pointer {} parameter.decayed.readThrough) := by
  rw [passedType?, if_neg (by decide), if_pos rfl]

end Modifier

namespace Treatment

variable {canonical : CType} {tag : String}

/-- Whether a rule without a modifier passes an array of this canonical form as it is. Arrays of
objects that are passed as objects are the exception. -/
def LeavesArray (treatment : Treatment) (canonical : CType) : Prop :=
  ∀ tag, treatment = .object tag → canonical.pointers ≠ []

theorem naturalModifier_of_array (treatment : Treatment) (hextents : canonical.extents ≠ []) :
    treatment.LeavesArray canonical ∧ treatment.naturalModifier canonical = .none ∨
      ¬ treatment.LeavesArray canonical ∧ treatment.naturalModifier canonical = .address := by
  cases treatment with
  | object tag =>
      by_cases hpointers : canonical.pointers = [] <;>
        simp [LeavesArray, naturalModifier, hextents, hpointers]
  | scalar s => cases s <;> simp [LeavesArray, naturalModifier, hextents]
  | output | memoryBuffer | skip => simp [LeavesArray, naturalModifier, hextents]

theorem naturalModifier_object (hextents : canonical.extents = []) :
    (object tag).naturalModifier canonical =
      if canonical.reference = .none ∧ canonical.pointers ≠ [] then .none else .address := by
  by_cases hreference : canonical.reference = .none <;>
    by_cases hpointers : canonical.pointers = [] <;>
      simp [naturalModifier, hextents, hreference, hpointers]

end Treatment

/-! ## Arrays -/

namespace Rule

/-- A rule without a modifier puts no `&` in front of an array exactly when it is no object rule or
the elements of the array are pointers. Exactly then a pointer to the first element is passed. -/
theorem takes_no_address_of_array_iff (rule : Rule) (type : CType) (origin : Origin)
    (hmodifier : rule.modifier? = none) (hextents : type.canonical.extents ≠ [])
    (hreference : type.canonical.reference = .none) :
    let modifier := (rule.classifyParameter type origin).modifier
    ('&' ∉ modifier.front.toList ↔ rule.treatment.LeavesArray type.canonical) ∧
      ∃ extent element, type.meaning = .array extent element ∧
        (modifier.passedType? type.meaning = some (.pointer {} element) ↔
          rule.treatment.LeavesArray type.canonical) := by
  intro modifier
  have hnatural : modifier = rule.treatment.naturalModifier type.canonical := by
    change rule.parameterModifier type = _
    rw [parameterModifier, hmodifier, Option.getD_none]
  obtain ⟨extent, element, harray⟩ := CType.exists_array_of_extents hextents hreference
  rcases rule.treatment.naturalModifier_of_array hextents with ⟨hleaves, hkept⟩ | ⟨hleaves, htaken⟩
  · rw [hnatural, hkept, harray]
    refine ⟨iff_of_true (by decide) hleaves, extent, element, rfl, ?_⟩
    exact iff_of_true (Modifier.passedType?_none _) hleaves
  · rw [hnatural, htaken, harray]
    refine ⟨iff_of_false (by decide) hleaves, extent, element, rfl, ?_⟩
    rw [Modifier.passedType?_address]
    refine iff_of_false (fun hsame => ?_) hleaves
    have hpointer : element = .pointer {} element := by
      simpa [CType.Meaning.decayed, CType.Meaning.readThrough] using hsame.symm
    cases hpointer

/-- An alias of an array is filled in through a pointer to its first element. -/
theorem takes_no_address_of_filled_alias :
    let row := CType.typedef "Row" ((CType.arithmetic .int).array (some 3))
    let rule : Rule := { selector := .parameterName "row", treatment := .output }
    let modifier := (rule.classifyParameter row .parameterRule).modifier
    rule.modifier? = none ∧ row.canonical.extents ≠ [] ∧ row.canonical.reference = .none ∧
      rule.treatment.LeavesArray row.canonical ∧ '&' ∉ modifier.front.toList ∧
      ∃ extent element, row.meaning = .array extent element ∧
        modifier.passedType? row.meaning = some (.pointer {} element) := by
  intro row rule modifier
  have hextents : row.canonical.extents ≠ [] := by decide
  have hleaves : rule.treatment.LeavesArray row.canonical := fun _ htreatment => by cases htreatment
  obtain ⟨hfront, extent, element, harray, hpassed⟩ :=
    takes_no_address_of_array_iff rule row .parameterRule rfl hextents rfl
  exact ⟨rfl, hextents, rfl, hleaves, hfront.mpr hleaves, extent, element, harray,
    hpassed.mpr hleaves⟩

/-- An array of objects is a pointer in the mock, and it is the address of that pointer that an
object rule passes. -/
theorem takes_address_of_array_of_objects :
    let points := (CType.record "Point").array (some 2)
    let rule : Rule := { selector := .parameterName "points", treatment := .object "Point" }
    let modifier := (rule.classifyParameter points .parameterRule).modifier
    parse .parameter "#points=Object(Point)" = .ok rule ∧ rule.modifier? = none ∧
      points.canonical.extents ≠ [] ∧ points.canonical.reference = .none ∧
      '&' ∈ modifier.front.toList ∧
      modifier.passedType? points.meaning =
        some (.pointer {} (.pointer {} (.base "Point" .record {}))) := by
  decide

end Rule

/-! ## Objects -/

namespace Rule

variable {rule : Rule} {tag : String} {type looked : CType} {c : Classification}

/-- An object rule for parameters of a base name, without a modifier. -/
structure NamesObject (rule : Rule) (tag : String) : Prop where
  selector : ∃ name, rule.selector = .typeName .parameter name
  treatment : rule.treatment = .object tag
  modifier : rule.modifier? = none

/-- Where such a rule applies, at most one pointer level is written and the natural modifier is
taken. -/
theorem NamesObject.of_typed (hrule : rule.NamesObject tag)
    (h : rule.classifyTypedParameter? type looked = some c) :
    type.canonical.extents = [] ∧ type.canonical.pointers.length ≤ 1 ∧
      (c.passing = .object tag ∨ c.passing = .copiedOutput tag) ∧
      c.modifier = (Treatment.object tag).naturalModifier type.canonical := by
  obtain ⟨⟨name, hselector⟩, htreatment, hmodifier⟩ := hrule
  have hnatural : rule.parameterModifier type =
      (Treatment.object tag).naturalModifier type.canonical := by
    rw [parameterModifier, hmodifier, htreatment, Option.getD_none]
  have hpassing : rule.treatment.passing type = .object tag := by rw [htreatment]; rfl
  simp only [classifyTypedParameter?, hselector, htreatment, classifyObject?] at h
  split at h
  next hshape =>
    simp only [Bool.and_eq_true, List.isEmpty_iff, decide_eq_true_eq] at hshape
    obtain ⟨⟨hextents, -⟩, hlength⟩ := hshape
    refine ⟨hextents, hlength, ?_⟩
    split at h
    · cases h
      exact ⟨.inr rfl, hnatural⟩
    · cases h
      exact ⟨.inl hpassing, hnatural⟩
  · cases h

end Rule

namespace CType

/-- What the natural modifier of an object rule passes is a pointer to the object, unless the
parameter is a reference to a pointer. -/
theorem passedType?_naturalModifier_object (tag : String) {type : CType}
    (hbase : type.canonical.category ≠ .typedef) (hextents : type.canonical.extents = [])
    (hlength : type.canonical.pointers.length ≤ 1) :
    (∃ cv own,
        ((Treatment.object tag).naturalModifier type.canonical).passedType? type.meaning =
          some (.pointer cv (.base type.canonical.written.name type.canonical.category own))) ↔
      type.canonical.reference = .none ∨ type.canonical.pointers = [] := by
  rw [Treatment.naturalModifier_object hextents]
  split
  next hplain =>
    obtain ⟨hreference, hpointers⟩ := hplain
    obtain ⟨level, hlevel⟩ : ∃ level, type.canonical.pointers = [level] := by
      refine List.length_eq_one_iff.mp (Nat.le_antisymm hlength ?_)
      exact List.length_pos_iff.mpr hpointers
    refine iff_of_true ⟨level, type.canonical.written.base, ?_⟩ (.inl hreference)
    rw [Modifier.passedType?_none, meaning_of_reference hreference, hextents, hlevel,
      stem_of_category hbase]
    rfl
  next hother =>
    have hobject := (Meaning.isBase_decayed_iff type.meaning).trans (isBase_meaning_iff hbase)
    rw [Modifier.passedType?_address]
    constructor
    · rintro ⟨cv, own, hpassed⟩
      have hread := (Meaning.pointer.inj (Option.some.inj hpassed)).2
      exact .inr (hobject.mp ⟨own, hread⟩).2
    · intro hright
      have hpointers : type.canonical.pointers = [] := by
        refine hright.elim (fun hreference => ?_) id
        by_contra hne
        exact hother ⟨hreference, hne⟩
      obtain ⟨own, hread⟩ := hobject.mpr ⟨hextents, hpointers⟩
      exact ⟨{}, own, by rw [hread]⟩

end CType

namespace RuleBook

variable {book : RuleBook} {function : String} {p : Parameter}

/-- A classification that comes from a type rule is what the type rules decide. -/
theorem typeDecision?_of_origin (h : (book.classifyParameter function p).origin = .typeRule) :
    book.typeDecision? .parameter p.type = some (book.classifyParameter function p) := by
  cases hrule : book.parameterRule? function p.name with
  | some rule =>
      rw [classifyParameter, hrule] at h
      cases h
  | none =>
      rw [classifyParameter_of_no_rule hrule] at h ⊢
      cases hdecision : book.typeDecision? .parameter p.type with
      | some c => rfl
      | none =>
          rw [hdecision, Option.getD_none,
            (Classification.unruled_ofParameterType p.type).origin] at h
          cases h

/-- Where a type rule for a base name decides that a parameter passes as an object, a pointer to the
object itself is passed exactly when the parameter is no reference to a pointer. -/
theorem passes_object_itself_iff (book : RuleBook) (function : String) (p : Parameter)
    {rule : Rule} {tag : String} (hrule : rule.NamesObject tag)
    (hfound : book.typeRule? (book.lookedUp p.type) .parameter = some rule)
    (hbase : p.type.canonical.category ≠ .typedef)
    (horigin : (book.classifyParameter function p).origin = .typeRule) :
    let c := book.classifyParameter function p
    let canonical := p.type.canonical
    (c.passing = .object tag ∨ c.passing = .copiedOutput tag) ∧
      ((∃ cv own, c.modifier.passedType? p.type.meaning =
          some (.pointer cv (.base canonical.written.name canonical.category own))) ↔
        canonical.reference = .none ∨ canonical.pointers = []) := by
  intro c canonical
  have hdecision := typeDecision?_of_origin horigin
  rw [typeDecision?, hfound, Option.bind_some] at hdecision
  obtain ⟨hextents, hlength, hpassing, hmodifier⟩ := hrule.of_typed hdecision
  refine ⟨hpassing, ?_⟩
  rw [show c.modifier = _ from hmodifier]
  exact CType.passedType?_naturalModifier_object tag hbase hextents hlength

/-- A reference to a constant object is passed by the address of the object. -/
theorem passes_object_itself_of_reference :
    let rule : Rule := { selector := .typeName .parameter "R", treatment := .object "T" }
    let book : RuleBook := { typeRules := [rule] }
    let p : Parameter :=
      { name := "p", position := 0, type := (CType.record "R").withConst.withReference .lvalue }
    let c := book.classifyParameter "f" p
    ofOptions false [] ["#R=Object(T)"] = .ok book ∧
      rule.NamesObject "T" ∧ book.typeRule? (book.lookedUp p.type) .parameter = some rule ∧
      p.type.canonical.category ≠ .typedef ∧ c.origin = .typeRule ∧
      (c.passing = .object "T" ∨ c.passing = .copiedOutput "T") ∧
      ∃ cv own, c.modifier.passedType? p.type.meaning =
        some (.pointer cv (.base "R" .record own)) := by
  intro rule book p c
  have hrule : rule.NamesObject "T" := ⟨⟨"R", rfl⟩, rfl, rfl⟩
  have hfound : book.typeRule? (book.lookedUp p.type) .parameter = some rule := by decide
  have hbase : p.type.canonical.category ≠ .typedef := by decide
  have horigin : c.origin = .typeRule := by decide
  obtain ⟨hpassing, hpassed⟩ := passes_object_itself_iff book "f" p hrule hfound hbase horigin
  exact ⟨by decide, hrule, hfound, hbase, horigin, hpassing, hpassed.mpr (.inr rfl)⟩

/-- The address of a pointer is passed for a reference to one. -/
theorem passes_pointer_of_reference_to_pointer :
    let book : RuleBook :=
      { typeRules := [{ selector := .typeName .parameter "R", treatment := .object "T" }] }
    let p : Parameter :=
      { name := "p", position := 0, type := (CType.record "R").pointer.withReference .lvalue }
    let c := book.classifyParameter "f" p
    ofOptions false [] ["#R=Object(T)"] = .ok book ∧ c.origin = .typeRule ∧
      c.passing = .copiedOutput "T" ∧
      c.modifier.passedType? p.type.meaning =
        some (.pointer {} (.pointer {} (.base "R" .record {}))) := by
  decide

end RuleBook

end Understudy
