import Understudy.Proofs.Classification.WellFormed
import Understudy.Proofs.CType.Size

/-! # Aliases do not decide

Two types with the same canonical form are classified alike by the heuristics, and by type rules
too when these are looked up for the canonical form. What may differ are texts that show the type as
it is declared: the counted length of an output or of a buffer, and the cast of a return value.
-/

namespace Understudy

/-- A way of passing without lengths and copiers. -/
inductive Kind where
  | scalar (scalar : Scalar)
  | output
  | memoryBuffer
  | object (tag : String)
  | skip
  deriving DecidableEq, Repr

namespace Passing

def kind : Passing → Kind
  | scalar s => .scalar s
  | output _ | copiedOutput _ => .output
  | memoryBuffer _ => .memoryBuffer
  | object tag => .object tag
  | skip => .skip

/-- Whether two ways of passing are the same but for a length that is counted from two types. -/
inductive SameButCount (s t : CType) : Passing → Passing → Prop
  | same (passing : Passing) : SameButCount s t passing passing
  | output : SameButCount s t (.output s.outputSize?) (.output t.outputSize?)
  | buffer (a b : ByteCount) :
      SameButCount s t (.memoryBuffer (.counted a)) (.memoryBuffer (.counted b))

variable {s t : CType} {a b : Passing}

theorem SameButCount.kind_eq (h : SameButCount s t a b) : a.kind = b.kind := by
  cases h <;> rfl

theorem SameButCount.copier?_eq (h : SameButCount s t a b) : a.copier? = b.copier? := by
  cases h <;> rfl

theorem length?_eq_given_iff {passing : Passing} {expression : String} :
    passing.length? = some (.given expression) ↔ passing = .memoryBuffer (.given expression) := by
  cases passing with
  | output size? => cases size? <;> simp [length?]
  | memoryBuffer length => cases length <;> simp [length?]
  | scalar | copiedOutput | object | skip => simp [length?]

theorem length?_eq_caller_iff {passing : Passing} :
    passing.length? = some .caller ↔ passing = .output none := by
  cases passing with
  | output size? => cases size? <;> simp [length?]
  | memoryBuffer length => cases length <;> simp [length?]
  | scalar | copiedOutput | object | skip => simp [length?]

theorem SameButCount.given_iff (h : SameButCount s t a b) (expression : String) :
    a.length? = some (.given expression) ↔ b.length? = some (.given expression) := by
  rw [length?_eq_given_iff, length?_eq_given_iff]
  cases h <;> simp

theorem SameButCount.caller_iff (h : SameButCount s t a b)
    (hsize : s.outputSize? = none ↔ t.outputSize? = none) :
    a.length? = some .caller ↔ b.length? = some .caller := by
  rw [length?_eq_caller_iff, length?_eq_caller_iff]
  cases h with
  | same => rfl
  | output => simpa using hsize
  | buffer => simp

end Passing

namespace Modifier

/-- Whether the modifier casts the value, or leaves it as it is. -/
def IsCast (modifier : Modifier) : Prop :=
  modifier = none ∨ ∃ target, modifier = staticCast target ∨ modifier = dereferencedCast target

theorem isCast_staticCast (target : String) : (staticCast target).IsCast := .inr ⟨target, .inl rfl⟩

theorem isCast_dereferencedCast (target : String) : (dereferencedCast target).IsCast :=
  .inr ⟨target, .inr rfl⟩

theorem isCast_ite (p : Prop) [Decidable p] (target : String) :
    (if p then staticCast target else none).IsCast := by
  split
  · exact isCast_staticCast target
  · exact .inl rfl

end Modifier

namespace CType

variable {t : CType}

/-- What the size of an output is taken of, when there is no array. -/
def measured? (t : CType) : Option CType :=
  if t.reference ≠ .none || !t.pointers.isEmpty then t.pointee? else t.canonical.pointee?

theorem outputSize?_eq_none_of_extents_eq_nil (h : t.canonical.extents = []) :
    t.outputSize? = none ↔ t.measured?.map isSized ≠ some true := by
  simp only [outputSize?, measured?, h, List.isEmpty_nil, if_true]
  split
  next pointee hpointee =>
    rw [hpointee]
    simp
  next hnone =>
    rw [hnone]
    simp

theorem outputSize?_eq_none_of_extents_ne_nil (h : t.canonical.extents ≠ []) :
    t.outputSize? = none ↔ t.isSized = false := by
  have helement : t.declaredElement.isSized = t.isSized := by
    unfold declaredElement
    split
    · rw [isSized_element, isSized_canonical]
    · exact t.isSized_element
  simp [outputSize?, h, helement]

theorem map_isSized_measured? (hextents : t.canonical.extents = [])
    (hpointers : t.pointers ≠ [] → t.reference = .none → t.canonical.reference = .none) :
    t.measured?.map isSized = t.canonical.pointee?.map isSized := by
  unfold measured?
  by_cases hreference : t.reference = .none
  · by_cases hnil : t.pointers = []
    · simp [hreference, hnil]
    · have hcanonical := hpointers hnil hreference
      -- The pointer that is followed is written on the type itself, on the outside in both forms.
      have hpointee :=
        pointee?_of_pointers hreference (extents_eq_nil_of_canonical hextents) hnil
      rw [if_pos (by simp [hnil])]
      rcases canonical_pointee? hextents hcanonical hnil hpointee with hself | hpointed
      · rw [hself]
      · rw [hpointed, hpointee, Option.map_some, Option.map_some, isSized_canonical]
  · rw [if_pos (by simp [hreference]), isSized_referent hreference,
      isSized_referent (reference_canonical_ne_none hreference), isSized_canonical]

/-- Whether the size of an output is known does not depend on aliases, unless a pointer is written
on an alias of a reference. -/
theorem outputSize?_canonical_eq_none_iff
    (hpointers : t.pointers ≠ [] → t.reference = .none → t.canonical.reference = .none) :
    t.canonical.outputSize? = none ↔ t.outputSize? = none := by
  have hidempotent := t.isCanonical_canonical.canonical_eq
  by_cases hextents : t.canonical.extents = []
  · rw [outputSize?_eq_none_of_extents_eq_nil hextents,
      outputSize?_eq_none_of_extents_eq_nil (by rwa [hidempotent]),
      map_isSized_measured? hextents hpointers, measured?, hidempotent, ite_self]
  · rw [outputSize?_eq_none_of_extents_ne_nil hextents,
      outputSize?_eq_none_of_extents_ne_nil (by rwa [hidempotent]), isSized_canonical]

end CType

namespace Classification

/-- Whether two classifications differ at most in counted lengths and in the casts that the
heuristics put around a return value. -/
structure Alike (role : Role) (a b : Classification) : Prop where
  kind : a.passing.kind = b.passing.kind
  copier : a.passing.copier? = b.passing.copier?
  origin : a.origin = b.origin
  byAddress : a.byAddress = b.byAddress
  modifier_of_parameter : role = .parameter → a.modifier = b.modifier
  modifier_of_rule : a.origin ≠ .heuristic → a.modifier = b.modifier
  isCast_of_ne : a.modifier ≠ b.modifier → a.modifier.IsCast ∧ b.modifier.IsCast
  given_iff : ∀ expression, a.passing.length? = some (.given expression) ↔
    b.passing.length? = some (.given expression)

/-- Whether classifications of two types differ at most in what shows the types. -/
structure ShowTypes (role : Role) (s t : CType) (a b : Classification) : Prop where
  passing : Passing.SameButCount s t a.passing b.passing
  origin : a.origin = b.origin
  byAddress : a.byAddress = b.byAddress
  modifier : a.modifier = b.modifier ∨
    role = .result ∧ a.origin = .heuristic ∧ a.modifier.IsCast ∧ b.modifier.IsCast

variable {a b c : Classification} {s t : CType} {role : Role}

theorem ShowTypes.refl (c : Classification) : ShowTypes role s t c c :=
  ⟨.same _, rfl, rfl, .inl rfl⟩

theorem ShowTypes.alike (h : ShowTypes role s t a b) : Alike role a b where
  kind := h.passing.kind_eq
  copier := h.passing.copier?_eq
  origin := h.origin
  byAddress := h.byAddress
  modifier_of_parameter hrole := h.modifier.resolve_right fun hcast => by simp [hrole] at hcast
  modifier_of_rule horigin := h.modifier.resolve_right fun hcast => horigin hcast.2.1
  isCast_of_ne hne := (h.modifier.resolve_left hne).2.2
  given_iff := h.passing.given_iff

/-! ## Heuristics -/

theorem showTypes_ofArray (h : s.canonical = t.canonical) :
    ShowTypes role s t (ofArray s) (ofArray t) := by
  unfold ofArray
  rw [h]
  dsimp only
  split
  · exact .refl _
  split
  · split
    · split
      · exact ⟨.buffer _ _, rfl, rfl, .inl rfl⟩
      · exact .refl _
    · exact .refl _
  · split
    · exact ⟨.output, rfl, rfl, .inl rfl⟩
    · exact .refl _

theorem showTypes_ofIndirect (s t : CType) (byReference : Bool) (pointee : Written) :
    ShowTypes role s t (ofIndirect s byReference pointee) (ofIndirect t byReference pointee) := by
  unfold ofIndirect
  dsimp only
  split
  · exact .refl _
  split
  · exact .refl _
  split
  · exact .refl _
  cases pointee.category with
  | arithmetic | enum | record => exact ⟨.output, rfl, rfl, .inl rfl⟩
  | void | incomplete | template | typedef | functionPointer => exact .refl _

theorem showTypes_ofParameterType (h : s.canonical = t.canonical) :
    ShowTypes role s t (ofParameterType s) (ofParameterType t) := by
  unfold ofParameterType
  rw [h]
  dsimp only
  split
  · exact .refl _
  split
  · exact .refl _
  split
  · exact showTypes_ofArray h
  split
  · exact .refl _
  · exact showTypes_ofIndirect s t _ _

/-- Return values that are passed in the same way, under casts. -/
theorem ShowTypes.of_cast {passing : Passing} {byAddress : Bool} {m n : Modifier}
    (hm : m.IsCast) (hn : n.IsCast) :
    ShowTypes .result s t { passing, byAddress, modifier := m }
      { passing, byAddress, modifier := n } :=
  ⟨.same _, rfl, rfl, .inr ⟨rfl, rfl, hm, hn⟩⟩

theorem showTypes_ofReturnedValue (s t : CType) (category : Category) :
    ShowTypes .result s t (ofReturnedValue s category) (ofReturnedValue t category) := by
  cases category with
  | arithmetic => exact .of_cast (Modifier.isCast_ite _ _) (Modifier.isCast_ite _ _)
  | enum => exact .of_cast (Modifier.isCast_staticCast _) (Modifier.isCast_staticCast _)
  | record =>
      exact .of_cast (Modifier.isCast_dereferencedCast _) (Modifier.isCast_dereferencedCast _)
  | void | typedef | template | functionPointer | incomplete => exact .refl _

theorem showTypes_ofReturnedPointer (s t pointee : CType) :
    ShowTypes .result s t (ofReturnedPointer s pointee) (ofReturnedPointer t pointee) := by
  unfold ofReturnedPointer
  split <;> exact .of_cast (Modifier.isCast_ite _ _) (Modifier.isCast_ite _ _)

theorem showTypes_ofReturnType (h : s.canonical = t.canonical) :
    ShowTypes .result s t (ofReturnType s) (ofReturnType t) := by
  unfold ofReturnType
  rw [h]
  dsimp only
  split
  · exact .refl _
  split
  · exact showTypes_ofReturnedValue s t _
  split
  · exact .of_cast (Modifier.isCast_dereferencedCast _) (Modifier.isCast_dereferencedCast _)
  · exact showTypes_ofReturnedPointer s t _

theorem showTypes_ofType (role : Role) (h : s.canonical = t.canonical) :
    ShowTypes role s t (ofType role s) (ofType role t) := by
  cases role with
  | parameter => exact showTypes_ofParameterType h
  | result => exact showTypes_ofReturnType h

end Classification

/-! ## Rules -/

namespace Rule

variable {s t : CType} {role : Role}

theorem showTypes_classifyParameter (rule : Rule) (h : s.canonical = t.canonical)
    (origin : Origin) :
    Classification.ShowTypes role s t (rule.classifyParameter s origin)
      (rule.classifyParameter t origin) where
  passing := by
    unfold classifyParameter Treatment.passing
    cases rule.treatment with
    | output => exact .output
    | scalar | memoryBuffer | object | skip => exact .same _
  origin := rfl
  byAddress := rfl
  modifier := by
    rw [classifyParameter, classifyParameter, parameterModifier, parameterModifier, h]
    exact .inl rfl

theorem classifyResult_congr (rule : Rule) (h : s.canonical = t.canonical) (origin : Origin) :
    rule.classifyResult s origin = rule.classifyResult t origin := by
  rw [classifyResult, classifyResult, h]

/-- A type rule decides on both of two types, or on neither. -/
theorem showTypes_classifyTyped? (rule : Rule) (role : Role) (h : s.canonical = t.canonical)
    (looked : CType) :
    Option.Rel (Classification.ShowTypes role s t) (rule.classifyTyped? role s looked)
      (rule.classifyTyped? role t looked) := by
  have hparameter (role : Role) :
      Classification.ShowTypes role s t (rule.classifyParameter s .typeRule)
        (rule.classifyParameter t .typeRule) :=
    rule.showTypes_classifyParameter h .typeRule
  cases role with
  | parameter =>
      unfold classifyTyped? classifyTypedParameter?
      dsimp only
      split
      · unfold classifyObject?
        rw [h]
        dsimp only
        split
        · split
          · exact .some ⟨.same _, rfl, rfl, (hparameter _).modifier⟩
          · exact .some (hparameter _)
        · exact .none
      · split
        · exact .some (hparameter _)
        · exact .none
      · exact .some (hparameter _)
  | result =>
      unfold classifyTyped? classifyTypedResult?
      rw [rule.classifyResult_congr h .typeRule]
      dsimp only
      split
      · split
        · exact .some (.refl _)
        · exact .none
      · exact .some (.refl _)

end Rule

namespace RuleBook

variable {book : RuleBook} {s t : CType} {role : Role}

theorem typeDecision?_of_typeRules_eq_nil (h : book.typeRules = []) (role : Role) (t : CType) :
    book.typeDecision? role t = none := by
  rw [typeDecision?, typeRule?_eq, h]
  rfl

theorem showTypes_typeDecision? (hbook : book.resolveAliases = true ∨ book.typeRules = [])
    (role : Role) (h : s.canonical = t.canonical) :
    Option.Rel (Classification.ShowTypes role s t) (book.typeDecision? role s)
      (book.typeDecision? role t) := by
  rcases hbook with hresolve | hnone
  · have hlooked : book.lookedUp s = book.lookedUp t := by
      simp only [lookedUp, hresolve, if_true, h]
    rw [typeDecision?, typeDecision?, hlooked]
    cases book.typeRule? (book.lookedUp t) role with
    | none => exact .none
    | some rule => exact rule.showTypes_classifyTyped? role h _
  · rw [typeDecision?_of_typeRules_eq_nil hnone, typeDecision?_of_typeRules_eq_nil hnone]
    exact .none

/-- Types with the same canonical form are told apart by what shows them alone. -/
theorem showTypes_classifyType (hbook : book.resolveAliases = true ∨ book.typeRules = [])
    (role : Role) (h : s.canonical = t.canonical) :
    Classification.ShowTypes role s t (book.classifyType s role) (book.classifyType t role) := by
  rw [classifyType_eq, classifyType_eq]
  have hdecision := showTypes_typeDecision? hbook role h
  generalize book.typeDecision? role s = first at hdecision
  generalize book.typeDecision? role t = second at hdecision
  cases hdecision with
  | some hshown => exact hshown
  | none => exact Classification.showTypes_ofType role h

/-- A type and its canonical form are classified alike, whatever the type rules are if these are
looked up for canonical forms, and without type rules in any case. Only what shows the type may
differ: counted lengths, and the casts of return values. Unless a pointer is written on an alias of
a reference, a length is also known for both or for neither. -/
theorem classifiesAlike_canonical (book : RuleBook)
    (hbook : book.resolveAliases = true ∨ book.typeRules = []) (type : CType) (role : Role) :
    Classification.Alike role (book.classifyType type role)
        (book.classifyType type.canonical role) ∧
      ((type.pointers ≠ [] → type.reference = .none → type.canonical.reference = .none) →
        ((book.classifyType type role).passing.length? = some .caller ↔
          (book.classifyType type.canonical role).passing.length? = some .caller)) := by
  have hidempotent := type.isCanonical_canonical.canonical_eq
  have hshown := showTypes_classifyType hbook role hidempotent.symm
  exact ⟨hshown.alike, fun hpointers =>
    hshown.passing.caller_iff (CType.outputSize?_canonical_eq_none_iff hpointers).symm⟩

/-- A reference to an alias of `int`: as a parameter its output is measured by the alias, and as a
return value it is passed as a rule for references to `int` says. -/
theorem classifiesAlike_canonical_of_reference :
    let count := CType.typedef "Count" (.arithmetic .int)
    let type := count.withReference .lvalue
    let book : RuleBook :=
      { resolveAliases := true
        typeRules := [{
          selector := .typeSpelling .result "int&"
          treatment := .scalar .pointer
          modifier? := some .address }] }
    ((book.classifyType type .parameter).passing.length? = some (.counted ⟨1, count⟩) ∧
      (book.classifyType type.canonical .parameter).passing.length? =
        some (.counted ⟨1, .arithmetic .int⟩) ∧
      (book.classifyType type .parameter).modifier =
        (book.classifyType type.canonical .parameter).modifier) ∧
    (book.classifyType type .result).origin = .typeRule ∧
      (book.classifyType type .result).modifier =
        (book.classifyType type.canonical .result).modifier := by
  intro count type book
  obtain ⟨hparameter, -⟩ := classifiesAlike_canonical book (.inl rfl) type .parameter
  obtain ⟨hresult, -⟩ := classifiesAlike_canonical book (.inl rfl) type .result
  have horigin : (book.classifyType type .result).origin = .typeRule := by decide
  exact ⟨⟨by decide, by decide, hparameter.modifier_of_parameter rfl⟩, horigin,
    hresult.modifier_of_rule (by rw [horigin]; decide)⟩

end RuleBook

end Understudy
