import Understudy.Classification.Basic

/-! # Classification by rule

A rule decides how a value is passed. Without a modifier of its own, a rule for a parameter takes
the address of what the mock support can only take by address.
-/

namespace Understudy

namespace Treatment

/-- The modifier of a treatment whose rule has none. An array is passed as it is, because it is
already the address of its first element. -/
def naturalModifier (treatment : Treatment) (canonical : CType) : Modifier :=
  let byReference := canonical.reference ≠ .none && canonical.extents.isEmpty
  let takesAddress :=
    match treatment with
    | object _ => byReference || canonical.pointers.isEmpty
    | output | memoryBuffer _ | scalar .pointer | scalar .constPointer => byReference
    | scalar _ | skip => false
  if takesAddress then .address else .none

/-- How a parameter of the given type passes under a treatment. -/
def passing (treatment : Treatment) (type : CType) : Passing :=
  match treatment with
  | scalar s => .scalar s
  | output => .output type.outputSize?
  | memoryBuffer length => .memoryBuffer (.given length)
  | object tag => .object tag
  | skip => .skip

end Treatment

namespace Rule

variable (rule : Rule)

/-- The modifier for a parameter: the rule's own, or else the natural one. -/
def parameterModifier (type : CType) : Modifier :=
  rule.modifier?.getD (rule.treatment.naturalModifier type.canonical)

def classifyParameter (type : CType) (origin : Origin) : Classification where
  passing := rule.treatment.passing type
  modifier := rule.parameterModifier type
  origin := origin

/-- Whether a value of this canonical type is returned by address when a pointer carries it: an
lvalue reference, or a record by value. -/
def returnsObject (canonical : CType) : Bool :=
  canonical.reference = .lvalue || (canonical.isPlain && canonical.category = .record)

/-- How a return value passes. A treatment that is no scalar cannot be returned; no rule for return
values has one. -/
def classifyResult (type : CType) (origin : Origin) : Classification :=
  match rule.treatment.scalar? with
  | none => { passing := .skip, modifier := rule.modifier?.getD .none, origin }
  | some s =>
    { passing := .scalar s
      modifier := rule.modifier?.getD .none
      origin
      byAddress := s.isAddress && returnsObject type.canonical }

/-- What an object rule for a base name makes of a parameter. It applies to a value, an lvalue
reference or a single pointer; an object behind an address that is not constant is filled in by the
copier of the same tag. -/
def classifyObject? (tag : String) (type : CType) : Option Classification :=
  let canonical := type.canonical
  if canonical.extents.isEmpty && canonical.reference ≠ .rvalue &&
      canonical.pointers.length ≤ 1 then
    let classification := rule.classifyParameter type .typeRule
    let isIndirect := canonical.reference = .lvalue || !canonical.pointers.isEmpty
    if isIndirect && canonical.pointee?.any fun pointee => !pointee.isOuterConst then
      some { classification with passing := .copiedOutput tag }
    else some classification
  else none

/-- What a type rule makes of a parameter. A rule for a base name applies to the plain type alone,
except that an object rule reaches through one indirection. `looked` is the type that the rule was
found for. -/
def classifyTypedParameter? (type looked : CType) : Option Classification :=
  match rule.selector, rule.treatment with
  | .typeName .., .object tag => rule.classifyObject? tag type
  | .typeName .., _ => if looked.isPlain then some (rule.classifyParameter type .typeRule) else none
  | _, _ => some (rule.classifyParameter type .typeRule)

/-- What a type rule makes of a return value. A rule for a base name applies to the plain type
alone. -/
def classifyTypedResult? (type looked : CType) : Option Classification :=
  match rule.selector with
  | .typeName .. => if looked.isPlain then some (rule.classifyResult type .typeRule) else none
  | _ => some (rule.classifyResult type .typeRule)

end Rule

end Understudy
