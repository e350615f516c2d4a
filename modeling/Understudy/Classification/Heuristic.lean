import Understudy.Classification.Basic

/-! # Classification by type alone

Without a rule a value is classified by the canonical form of its type: arithmetic values and
enumerations are scalars, constant data is compared, mutable data is filled in, and what has no
representation is skipped.
-/

namespace Understudy

namespace Arithmetic

/-- The scalar that carries a value of an arithmetic type. -/
def scalar : Arithmetic → Scalar
  | bool => .bool
  | char | signedChar | short | int | wideChar => .int
  | unsignedChar | unsignedShort | unsignedInt | char16 => .unsignedInt
  | long | longLong => .longInt
  | unsignedLong | unsignedLongLong | char32 => .unsignedLongInt
  | float | double | longDouble => .double

/-- Whether the mock support returns the scalar in exactly this type, so that no cast is needed. -/
def isScalarType : Arithmetic → Bool
  | bool | int | unsignedInt | long | unsignedLong | double => true
  | char | signedChar | unsignedChar | short | unsignedShort | longLong | unsignedLongLong | float
  | longDouble | wideChar | char16 | char32 => false

end Arithmetic

namespace Classification

/-- A parameter passed by value. -/
def ofValue : Category → Classification
  | .arithmetic type => { passing := .scalar type.scalar }
  | .enum => { passing := .scalar .int, modifier := .staticCast "int" }
  | .void | .record | .typedef | .template | .functionPointer | .incomplete => unsupported

/-- A parameter that is an array. Constant elements are compared when their number and size are
known, other elements are filled in when their size is known. -/
def ofArray (type : CType) : Classification :=
  let canonical := type.canonical
  let element := canonical.element
  if element.pointers.isEmpty && element.category = .functionPointer then unsupported
  else if element.isOuterConst then
    match CType.elementCount? canonical.extents with
    | some count =>
      if element.isSized then
        { passing := .memoryBuffer (.counted { count, element := type.declaredElement }) }
      else { passing := .scalar .constPointer }
    | none => { passing := .scalar .constPointer }
  else if element.isSized then { passing := .output type.outputSize? }
  else { passing := .scalar .pointer }

/-- A parameter that is a pointer or an lvalue reference to `pointee`. -/
def ofIndirect (type : CType) (byReference : Bool) (pointee : Written) : Classification :=
  let modifier := if byReference then Modifier.address else Modifier.none
  if !byReference && pointee.pointers.isEmpty && pointee.category = .arithmetic .char then
    { passing := .scalar .string }
  else if pointee.outermost.isConst then
    if byReference && pointee.pointers.isEmpty && pointee.category = .record then unsupported
    else { passing := .scalar .constPointer, modifier }
  else if !pointee.pointers.isEmpty then { passing := .scalar .pointer, modifier }
  else
    match pointee.category with
    | .void | .incomplete | .template => { passing := .scalar .pointer, modifier }
    | .arithmetic _ | .enum | .record => { passing := .output type.outputSize?, modifier }
    | .typedef | .functionPointer => unsupported

/-- A parameter of a type without rules. An rvalue reference is taken for the value that it refers
to when that is arithmetic or an enumeration. -/
def ofParameterType (type : CType) : Classification :=
  let canonical := type.canonical
  if canonical.category = .functionPointer then unsupported
  else if canonical.reference = .rvalue then
    if canonical.pointers.isEmpty && canonical.extents.isEmpty then ofValue canonical.category
    else unsupported
  else if !canonical.extents.isEmpty then ofArray type
  else
    match canonical.written.pointee? with
    | none => ofValue canonical.category
    | some pointee => ofIndirect type (canonical.reference = .lvalue) pointee

/-- A value that is returned as it is. A record is returned through the address of a constant
object. -/
def ofReturnedValue (type : CType) : Category → Classification
  | .arithmetic a =>
    { passing := .scalar a.scalar
      modifier :=
        if type.isTypedef || !a.isScalarType then .staticCast type.spelling else .none }
  | .enum => { passing := .scalar .int, modifier := .staticCast type.spelling }
  | .record =>
    { passing := .scalar .constPointer
      modifier := .dereferencedCast type.withConst.pointer.spelling
      byAddress := true }
  | .void | .typedef | .template | .functionPointer | .incomplete => unsupported

/-- The scalar that carries the address of `pointee`. -/
def addressScalar (pointee : CType) : Scalar :=
  if pointee.isOuterConst then .constPointer else .pointer

/-- A returned lvalue reference is read through a pointer to its referent, spelled as declared when
that is no more than an alias. -/
def ofReturnedReference (type pointee : CType) : Classification :=
  let declared := type.withReference .none
  let target :=
    if type.reference ≠ .none && declared.isTypedef && declared.isPlain then declared else pointee
  { passing := .scalar (addressScalar pointee)
    modifier := .dereferencedCast target.pointer.spelling
    byAddress := true }

/-- A returned pointer. Only constant characters are a string, and only an untyped pointer is
returned without a cast. -/
def ofReturnedPointer (type pointee : CType) : Classification :=
  if pointee.isPlain && pointee.written.base.isConst && pointee.category = .arithmetic .char then
    { passing := .scalar .string
      modifier := if type.isTypedef then .staticCast type.spelling else .none }
  else
    { passing := .scalar (addressScalar pointee)
      modifier :=
        if type.isTypedef || !pointee.pointers.isEmpty || pointee.category ≠ .void then
          .staticCast type.spelling
        else .none }

/-- A return value of a type without rules. -/
def ofReturnType (type : CType) : Classification :=
  let canonical := type.canonical
  if canonical.category = .functionPointer || canonical.reference = .rvalue ||
      !canonical.extents.isEmpty then unsupported
  else
    match canonical.pointee? with
    | none => ofReturnedValue type canonical.category
    | some pointee =>
      if canonical.reference = .lvalue then ofReturnedReference type pointee
      else ofReturnedPointer type pointee

end Classification

end Understudy
