import Understudy.CType.Canonical
import Understudy.CType.Spelling
import Understudy.Rule.Basic

/-! # Classifications

A classification says how one value passes through the mock support and why. What a way of passing
needs comes with it: a raw copy has its size or leaves it to the caller, a compared buffer always
has a length, and a copy through a copier has neither.
-/

namespace Understudy

/-- The size of `count` elements of a type, in bytes. -/
structure ByteCount where
  count : Nat
  element : CType
  deriving DecidableEq, Repr

namespace ByteCount

/-- The size as an expression. A factor of one is left out, and so is the outermost `const` of the
element, which does not change a size. -/
def render (bytes : ByteCount) : String :=
  let one := "sizeof(" ++ bytes.element.withoutOuterConst.spelling ++ ")"
  if bytes.count = 1 then one else toString bytes.count ++ " * " ++ one

end ByteCount

/-- The length of a buffer that is compared byte by byte. -/
inductive BufferLength where
  /-- Known from the type. -/
  | counted (bytes : ByteCount)
  /-- Computed in the mock from an expression in which `$` stands for the parameter. -/
  | given (expression : String)
  deriving DecidableEq, Repr

namespace BufferLength

/-- The length as an expression for the parameter `name`. -/
def render (length : BufferLength) (name : String) : String :=
  let expression :=
    match length with
    | counted bytes => bytes.render
    | given expression => expression
  String.ofList (Text.substitute '$' name.toList expression.toList)

end BufferLength

/-- The way in which a value passes through the mock support. -/
inductive Passing where
  | scalar (scalar : Scalar)
  /-- Filled in by a raw copy. Without a size, whoever writes the expectation gives it. -/
  | output (size? : Option ByteCount)
  /-- Filled in by the copier installed for `tag`. -/
  | copiedOutput (tag : String)
  | memoryBuffer (length : BufferLength)
  | object (tag : String)
  | skip
  deriving DecidableEq, Repr

namespace Passing

def scalar? : Passing → Option Scalar
  | scalar s => some s
  | output _ | copiedOutput _ | memoryBuffer _ | object _ | skip => none

end Passing

/-- Where a classification comes from. -/
inductive Origin where
  | heuristic
  /-- A rule for a parameter or for the return value of a function. -/
  | parameterRule
  | typeRule
  deriving DecidableEq, Repr

structure Classification where
  passing : Passing
  /-- The expression around the value in the mock. -/
  modifier : Modifier := .none
  origin : Origin := .heuristic
  /-- Whether the address of a returned value is exchanged instead of the value. -/
  byAddress : Bool := false
  deriving DecidableEq, Repr

namespace Classification

/-- A skip that no rule asked for: nothing represents the type. -/
def isUnsupported (c : Classification) : Bool :=
  c.passing = .skip && c.origin = .heuristic

/-- What the heuristics answer for a type that they cannot represent. -/
def unsupported : Classification := { passing := .skip }

end Classification

namespace CType

/-- The element of an array, spelled as declared when the declaration shows the extents. -/
def declaredElement (type : CType) : CType :=
  if type.extents.isEmpty then type.canonical.element else type.element

/-- The largest number of elements that is told apart. -/
def maxCount : Nat := UInt64.size - 1

/-- The number of elements of an array of arrays, or nothing when an extent is unknown. A product
beyond `maxCount` stays there. -/
def elementCount? (extents : List Extent) : Option Nat :=
  extents.foldlM (fun count extent => extent.map fun n => min (count * n.toNat) maxCount) 1

/-- The size of what an output parameter of this type points to, if it is known. An array of
unknown extent counts as one element. -/
def outputSize? (type : CType) : Option ByteCount :=
  let canonical := type.canonical
  if canonical.extents.isEmpty then
    let pointee? :=
      if type.reference ≠ .none || !type.pointers.isEmpty then type.pointee?
      else canonical.pointee?
    match pointee? with
    | some pointee => if pointee.isSized then some { count := 1, element := pointee } else none
    | none => none
  else
    let element := type.declaredElement
    if element.isSized then some { count := (elementCount? canonical.extents).getD 1, element }
    else none

end CType

end Understudy
