import Understudy.CType.Basic

/-! # Types without aliases

The canonical form of a type looks through its aliases. What is written on an alias is folded into
the type it stands for: qualifiers go to the outermost level, pointer levels come after those of
the aliased type and extents go outside its extents.
-/

namespace Understudy

namespace Written

/-- Folds what is written on an alias into the writing of the aliased type. A reference written on
the alias takes the place of one it stands for. -/
def absorb (inner outer : Written) : Written :=
  let qualified := inner.mapOutermost (·.union outer.base)
  { qualified with
    pointers := qualified.pointers ++ outer.pointers
    reference := if outer.reference = .none then inner.reference else outer.reference
    extents := outer.extents ++ inner.extents }

end Written

namespace CType

/-- The same type with its aliases looked through. A pointer to an alias of an array cannot be
written without the alias and stays as it is. -/
def canonical : CType → CType
  | plain w => plain w
  | aliasing w aliased =>
    if w.category = .typedef then
      let resolved := aliased.canonical
      if !resolved.extents.isEmpty && !w.pointers.isEmpty then aliasing w aliased
      else resolved.mapWritten (·.absorb w)
    else aliasing w aliased

end CType

end Understudy
