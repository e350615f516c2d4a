import Understudy.Text.Blank
import Understudy.Text.Cut

/-! # C types as they are written

A type is described by what is written for it in a declaration: a base name with its qualifiers,
pointer levels, a reference and array extents. When the base name is an alias, the type it stands
for comes with it, so a type is a chain of such writings with the declared one first.
-/

namespace Understudy

/-- The fundamental arithmetic types. -/
inductive Arithmetic where
  | bool | char | signedChar | unsignedChar | short | unsignedShort | int | unsignedInt | long
  | unsignedLong | longLong | unsignedLongLong | float | double | longDouble | wideChar | char16
  | char32
  deriving DecidableEq, Repr

namespace Arithmetic

def spelling : Arithmetic → String
  | bool => "bool"
  | char => "char"
  | signedChar => "signed char"
  | unsignedChar => "unsigned char"
  | short => "short"
  | unsignedShort => "unsigned short"
  | int => "int"
  | unsignedInt => "unsigned int"
  | long => "long"
  | unsignedLong => "unsigned long"
  | longLong => "long long"
  | unsignedLongLong => "unsigned long long"
  | float => "float"
  | double => "double"
  | longDouble => "long double"
  | wideChar => "wchar_t"
  | char16 => "char16_t"
  | char32 => "char32_t"

end Arithmetic

/-- What the base name of a type refers to. -/
inductive Category where
  | void
  | arithmetic (type : Arithmetic)
  | enum
  /-- A class, struct or union whose definition is visible. -/
  | record
  | typedef
  /-- A class template specialisation such as `std::vector<int>`. -/
  | template
  /-- A function type reached through a pointer; the base name is the spelling of the pointer. -/
  | functionPointer
  /-- A class, struct or union that is only declared. -/
  | incomplete
  deriving DecidableEq, Repr

/-- The qualifiers of one level of a type. -/
structure Cv where
  isConst : Bool := false
  isVolatile : Bool := false
  deriving DecidableEq, Repr

namespace Cv

def isQualified (cv : Cv) : Bool := cv.isConst || cv.isVolatile

/-- The qualifiers that either side has. -/
def union (a b : Cv) : Cv where
  isConst := a.isConst || b.isConst
  isVolatile := a.isVolatile || b.isVolatile

def withConst (cv : Cv) : Cv := { cv with isConst := true }

def withoutConst (cv : Cv) : Cv := { cv with isConst := false }

end Cv

inductive Reference where
  | none | lvalue | rvalue
  deriving DecidableEq, Repr

/-- The number of elements of one array dimension, or nothing for `[]`. -/
abbrev Extent := Option UInt64

/-- One writing of a type, in the order in which a declaration shows it. -/
structure Written where
  name : String
  category : Category
  /-- The qualifiers of the base name. -/
  base : Cv := {}
  /-- The pointer levels, innermost first, each with the qualifiers that follow its `*`. -/
  pointers : List Cv := []
  reference : Reference := .none
  /-- The array extents, outermost first. -/
  extents : List Extent := []
  deriving DecidableEq, Repr

/-- A type: what is written, and the type that its base name is an alias of, if that is known.
Only a base name of category `typedef` is looked through. -/
inductive CType where
  | plain (written : Written)
  | aliasing (written : Written) (aliased : CType)
  deriving DecidableEq, Repr

namespace Written

variable (w : Written)

/-- No pointer level, no reference and no extent. -/
def isPlain : Bool :=
  w.pointers.isEmpty && w.reference = .none && w.extents.isEmpty

/-- The qualifiers of the last pointer level, or of the base name when there is no pointer. -/
def outermost : Cv := w.pointers.getLast?.getD w.base

/-- Changes the qualifiers that `outermost` reads. -/
def mapOutermost (f : Cv → Cv) : Written :=
  match w.pointers.getLast? with
  | some last => { w with pointers := w.pointers.dropLast ++ [f last] }
  | none => { w with base := f w.base }

def addPointer : Written := { w with pointers := w.pointers ++ [{}] }

def withReference (reference : Reference) : Written := { w with reference }

/-- One more array dimension, inside those already written. -/
def addExtent (extent : Extent) : Written := { w with extents := w.extents ++ [extent] }

/-- The element of an array, with the reference dropped. -/
def element : Written := { w with extents := [], reference := .none }

/-- One indirection less: the referent of a reference, the element of the outermost dimension of
an array, or what a pointer points to. -/
def pointee? : Option Written :=
  if w.reference ≠ .none then some { w with reference := .none }
  else
    match w.extents, w.pointers with
    | _ :: extents, _ => some { w with extents }
    | [], [] => none
    | [], _ :: _ => some { w with pointers := w.pointers.dropLast }

/-- The base name without a leading `struct`, `class`, `union` or `enum`. -/
def bareName : String :=
  let name := w.name.toList
  let tags := ["struct ", "class ", "union ", "enum "]
  let bare := (tags.findSome? fun tag => Text.dropStart? tag.toList name).getD name
  String.ofList (Text.trim bare)

end Written

namespace CType

variable (t : CType)

def written : CType → Written
  | plain w | aliasing w _ => w

/-- Changes what is written and keeps what the base name stands for. -/
def mapWritten (f : Written → Written) : CType → CType
  | plain w => plain (f w)
  | aliasing w aliased => aliasing (f w) aliased

def void : CType := plain { name := "void", category := .void }

def arithmetic (type : Arithmetic) : CType :=
  plain { name := type.spelling, category := .arithmetic type }

def record (name : String) : CType := plain { name, category := .record }

def enumeration (name : String) : CType := plain { name, category := .enum }

/-- The alias `name` of a type. -/
def typedef (name : String) (aliased : CType) : CType :=
  aliasing { name, category := .typedef } aliased

def category : Category := t.written.category

def pointers : List Cv := t.written.pointers

def reference : Reference := t.written.reference

def extents : List Extent := t.written.extents

def isPlain : Bool := t.written.isPlain

def isTypedef : Bool := t.category = .typedef

def isVoid : Bool := t.category = .void && t.isPlain

def isOuterConst : Bool := t.written.outermost.isConst

/-- `const` on the outermost level. -/
def withConst : CType := t.mapWritten (·.mapOutermost Cv.withConst)

/-- No `const` on the outermost level; `volatile` stays. -/
def withoutOuterConst : CType := t.mapWritten (·.mapOutermost Cv.withoutConst)

def pointer : CType := t.mapWritten (·.addPointer)

def withReference (reference : Reference) : CType := t.mapWritten (·.withReference reference)

def array (extent : Extent) : CType := t.mapWritten (·.addExtent extent)

def element : CType := t.mapWritten (·.element)

def pointee? : Option CType := t.written.pointee?.map fun w => t.mapWritten fun _ => w

def bareName : String := t.written.bareName

/-- Whether `sizeof` can be applied. An alias is sized when the type it stands for is. -/
def isSized : CType → Bool
  | plain w =>
    !w.pointers.isEmpty ||
      match w.category with
      | .void | .incomplete | .functionPointer | .typedef => false
      | .arithmetic _ | .enum | .record | .template => true
  | aliasing w aliased =>
    !w.pointers.isEmpty ||
      match w.category with
      | .void | .incomplete | .functionPointer => false
      | .typedef => aliased.isSized
      | .arithmetic _ | .enum | .record | .template => true

end CType

end Understudy
