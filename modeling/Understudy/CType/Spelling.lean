import Understudy.CType.Basic

/-! # Declarators

A type is spelled, and a name is declared with it, in the usual layout: `const char *name`,
`int (&name)[4]`, `void (*const name)(int)`. The spelling is the declaration of the empty name.
-/

namespace Understudy

namespace Cv

/-- The qualifiers as they follow a `*`. -/
def spelling : Cv → String
  | ⟨true, true⟩ => "const volatile"
  | ⟨true, false⟩ => "const"
  | ⟨false, true⟩ => "volatile"
  | ⟨false, false⟩ => ""

end Cv

namespace Reference

def spelling : Reference → String
  | none => ""
  | lvalue => "&"
  | rvalue => "&&"

end Reference

namespace Extent

def spelling : Extent → String
  | some count => "[" ++ toString count.toNat ++ "]"
  | none => "[]"

end Extent

namespace Written

variable (w : Written)

/-- The pointer levels with a space before each `*` that follows a word. -/
def pointersSpelling (afterWord : Bool) : List Cv → String
  | [] => ""
  | level :: levels =>
    (if afterWord then " " else "") ++ "*" ++ level.spelling ++
      pointersSpelling level.isQualified levels

def extentsSpelling : String :=
  String.join (w.extents.map Extent.spelling)

/-- The base name with its qualifiers in front, and the pointer levels. -/
def specifier : String :=
  (if w.base.isConst then "const " else "") ++ (if w.base.isVolatile then "volatile " else "") ++
    w.name ++ pointersSpelling true w.pointers

/-- The usual layout. With extents, a reference and the name stand in parentheses, because the
extents would otherwise belong to the referent's declarator. -/
def declareOrdinary (name : String) : String :=
  if w.extents.isEmpty then
    w.specifier ++ (if w.reference = .none then "" else " " ++ w.reference.spelling) ++
      (if name.isEmpty then "" else " " ++ name)
  else if w.reference = .none then
    w.specifier ++ " " ++ name ++ w.extentsSpelling
  else
    w.specifier ++ " (" ++ w.reference.spelling ++ name ++ ")" ++ w.extentsSpelling

end Written

/-- A function pointer spelling in three parts: up to and with its first `(*`, what stands between
that and the next `)`, and the rest from this `)` on. -/
structure Callback where
  head : List Char
  inside : List Char
  tail : List Char
  deriving DecidableEq, Repr

namespace Callback

/-- The parts up to and with the first `(*`, and after it. -/
def cutStar : List Char → Option (List Char × List Char)
  | '(' :: '*' :: rest => some (['(', '*'], rest)
  | c :: rest => (cutStar rest).map fun parts => (c :: parts.1, parts.2)
  | [] => none

def ofSpelling? (name : String) : Option Callback := do
  let (head, rest) ← cutStar name.toList
  let (inside, after) ← Text.cut ')' rest
  return { head, inside, tail := ')' :: after }

/-- Puts a word after a declarator, with a space if it would run into a letter or digit. -/
def addWord (declarator word : List Char) : List Char :=
  if declarator.getLast?.any Char.isAlphanum then declarator ++ ' ' :: word else declarator ++ word

/-- Puts one more pointer level after a declarator, with a space unless it is empty or ends in
`*`. -/
def addPointer (declarator : List Char) (level : Cv) : List Char :=
  let spaced :=
    if declarator.isEmpty || declarator.getLast? = some '*' then declarator
    else declarator ++ [' ']
  spaced ++ '*' :: level.spelling.toList

/-- What stands inside the parentheses when `name` is declared: the qualifiers of the pointer, the
further levels, the reference, the name and the extents. -/
def declarator (callback : Callback) (w : Written) (name : String) : List Char :=
  let start := Text.trim callback.inside
  let constant := if w.base.isConst then addWord start "const".toList else start
  let qualified := if w.base.isVolatile then addWord constant "volatile".toList else constant
  let pointed := w.pointers.foldl addPointer qualified
  let referred := pointed ++ w.reference.spelling.toList
  let named := if name.isEmpty then referred else addWord referred name.toList
  named ++ w.extentsSpelling.toList

def declare (callback : Callback) (w : Written) (name : String) : String :=
  String.ofList (callback.head ++ callback.declarator w name ++ callback.tail)

end Callback

namespace Written

variable (w : Written)

/-- The callback that the base name spells, if it is a function pointer. -/
def callback? : Option Callback :=
  if w.category = .functionPointer then Callback.ofSpelling? w.name else none

/-- A declaration of `name`. The declarator of a function pointer goes inside the parentheses of
its spelling; one that has no `(*` and `)` is laid out like any other type. -/
def declare (name : String) : String :=
  match w.callback? with
  | some callback => callback.declare w name
  | none => w.declareOrdinary name

end Written

namespace CType

variable (t : CType)

def declare (name : String) : String := t.written.declare name

def spelling : String := t.declare ""

end CType

end Understudy
