import Understudy.Header.Basic

/-! # Keys of the declaration tree

The words for the values of the enumerations in the JSON form of a header. Reading finds the value
whose key it meets, so reading a key that was written gives the value back.
-/

namespace Understudy

namespace Arithmetic

def all : List Arithmetic :=
  [bool, char, signedChar, unsignedChar, short, unsignedShort, int, unsignedInt, long, unsignedLong,
    longLong, unsignedLongLong, float, double, longDouble, wideChar, char16, char32]

def key : Arithmetic → String
  | bool => "bool"
  | char => "char"
  | signedChar => "s_char"
  | unsignedChar => "u_char"
  | short => "short"
  | unsignedShort => "u_short"
  | int => "int"
  | unsignedInt => "u_int"
  | long => "long"
  | unsignedLong => "u_long"
  | longLong => "long_long"
  | unsignedLongLong => "u_long_long"
  | float => "float"
  | double => "double"
  | longDouble => "long_double"
  | wideChar => "w_char"
  | char16 => "char16"
  | char32 => "char32"

def ofKey? (text : String) : Option Arithmetic := all.find? fun type => type.key = text

theorem ofKey?_key (type : Arithmetic) : ofKey? type.key = some type := by
  cases type <;> decide

end Arithmetic

namespace Category

/-- The key of the arithmetic category, which holds the key of a type. -/
def arithmeticKey : String := "builtin"

/-- The categories that are written as a key alone. -/
def all : List Category :=
  [void, enum, record, typedef, template, functionPointer, incomplete]

def key : Category → String
  | void => "void"
  | arithmetic _ => arithmeticKey
  | enum => "enum"
  | record => "record"
  | typedef => "typedef"
  | template => "template"
  | functionPointer => "function_pointer"
  | incomplete => "incomplete"

def ofKey? (text : String) : Option Category := all.find? fun category => category.key = text

end Category

namespace Reference

def all : List Reference := [none, lvalue, rvalue]

def key : Reference → String
  | none => "none"
  | lvalue => "l_value"
  | rvalue => "r_value"

def ofKey? (text : String) : Option Reference := all.find? fun reference => reference.key = text

theorem ofKey?_key (reference : Reference) : ofKey? reference.key = some reference := by
  cases reference <;> decide

end Reference

namespace Access

def all : List Access := [isPublic, isProtected, isPrivate]

def key : Access → String
  | isPublic => "public"
  | isProtected => "protected"
  | isPrivate => "private"

def ofKey? (text : String) : Option Access := all.find? fun access => access.key = text

theorem ofKey?_key (access : Access) : ofKey? access.key = some access := by
  cases access <;> decide

end Access

namespace Severity

def all : List Severity := [note, warning, error, fatal]

def key : Severity → String
  | note => "note"
  | warning => "warning"
  | error => "error"
  | fatal => "fatal"

def ofKey? (text : String) : Option Severity := all.find? fun severity => severity.key = text

theorem ofKey?_key (severity : Severity) : ofKey? severity.key = some severity := by
  cases severity <;> decide

end Severity

namespace Entity

/-- The keys of the kinds of nodes, in the order in which a number counts them. -/
def kindKeys : List String := ["namespace", "class", "function", "other"]

end Entity

end Understudy
