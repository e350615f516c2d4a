/-! # Scalars of the mock support

The values that the mock support passes and returns as they are. Each has a method that registers
a parameter, a method that retrieves a return value, and the type that a return value is given in.
-/

namespace Understudy

inductive Scalar where
  | bool | int | unsignedInt | longInt | unsignedLongInt | double | string | pointer | constPointer
  deriving DecidableEq, Repr

namespace Scalar

def all : List Scalar :=
  [bool, int, unsignedInt, longInt, unsignedLongInt, double, string, pointer, constPointer]

/-- The word for the scalar in override rules and in the names of the methods. -/
def token : Scalar → String
  | bool => "Bool"
  | int => "Int"
  | unsignedInt => "UnsignedInt"
  | longInt => "LongInt"
  | unsignedLongInt => "UnsignedLongInt"
  | double => "Double"
  | string => "String"
  | pointer => "Pointer"
  | constPointer => "ConstPointer"

def ofToken? (token : String) : Option Scalar :=
  all.find? fun scalar => scalar.token = token

/-- Registers a parameter, in an actual and in an expected call alike. -/
def parameterMethod (scalar : Scalar) : String := "with" ++ scalar.token ++ "Parameter"

/-- Retrieves the return value of an actual call. -/
def returnMethod (scalar : Scalar) : String := "return" ++ scalar.token ++ "Value"

/-- The type with which an expected call takes its return value. -/
def valueType : Scalar → String
  | bool => "bool"
  | int => "int"
  | unsignedInt => "unsigned int"
  | longInt => "long"
  | unsignedLongInt => "unsigned long"
  | double => "double"
  | string => "const char *"
  | pointer => "void *"
  | constPointer => "const void *"

/-- Pointers are the scalars that can carry the address of a value instead of the value. -/
def isAddress : Scalar → Bool
  | pointer | constPointer => true
  | bool | int | unsignedInt | longInt | unsignedLongInt | double | string => false

theorem token_of_ofToken? {text : String} {scalar : Scalar} (h : ofToken? text = some scalar) :
    scalar.token = text := by
  simpa using List.find?_some h

end Scalar

end Understudy
