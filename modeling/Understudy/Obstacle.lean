import Understudy.Classification.Basic
import Understudy.Declaration

/-! # Obstacles to mocking

A declaration is mockable when nothing stands in the way. Of several obstacles one is reported: what
the declaration says about the function comes first, then its return type, then its parameters in
order.
-/

namespace Understudy

/-- Why a declaration cannot be mocked. -/
inductive Obstacle where
  | template
  /-- There is no return type to declare the mock with. -/
  | conversionOperator
  | pureVirtual
  /-- The header has the body already. -/
  | inlineDefinition
  /-- A member function that is neither public nor virtual. -/
  | hidden
  | unsupportedReturn (type : String)
  | unsupportedParameter (name type : String)
  deriving DecidableEq, Repr

namespace Obstacle

def message : Obstacle → String
  | template => "template"
  | conversionOperator => "conversion operator"
  | pureVirtual => "pure virtual"
  | inlineDefinition => "defined inline"
  | hidden => "non-virtual and not public"
  | unsupportedReturn type => "unsupported return type `" ++ type ++ "`"
  | unsupportedParameter name type =>
    "unsupported type `" ++ type ++ "` for parameter `" ++ name ++ "`"

/-- The obstacle in what a declaration says about the function, whatever the types. -/
def ofTraits? (d : Declaration) : Option Obstacle :=
  if d.traits.isTemplate then some template
  else if d.isConversionOperator then some conversionOperator
  else if d.traits.isPureVirtual then some pureVirtual
  else if d.traits.isDefined then some inlineDefinition
  else if d.isMember && d.access ≠ .isPublic && !d.traits.isVirtual then some hidden
  else none

def ofResult? (type : CType) (result? : Option Classification) : Option Obstacle :=
  if result?.any Classification.isUnsupported then some (unsupportedReturn type.spelling) else none

/-- The first parameter that nothing represents. -/
def ofParameters? (parameters : List (Parameter × Classification)) : Option Obstacle :=
  (parameters.find? fun entry => entry.2.isUnsupported).map fun entry =>
    unsupportedParameter entry.1.name entry.1.type.spelling

/-- The obstacle that is reported for a declaration with these classifications. -/
def find? (d : Declaration) (result? : Option Classification)
    (parameters : List (Parameter × Classification)) : Option Obstacle :=
  ofTraits? d <|> ofResult? d.returnType result? <|> ofParameters? parameters

end Obstacle

end Understudy
