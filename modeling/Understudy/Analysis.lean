import Understudy.Classification.Decide
import Understudy.Obstacle

/-! # Analysed declarations

An analysis is a declaration with a classification for each parameter and for the return value,
and the obstacle to mocking it, if there is one.
-/

namespace Understudy

structure Analysis where
  declaration : Declaration
  /-- The classification of the return value, or nothing for `void`. -/
  result? : Option Classification
  parameters : List (Parameter × Classification)
  obstacle? : Option Obstacle
  /-- The name of the two companion functions. -/
  companionName : String
  deriving DecidableEq, Repr

namespace Analysis

def isMockable (a : Analysis) : Bool := a.obstacle?.isNone

end Analysis

namespace RuleBook

/-- Classifies a declaration. Its companions take its name. -/
def analyse (book : RuleBook) (d : Declaration) : Analysis :=
  let result? := book.classifyResult? d.qualifiedName d.returnType
  let parameters := d.parameters.map fun p => (p, book.classifyParameter d.qualifiedName p)
  { declaration := d
    result?
    parameters
    obstacle? := Obstacle.find? d result? parameters
    companionName := d.name }

end RuleBook

end Understudy
