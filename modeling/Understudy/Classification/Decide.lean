import Understudy.Classification.Heuristic
import Understudy.Classification.Override
import Understudy.Declaration
import Understudy.RuleBook

/-! # Which classification applies

A rule for the parameter or the function comes first, then a type rule that applies to the shape of
the declared type, then the heuristics.
-/

namespace Understudy

namespace RuleBook

variable (book : RuleBook)

/-- The type that type rules are looked up for. -/
def lookedUp (type : CType) : CType :=
  if book.resolveAliases then type.canonical else type

/-- Classifies a type by type rules and heuristics alone. -/
def classifyType (type : CType) (role : Role) : Classification :=
  let looked := book.lookedUp type
  let rule? := book.typeRule? looked role
  match role with
  | .parameter =>
    (rule?.bind fun rule => rule.classifyTypedParameter? type looked).getD
      (Classification.ofParameterType type)
  | .result =>
    (rule?.bind fun rule => rule.classifyTypedResult? type looked).getD
      (Classification.ofReturnType type)

/-- Classifies a parameter of a function. -/
def classifyParameter (function : String) (parameter : Parameter) : Classification :=
  match book.parameterRule? function parameter.name with
  | some rule => rule.classifyParameter parameter.type .parameterRule
  | none => book.classifyType parameter.type .parameter

/-- Classifies the return value of a function, unless it returns nothing. -/
def classifyResult? (function : String) (type : CType) : Option Classification :=
  if type.canonical.isVoid then none
  else
    match book.resultRule? function with
    | some rule => some (rule.classifyResult type .parameterRule)
    | none => some (book.classifyType type .result)

end RuleBook

end Understudy
