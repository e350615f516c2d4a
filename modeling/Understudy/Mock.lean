import Understudy.Analysis
import Understudy.Call

/-! # Mocks

The mock of a function is a definition with the function's own head. Its body makes one call to the
mock support and returns what that gives.
-/

namespace Understudy

namespace Passing

/-- The link with which a mock registers a parameter, or none for one that is skipped. -/
def mockLink? (passing : Passing) (name value : String) : Option Link :=
  match passing with
  | scalar s => some (.scalar s name value)
  | output _ => some (.output name value)
  | copiedOutput tag => some (.copiedOutput tag name value)
  | memoryBuffer length => some (.memoryBuffer name value (length.render name))
  | object tag => some (.object tag name value)
  | skip => none

end Passing

namespace Analysis

variable (a : Analysis)

def mockParameterLinks : List Link :=
  a.parameters.filterMap fun (p, c) => c.passing.mockLink? p.name (c.modifier.apply p.name)

/-- The call in the body of the mock. -/
def mockCall : Call where
  opening := .actual a.declaration.qualifiedName
  links :=
    (if a.declaration.bindsObject then [.onObject "this"] else []) ++ a.mockParameterLinks ++
      ((a.result?.bind fun c => c.passing.scalar?).map Link.returned).toList

/-- The parameters of the mock's head. One that is skipped has no name, so that it is not reported
as unused. -/
def mockParameters : List String :=
  a.parameters.map fun (p, c) =>
    match c.passing with
    | .skip => p.type.spelling
    | _ => p.type.declare p.name

def mockHead : String :=
  let d := a.declaration
  d.returnType.spelling ++ " " ++ d.qualifiedName ++ "(" ++
    String.intercalate ", " a.mockParameters ++ ")" ++
    if d.traits.isConst then " const" else ""

def mockStatement : String :=
  let call := a.mockCall.render
  match a.result? with
  | some c => "return " ++ c.modifier.apply call
  | none => call

/-- The modifier around the chain of calls. -/
def resultModifier (a : Analysis) : Modifier := (a.result?.map (·.modifier)).getD .none

theorem mockStatement_eq : a.mockStatement =
    (if a.result?.isSome then "return " else "") ++ a.resultModifier.apply a.mockCall.render := by
  unfold mockStatement resultModifier
  cases a.result? with
  | none => simp [Modifier.apply, Modifier.none]
  | some c => rfl

/-- The definition of the mock, whether or not the declaration is mockable. -/
def mockText : String :=
  a.mockHead ++ "\n\x7b\n    " ++ a.mockStatement ++ ";\n\x7d\n"

/-- The definition of the mock of a mockable declaration. -/
def mock? : Option String := if a.isMockable then some a.mockText else none

end Analysis

end Understudy
