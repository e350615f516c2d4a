import Understudy.Analysis
import Understudy.Call

/-! # Companions

A mocked function has two companions in the namespace `expect`, inside the function's own scopes.
One announces a single call and the other a given number of calls. Their parameters are the
expected values, in the order of the function's parameters, with the value to return at the end.
-/

namespace Understudy

/-- What one value contributes to a companion: the declarations in its head and the link in its
call. -/
structure Slot where
  declarations : List String
  link? : Option Link
  deriving DecidableEq, Repr

namespace CType

/-- The type of an expected value. It is taken by value where the function has an rvalue
reference. -/
def expected (type : CType) : CType :=
  if type.reference = .rvalue then type.withReference .none else type

/-- A constant pointer to the data that is copied into an output parameter. -/
def copySource (type : CType) : CType :=
  let canonical := type.canonical
  let data :=
    if !type.extents.isEmpty then type.element
    else if type.reference ≠ .none || !type.pointers.isEmpty then type.pointee?.getD type
    else if canonical.extents.isEmpty then canonical.pointee?.getD canonical
    else canonical.element
  (data.withReference .none).withConst.pointer

/-- An object is expected as a constant reference where the function takes it by value. -/
def expectedObject (type : CType) : CType :=
  let canonical := type.canonical
  if canonical.pointers.isEmpty && canonical.reference = .none then
    type.withConst.withReference .lvalue
  else type.expected

/-- A value that is returned by address is given as a reference. -/
def returnedByAddress (type : CType) : CType :=
  if type.reference = .none then type.withConst.withReference .lvalue else type

end CType

namespace Slot

/-- The name of the companion's parameter for a size that the caller gives. -/
def sizeName (name : String) : String := "__sizeof_" ++ name

def sizeDeclaration (name : String) : String := "size_t " ++ sizeName name

/-- What a parameter contributes. One that is skipped contributes nothing. `value` is the
expression of the name under the modifier. -/
def ofParameter? (type : CType) (passing : Passing) (name value : String) : Option Slot :=
  match passing with
  | .skip => none
  | .scalar s =>
    some { declarations := [type.expected.declare name], link? := some (.scalar s name value) }
  | .output (some size) =>
    some
      { declarations := [type.copySource.declare name]
        link? := some (.outputReturning name name size.render) }
  | .output none =>
    some
      { declarations := ["const void * " ++ name, sizeDeclaration name]
        link? := some (.outputReturning name name (sizeName name)) }
  | .copiedOutput tag =>
    some
      { declarations := [type.copySource.declare name]
        link? := some (.copiedOutputReturning tag name name) }
  | .memoryBuffer (.counted bytes) =>
    some
      { declarations := [type.expected.declare name]
        link? := some (.memoryBuffer name value ((BufferLength.counted bytes).render name)) }
  | .memoryBuffer (.given _) =>
    some
      { declarations := [type.expected.declare name, sizeDeclaration name]
        link? := some (.memoryBuffer name value (sizeName name)) }
  | .object tag =>
    some
      { declarations := [type.expectedObject.declare name]
        link? := some (.object tag name value) }

def returnName : String := "__return__"

/-- What the return value contributes. -/
def ofResult (type : CType) (c : Classification) : Slot :=
  let value := if c.byAddress then "&" ++ returnName else returnName
  { declarations := [(if c.byAddress then type.returnedByAddress else type).declare returnName]
    link? := c.passing.scalar?.map fun s => .returning s value }

end Slot

/-- How many calls a companion announces. -/
inductive Quantity where
  | one | many
  deriving DecidableEq, Repr

namespace Quantity

def countName : String := "__numCalls__"

def opening (function : String) : Quantity → Opening
  | one => .expectOne function
  | many => .expectMany countName function

def declarations : Quantity → List String
  | one => []
  | many => ["unsigned int " ++ countName]

end Quantity

/-- Whether companions are declared in a header or defined in a source file. -/
inductive Presentation where
  | declared | defined
  deriving DecidableEq, Repr

namespace Analysis

variable (a : Analysis)

def slots : List Slot :=
  (a.parameters.filterMap fun (p, c) =>
    Slot.ofParameter? p.type c.passing p.name (c.modifier.apply p.name)) ++
    (a.result?.map (Slot.ofResult a.declaration.returnType)).toList

def objectName : String := "__object__"

/-- The call in the body of a companion. -/
def companionCall (quantity : Quantity) : Call where
  opening := quantity.opening a.declaration.qualifiedName
  links :=
    (if a.declaration.bindsObject then [.onObject objectName] else []) ++
      a.slots.filterMap Slot.link?

def companionParameters (quantity : Quantity) : List String :=
  quantity.declarations ++ (if a.declaration.bindsObject then ["void *" ++ objectName] else []) ++
    a.slots.flatMap Slot.declarations

def companionHead (quantity : Quantity) : String :=
  "MockExpectedCall& " ++ a.companionName ++ "(" ++
    String.intercalate ", " (a.companionParameters quantity) ++ ")"

def companionText (presentation : Presentation) (quantity : Quantity) : String :=
  a.companionHead quantity ++
    match presentation with
    | .declared => ";\n"
    | .defined => "\n\x7b\n    return " ++ (a.companionCall quantity).render ++ ";\n\x7d\n"

theorem companionText_defined (quantity : Quantity) :
    a.companionText .defined quantity = a.companionHead quantity ++ "\n\x7b\n    return " ++
      (a.companionCall quantity).render ++ ";\n\x7d\n" := by
  simp only [companionText, String.append_assoc]

/-- Both companions in their namespaces, whether or not the declaration is mockable. -/
def companionsText (presentation : Presentation) : String :=
  let scopes := a.declaration.scopes
  "namespace expect \x7b" ++ String.join (scopes.map fun scope => " namespace " ++ scope ++ " \x7b") ++
    "\n" ++ a.companionText presentation .one ++ a.companionText presentation .many ++
    String.join (scopes.map fun _ => "\x7d ") ++ "\x7d\n"

/-- A text in the namespace of all companions and the function's own scopes. -/
def inNamespaces (text : String) : String :=
  let scopes := a.declaration.scopes
  "namespace expect \x7b" ++
    String.join (scopes.map fun scope => " namespace " ++ scope ++ " \x7b") ++ "\n" ++ text ++
    String.join (scopes.map fun _ => "\x7d ") ++ "\x7d\n"

theorem companionsText_eq (presentation : Presentation) : a.companionsText presentation =
    a.inNamespaces (a.companionText presentation .one ++ a.companionText presentation .many) := by
  unfold companionsText inNamespaces
  simp only [String.append_assoc]

/-- The companions of a mockable declaration. -/
def companions? (presentation : Presentation) : Option String :=
  if a.isMockable then some (a.companionsText presentation) else none

end Analysis

end Understudy
