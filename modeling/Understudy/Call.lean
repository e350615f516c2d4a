import Understudy.Scalar

/-! # Calls to the mock support

A mock records its call, and an expectation announces one, by a chain of methods: an opening, then
one link for the object, one for each parameter, and one for the return value.

A chain is written as method calls one after the other. What each opening and each link writes is
its invocation, the method with its arguments.
-/

namespace Understudy

/-- The start of a chain, with the qualified name of the function. -/
inductive Opening where
  | actual (function : String)
  | expectOne (function : String)
  /-- `count` is the expression for the number of calls. -/
  | expectMany (count function : String)
  deriving DecidableEq, Repr

namespace Opening

def render : Opening → String
  | actual function => "mock().actualCall(\"" ++ function ++ "\")"
  | expectOne function => "mock().expectOneCall(\"" ++ function ++ "\")"
  | expectMany count function => "mock().expectNCalls(" ++ count ++ ", \"" ++ function ++ "\")"

end Opening

/-- One method of a chain. Names and tags stand in quotes, values and sizes are expressions. -/
inductive Link where
  | onObject (receiver : String)
  | scalar (scalar : Scalar) (name value : String)
  | memoryBuffer (name value length : String)
  | object (tag name value : String)
  | output (name value : String)
  | copiedOutput (tag name value : String)
  | outputReturning (name value size : String)
  | copiedOutputReturning (tag name value : String)
  /-- Retrieves the return value of an actual call. -/
  | returned (scalar : Scalar)
  /-- Gives the return value of an expected call. -/
  | returning (scalar : Scalar) (value : String)
  deriving DecidableEq, Repr

namespace Link

def quoted (text : String) : String := "\"" ++ text ++ "\""

def method (name : String) (arguments : List String) : String :=
  "." ++ name ++ "(" ++ String.intercalate ", " arguments ++ ")"

def render : Link → String
  | onObject receiver => method "onObject" [receiver]
  | scalar s name value => method s.parameterMethod [quoted name, value]
  | memoryBuffer name value length =>
    method "withMemoryBufferParameter"
      [quoted name, "reinterpret_cast<const unsigned char *>(" ++ value ++ ")", length]
  | object tag name value => method "withParameterOfType" [quoted tag, quoted name, value]
  | output name value => method "withOutputParameter" [quoted name, value]
  | copiedOutput tag name value =>
    method "withOutputParameterOfType" [quoted tag, quoted name, value]
  | outputReturning name value size =>
    method "withOutputParameterReturning" [quoted name, value, size]
  | copiedOutputReturning tag name value =>
    method "withOutputParameterOfTypeReturning" [quoted tag, quoted name, value]
  | returned s => method s.returnMethod []
  | returning s value =>
    method "andReturnValue" ["static_cast<" ++ s.valueType ++ ">(" ++ value ++ ")"]

end Link

structure Call where
  opening : Opening
  links : List Link
  deriving DecidableEq, Repr

namespace Call

def render (call : Call) : String :=
  call.opening.render ++ String.join (call.links.map Link.render)

end Call

/-! ## Chains as they are written -/

/-- A method call by what it shows: the method, and the arguments between the parentheses. -/
structure Invocation where
  method : String
  arguments : List String
  deriving DecidableEq, Repr

namespace Invocation

def text (call : Invocation) : String :=
  call.method ++ "(" ++ String.intercalate ", " call.arguments ++ ")"

/-- Method calls on the mock support, each on what the one before it gives. -/
def chain (calls : List Invocation) : String :=
  "mock()" ++ String.join (calls.map fun call => "." ++ call.text)

end Invocation

namespace Opening

/-- The name of the function is quoted and the count is not. -/
def invocation : Opening → Invocation
  | actual function => ⟨"actualCall", ["\"" ++ function ++ "\""]⟩
  | expectOne function => ⟨"expectOneCall", ["\"" ++ function ++ "\""]⟩
  | expectMany count function => ⟨"expectNCalls", [count, "\"" ++ function ++ "\""]⟩

theorem render_eq (opening : Opening) :
    opening.render = "mock()" ++ ("." ++ opening.invocation.text) := by
  cases opening with
  | actual function =>
      change "mock().actualCall(\"" ++ function ++ "\")" = _
      rw [invocation, Invocation.text, String.intercalate_singleton, ← String.toList_inj]
      simp only [String.toList_append, List.append_assoc]
      rfl
  | expectOne function =>
      change "mock().expectOneCall(\"" ++ function ++ "\")" = _
      rw [invocation, Invocation.text, String.intercalate_singleton, ← String.toList_inj]
      simp only [String.toList_append, List.append_assoc]
      rfl
  | expectMany count function =>
      change "mock().expectNCalls(" ++ count ++ ", \"" ++ function ++ "\")" = _
      rw [invocation, Invocation.text, String.intercalate_cons_cons, String.intercalate_singleton,
        ← String.toList_inj]
      simp only [String.toList_append, List.append_assoc]
      rfl

end Opening

namespace Link

/-- Tags and names are quoted. A buffer is passed as bytes, and a value to return as the type that
the mock support has for its scalar. -/
def invocation : Link → Invocation
  | onObject receiver => ⟨"onObject", [receiver]⟩
  | scalar s name value => ⟨"with" ++ s.token ++ "Parameter", ["\"" ++ name ++ "\"", value]⟩
  | memoryBuffer name value length =>
    ⟨"withMemoryBufferParameter",
      ["\"" ++ name ++ "\"", "reinterpret_cast<const unsigned char *>(" ++ value ++ ")", length]⟩
  | object tag name value =>
    ⟨"withParameterOfType", ["\"" ++ tag ++ "\"", "\"" ++ name ++ "\"", value]⟩
  | output name value => ⟨"withOutputParameter", ["\"" ++ name ++ "\"", value]⟩
  | copiedOutput tag name value =>
    ⟨"withOutputParameterOfType", ["\"" ++ tag ++ "\"", "\"" ++ name ++ "\"", value]⟩
  | outputReturning name value size =>
    ⟨"withOutputParameterReturning", ["\"" ++ name ++ "\"", value, size]⟩
  | copiedOutputReturning tag name value =>
    ⟨"withOutputParameterOfTypeReturning", ["\"" ++ tag ++ "\"", "\"" ++ name ++ "\"", value]⟩
  | returned s => ⟨"return" ++ s.token ++ "Value", []⟩
  | returning s value => ⟨"andReturnValue", ["static_cast<" ++ s.valueType ++ ">(" ++ value ++ ")"]⟩

theorem method_eq (name : String) (arguments : List String) :
    method name arguments = "." ++ (Invocation.mk name arguments).text := by
  simp only [method, Invocation.text, String.append_assoc]

theorem render_eq (link : Link) : link.render = "." ++ link.invocation.text := by
  cases link <;> exact method_eq _ _

end Link

namespace Call

/-- A call is written as its opening and its links in their order. -/
theorem render_eq_chain (call : Call) :
    call.render = Invocation.chain (call.opening.invocation :: call.links.map Link.invocation) := by
  have hlinks : (call.links.map Link.invocation).map (fun call => "." ++ call.text) =
      call.links.map Link.render := by
    rw [List.map_map]
    exact List.map_congr_left fun link _ => link.render_eq.symm
  rw [render, Opening.render_eq, Invocation.chain, List.map_cons, String.join_cons, hlinks,
    String.append_assoc]

end Call

end Understudy
