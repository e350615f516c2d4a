import Understudy.Modifier
import Understudy.Scalar

/-! # Override rules

A rule says how one parameter, one return value, or every use of one type is passed to the mock
support. It is written `<key>=<kind>` or `<key>=<kind>/<modifier>`.
-/

namespace Understudy

/-- What a rule or a type is about: a parameter or a return value. -/
inductive Role where
  | parameter | result
  deriving DecidableEq, Repr

namespace Role

def sigil : Role → String
  | parameter => "#"
  | result => "@"

end Role

/-- What a rule applies to. Function names are qualified, and spellings are normalised. -/
inductive Selector where
  /-- Written `<function>#<parameter>`. -/
  | functionParameter (function parameter : String)
  /-- Written `<function>@`. -/
  | functionResult (function : String)
  /-- Written `#<parameter>`: a parameter of this name in any function. -/
  | parameterName (parameter : String)
  /-- A type by its whole spelling, because the key shows more than a base name. -/
  | typeSpelling (role : Role) (spelling : String)
  /-- A type by its base name. -/
  | typeName (role : Role) (name : String)
  deriving DecidableEq, Repr

namespace Selector

def role : Selector → Role
  | functionParameter .. | parameterName _ => .parameter
  | functionResult _ => .result
  | typeSpelling role _ | typeName role _ => role

def render : Selector → String
  | functionParameter function parameter => function ++ "#" ++ parameter
  | functionResult function => function ++ "@"
  | parameterName parameter => "#" ++ parameter
  | typeSpelling role text | typeName role text => role.sigil ++ text

end Selector

/-- How a rule asks for a value to be passed. -/
inductive Treatment where
  | scalar (scalar : Scalar)
  /-- Filled in by the expectation. -/
  | output
  /-- Compared byte by byte. The length is an expression in which `$` stands for the parameter. -/
  | memoryBuffer (length : String)
  /-- Compared by the comparator installed for `tag`. -/
  | object (tag : String)
  /-- Not passed at all. -/
  | skip
  deriving DecidableEq, Repr

namespace Treatment

/-- The scalar of a treatment that can describe a return value. -/
def scalar? : Treatment → Option Scalar
  | scalar s => some s
  | output | memoryBuffer _ | object _ | skip => none

def length? : Treatment → Option String
  | memoryBuffer length => some length
  | scalar _ | output | object _ | skip => none

/-- The treatment named by a word and the argument in parentheses after it, if there is one. -/
def ofToken? (token : String) : Option String → Option Treatment
  | none =>
    if token = "Output" then some output
    else if token = "Skip" then some skip
    else (Scalar.ofToken? token).map scalar
  | some argument =>
    if token = "MemoryBuffer" then some (memoryBuffer argument)
    else if token = "Object" then some (object argument)
    else none

/-- Whether a word names a treatment that needs an argument. -/
def needsArgument (token : String) : Bool :=
  token = "MemoryBuffer" || token = "Object"

/-- The treatment as a rule shows it. -/
def render : Treatment → String
  | scalar s => s.token
  | output => "Output"
  | memoryBuffer length => "MemoryBuffer(" ++ length ++ ")"
  | object tag => "Object(" ++ tag ++ ")"
  | skip => "Skip"

end Treatment

structure Rule where
  selector : Selector
  treatment : Treatment
  modifier? : Option Modifier := none
  deriving DecidableEq, Repr

namespace Rule

/-- The text of a rule: its key, its kind and its modifier, without blanks around them. -/
def render (rule : Rule) : String :=
  rule.selector.render ++ "=" ++ rule.treatment.render ++
    match rule.modifier? with
    | some modifier => "/" ++ modifier.render
    | none => ""

end Rule

end Understudy
