import Understudy.Declaration

/-! # Headers

A header is what a parser reports about an input file: its diagnostics and the tree of what it
declares. A node of the tree tells whether it stands in the input file itself or in a file that it
includes.
-/

namespace Understudy

inductive Severity where
  | note | warning | error | fatal
  deriving DecidableEq, Repr

namespace Severity

/-- Whether a diagnostic of this severity stops the generation. -/
def isError : Severity → Bool
  | note | warning => false
  | error | fatal => true

end Severity

structure Diagnostic where
  severity : Severity
  message : String
  deriving DecidableEq, Repr

/-- A function or member function as the parser reports it, with its unqualified name. -/
structure FunctionEntity where
  name : String
  isMain : Bool := true
  returnType : CType
  /-- The names and types of the parameters. An unnamed one has an empty name. -/
  parameters : List (String × CType) := []
  access : Access := .isPublic
  isConst : Bool := false
  isStatic : Bool := false
  isVirtual : Bool := false
  isPureVirtual : Bool := false
  isTemplate : Bool := false
  isDefined : Bool := false
  deriving DecidableEq, Repr

/-- A node of the tree. `isMain` tells that it stands in the input file. -/
inductive Entity where
  /-- A namespace, or an anonymous one if the name is empty. -/
  | scope (name : String) (isMain : Bool) (children : List Entity)
  /-- The definition of a class, struct or union. -/
  | record (name : String) (isMain isTemplate : Bool) (children : List Entity)
  | function (function : FunctionEntity)
  /-- Anything else that holds declarations, such as a block for another linkage. -/
  | other (isMain : Bool) (children : List Entity)
  deriving Repr

structure Header where
  diagnostics : List Diagnostic := []
  entities : List Entity := []
  deriving Repr

namespace Header

variable (header : Header)

/-- The diagnostics that stop the generation, in order. -/
def errors : List Diagnostic := header.diagnostics.filter fun d => d.severity.isError

/-- The diagnostics that are shown and do not stop the generation, in order. -/
def warnings : List Diagnostic := header.diagnostics.filter fun d => d.severity = .warning

end Header

end Understudy
