import Understudy.CType.Spelling

/-! # Declared functions

A declaration is one function or member function of a header: its qualified name, its parameters
and return type, and what the header says about it.
-/

namespace Understudy

inductive Access where
  | isPublic | isProtected | isPrivate
  deriving DecidableEq, Repr

/-- What a declaration says about a function. -/
structure Traits where
  isConst : Bool := false
  isStatic : Bool := false
  isVirtual : Bool := false
  /-- A function template, or a member of a class template. -/
  isTemplate : Bool := false
  /-- An operator, conversion operators included. -/
  isOperator : Bool := false
  isPureVirtual : Bool := false
  /-- The header has the body too. -/
  isDefined : Bool := false
  deriving DecidableEq, Repr

structure Parameter where
  name : String
  /-- The place in the parameter list, counted from zero. -/
  position : Nat
  type : CType
  deriving DecidableEq, Repr

namespace Parameter

/-- A parameter with its name trimmed. One without a name is called after its place. -/
def ofWritten (position : Nat) (name : String) (type : CType) : Parameter :=
  let trimmed := Text.trim name.toList
  { name := if trimmed.isEmpty then "_unnamedArg" ++ toString position else String.ofList trimmed
    position
    type }

/-- The parameters of a list of names and types, numbered from zero. -/
def ofList (written : List (String × CType)) : List Parameter :=
  written.mapIdx fun position parameter => ofWritten position parameter.1 parameter.2

end Parameter

/-- The two parts of a qualified name, divided at its last `::`. -/
structure NameParts where
  scope : List Char
  name : List Char
  deriving DecidableEq, Repr

namespace NameParts

/-- Divides at the last `::` that stands outside angle brackets, because template arguments may
hold `::` too. `depth` is the number of open angle brackets; one that closes nothing is passed
over. -/
def divide? (depth : Nat) : List Char → Option NameParts
  | [] => none
  | c :: rest =>
    let deeper :=
      if c = '<' then depth + 1 else if c = '>' then depth - 1 else depth
    match divide? deeper rest with
    | some parts => some { parts with scope := c :: parts.scope }
    | none =>
      if c = ':' ∧ depth = 0 then
        (Text.dropStart? [':'] rest).map fun name => { scope := [], name }
      else none

/-- The parts of a qualified name. A name without a scope is its own last part. -/
def ofQualified (qualified : List Char) : NameParts :=
  (divide? 0 qualified).getD { scope := [], name := qualified }

end NameParts

structure Declaration where
  /-- The name with its enclosing namespaces and classes, as in `ns::Class::method`. -/
  qualifiedName : String
  isMember : Bool := false
  traits : Traits := {}
  access : Access := .isPublic
  parameters : List Parameter := []
  returnType : CType
  deriving DecidableEq, Repr

namespace Declaration

variable (d : Declaration)

def nameParts : NameParts := NameParts.ofQualified d.qualifiedName.toList

/-- The last part of the qualified name. -/
def name : String := String.ofList d.nameParts.name

/-- The enclosing namespaces and classes, outermost first. -/
def scopes : List String :=
  if d.nameParts.scope.isEmpty then []
  else (Text.splitColons d.nameParts.scope).map String.ofList

/-- Whether a call has an object that the mock must bind. -/
def bindsObject : Bool := d.isMember && !d.traits.isStatic

def spellings : List String := d.parameters.map fun p => p.type.spelling

/-- Whether a name is `operator`, blanks, and a word other than `new` and `delete`. -/
def namesConversion (name : List Char) : Bool :=
  match Text.dropStart? "operator".toList name with
  | none => false
  | some rest =>
    let word := (Text.trimStart rest).takeWhile Text.isWordChar
    rest.head?.any Text.isBlank && !word.isEmpty && word != "new".toList &&
      word != "delete".toList

/-- Whether this is an operator such as `operator bool`, which has no return type to write. -/
def isConversionOperator : Bool := d.traits.isOperator && namesConversion d.nameParts.name

/-- The same function declared again: the same name, constness and parameter types, the types
compared as they are spelled. -/
def redeclares (other : Declaration) : Bool :=
  d.qualifiedName = other.qualifiedName && d.traits.isConst = other.traits.isConst &&
    d.spellings = other.spellings

/-- Takes over what another declaration of the same function adds: a body or a pure specifier. -/
def merge (other : Declaration) : Declaration :=
  { d with
    traits := { d.traits with
      isDefined := d.traits.isDefined || other.traits.isDefined
      isPureVirtual := d.traits.isPureVirtual || other.traits.isPureVirtual } }

end Declaration

end Understudy
