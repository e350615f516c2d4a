import Understudy.Header.Basic

/-! # The declarations of a header

The functions of the input file in the order of the tree. What stands in an included file or in an
anonymous namespace is left out with everything inside it.
-/

namespace Understudy

/-- Where in the tree a function stands. -/
structure Place where
  /-- The enclosing namespaces and classes, outermost first. -/
  scopes : List String := []
  /-- Whether the nearest of them is a class. -/
  inClass : Bool := false
  /-- Whether that class, or one around it, is a template. -/
  inTemplate : Bool := false
  deriving DecidableEq, Repr

namespace Place

def enterScope (place : Place) (name : String) : Place where
  scopes := place.scopes ++ [name]

def enterClass (place : Place) (name : String) (isTemplate : Bool) : Place where
  scopes := place.scopes ++ [name]
  inClass := true
  inTemplate := isTemplate || place.inTemplate

def qualify (place : Place) (name : String) : String :=
  String.intercalate "::" (place.scopes ++ [name])

end Place

namespace FunctionEntity

/-- Whether a name is `operator` and not only the beginning of a longer word. -/
def isOperatorName (name : List Char) : Bool :=
  match Text.dropStart? "operator".toList name with
  | some (c :: _) => !Text.isWordChar c
  | _ => false

/-- The declaration of a function at its place. A pure virtual function is virtual, and only members
have an access of their own. -/
def declaration (f : FunctionEntity) (place : Place) : Declaration where
  qualifiedName := place.qualify f.name
  isMember := place.inClass
  traits :=
    { isConst := f.isConst
      isStatic := f.isStatic
      isVirtual := f.isVirtual || f.isPureVirtual
      isTemplate := f.isTemplate || place.inTemplate
      isOperator := isOperatorName f.name.toList
      isPureVirtual := f.isPureVirtual
      isDefined := f.isDefined }
  access := if place.inClass then f.access else .isPublic
  parameters := Parameter.ofList f.parameters
  returnType := f.returnType

end FunctionEntity

namespace Entity

mutual

/-- The declarations of an entity at a place. -/
def declarations (place : Place) : Entity → List Declaration
  | scope name isMain children =>
    if isMain && !name.isEmpty then declarationsOfAll (place.enterScope name) children else []
  | record name isMain isTemplate children =>
    if isMain then declarationsOfAll (place.enterClass name isTemplate) children else []
  | function f => if f.isMain then [f.declaration place] else []
  | other isMain children => if isMain then declarationsOfAll place children else []

def declarationsOfAll (place : Place) : List Entity → List Declaration
  | [] => []
  | entity :: entities => declarations place entity ++ declarationsOfAll place entities

end

end Entity

namespace Header

def declarations (header : Header) : List Declaration :=
  Entity.declarationsOfAll {} header.entities

end Header

end Understudy
