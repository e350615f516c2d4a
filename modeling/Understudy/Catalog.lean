import Understudy.Companion
import Understudy.Mock

/-! # Catalogs

The catalog of a header has one entry for each function, however often it is declared. Overloaded
functions would have companions of one name, so theirs are numbered in the order of the parameter
types, which does not depend on the order of the declarations.
-/

namespace Understudy

namespace Declaration

/-- Adds a declaration to the distinct ones before it, merging it into the one that it repeats. -/
def insert (d : Declaration) : List Declaration → List Declaration
  | [] => [d]
  | earlier :: rest =>
    if d.redeclares earlier then earlier.merge d :: rest else earlier :: d.insert rest

/-- One declaration for each function, in the order in which the functions first appear. -/
def distinct (declarations : List Declaration) : List Declaration :=
  declarations.foldl (fun seen d => d.insert seen) []

/-- The order of overloads: by the spellings of the parameter types, and a function that is not
`const` before one that is. -/
def precedes (a b : Declaration) : Bool :=
  a.spellings < b.spellings ||
    (a.spellings = b.spellings && !a.traits.isConst && b.traits.isConst)

end Declaration

structure Catalog where
  mockable : List Analysis
  unmockable : List Analysis
  deriving DecidableEq, Repr

namespace Catalog

variable (catalog : Catalog)

/-- The members of `group` with the qualified name of `a`. -/
def overloads (group : List Analysis) (a : Analysis) : List Analysis :=
  group.filter fun b => b.declaration.qualifiedName = a.declaration.qualifiedName

/-- The place of `a` among its overloads, counted from one. -/
def overloadNumber (group : List Analysis) (a : Analysis) : Nat :=
  ((overloads group a).filter fun b => b.declaration.precedes a.declaration).length + 1

/-- Numbers the companions of overloaded functions. -/
def nameCompanions (group : List Analysis) : List Analysis :=
  group.map fun a =>
    if (overloads group a).length ≤ 1 then a
    else
      { a with
        companionName := a.declaration.name ++ "_" ++ toString (overloadNumber group a) }

/-- Analyses the declarations of a header under a rule book. -/
def ofDeclarations (book : RuleBook) (declarations : List Declaration) : Catalog :=
  let analyses := (Declaration.distinct declarations).map book.analyse
  { mockable := nameCompanions (analyses.filter Analysis.isMockable)
    unmockable := analyses.filter fun a => !a.isMockable }

def isEmpty : Bool := catalog.mockable.isEmpty

def size : Nat := catalog.mockable.length

/-- The mocks, in the order of the declarations. -/
def mocks : List String := catalog.mockable.filterMap Analysis.mock?

/-- The companions, in the order of the declarations. -/
def companions (presentation : Presentation) : List String :=
  catalog.mockable.filterMap fun a => a.companions? presentation

end Catalog

end Understudy
