import Understudy.Rule.Defect
import Understudy.Text.Blank
import Understudy.Text.Cut

/-! # Modifiers

A modifier is an expression around a value. It is written with one `$` in the place of the value,
and the blanks next to the `$` and at the ends mean nothing.
-/

namespace Understudy

structure Modifier where
  front : String := ""
  back : String := ""
  deriving DecidableEq, Repr

namespace Modifier

/-- The modifier that leaves the value as it is. -/
def none : Modifier := {}

/-- Takes the address of the value. -/
def address : Modifier := { front := "&" }

def staticCast (target : String) : Modifier :=
  { front := "static_cast<" ++ target ++ ">( ", back := " )" }

/-- Reads the value through a pointer to `target`. -/
def dereferencedCast (target : String) : Modifier :=
  { front := "* static_cast<" ++ target ++ ">( ", back := " )" }

/-- Reads a modifier. Which of two defects is reported: an empty text before a missing `$`, and a
missing `$` before a second one. -/
def parse (text : List Char) : Except Defect Modifier :=
  let trimmed := Text.trim text
  if trimmed.isEmpty then .error .emptyModifier
  else
    match Text.cut '$' trimmed with
    | .none => .error .missingPlaceholder
    | some (front, back) =>
      if '$' ∈ back then .error .multiplePlaceholders
      else .ok { front := String.ofList (Text.trim front), back := String.ofList (Text.trim back) }

def isIdentity (modifier : Modifier) : Bool :=
  modifier.front.isEmpty && modifier.back.isEmpty

def apply (modifier : Modifier) (value : String) : String :=
  modifier.front ++ value ++ modifier.back

/-- The modifier with its placeholder, as it is written in a rule. -/
def render (modifier : Modifier) : String := modifier.apply "$"

end Modifier

end Understudy
