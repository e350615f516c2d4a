/-! # What can be wrong with an override option

An override option is refused for one cause, the first that its reading meets. The message names
the cause and shows the option as it was given.
-/

namespace Understudy

/-- Why an override option is refused. -/
inductive Defect where
  /-- No `=` between key and value. -/
  | missingSeparator
  | emptyKey
  /-- A parameter rule key that names neither a parameter nor a return value. -/
  | invalidKey
  | emptyParameterName
  /-- A type rule key that starts with neither sigil. -/
  | missingRole
  | emptyValue
  | emptyKind
  | invalidParameterKind
  /-- A kind that is unknown, or one that cannot describe a return value. -/
  | invalidReturnKind
  /-- A kind without the argument it needs, or with one that is never closed. -/
  | emptyKindArgument
  | emptyModifier
  | missingPlaceholder
  | multiplePlaceholders
  /-- A key that an earlier rule of the same list has. -/
  | duplicate
  deriving DecidableEq, Repr

namespace Defect

def message : Defect → String
  | missingSeparator => "Invalid override option"
  | emptyKey => "Override option key cannot be empty"
  | invalidKey => "Invalid override option key"
  | emptyParameterName => "Override option parameter name cannot be empty"
  | missingRole => "Override option type key must start with '#' or '@'"
  | emptyValue => "Override option specification cannot be empty"
  | emptyKind => "Override option type cannot be empty"
  | invalidParameterKind => "Invalid parameter override option type"
  | invalidReturnKind => "Invalid return override option type"
  | emptyKindArgument => "Override option type argument cannot be empty"
  | emptyModifier => "Override option argument expression cannot be empty if specified"
  | missingPlaceholder =>
    "Override option argument expression does not contain parameter name placeholder ($)"
  | multiplePlaceholders =>
    "Override option argument expression contains more than one parameter name placeholder ($)"
  | duplicate => "Override option key can only be passed once"

end Defect

/-- A refused option with the cause. -/
structure OptionError where
  option : String
  defect : Defect
  deriving DecidableEq, Repr

namespace OptionError

def message (error : OptionError) : String :=
  error.defect.message ++ " <" ++ error.option ++ ">"

end OptionError

end Understudy
