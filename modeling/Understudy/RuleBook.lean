import Understudy.CType.Spelling
import Understudy.Rule.Parse

/-! # Rule books

A rule book holds the override rules of one run, parameter rules and type rules apart, each list in
the order in which its rules were given. No two rules of a list have the same selector, so a look-up
that prefers the more specific rule has one answer.
-/

namespace Understudy

structure RuleBook where
  /-- Whether type rules are looked up for the canonical form of a type. -/
  resolveAliases : Bool := false
  parameterRules : List Rule := []
  typeRules : List Rule := []
  deriving DecidableEq, Repr

namespace RuleBook

variable (book : RuleBook)

def rules : Level → List Rule
  | .parameter => book.parameterRules
  | .type => book.typeRules

def append (level : Level) (rule : Rule) : RuleBook :=
  match level with
  | .parameter => { book with parameterRules := book.parameterRules ++ [rule] }
  | .type => { book with typeRules := book.typeRules ++ [rule] }

/-- Adds the rule that a text gives. A text that cannot be read is refused for its own defect
before its selector is compared with those already present. -/
def add (level : Level) (text : String) : Except OptionError RuleBook :=
  match Rule.parse level text with
  | .error defect => .error { option := text, defect }
  | .ok rule =>
    if (book.rules level).any fun earlier => earlier.selector = rule.selector then
      .error { option := text, defect := .duplicate }
    else .ok (book.append level rule)

/-- Adds texts in order, up to the first that is refused. -/
def addAll (level : Level) (texts : List String) : Except OptionError RuleBook :=
  texts.foldlM (fun book text => book.add level text) book

/-- The rule book of a list of parameter rules and one of type rules. -/
def ofOptions (resolveAliases : Bool) (parameters types : List String) :
    Except OptionError RuleBook := do
  let book ← addAll { resolveAliases } .parameter parameters
  book.addAll .type types

/-- The rule of a list that has the given selector. -/
def find? (rules : List Rule) (selector : Selector) : Option Rule :=
  rules.find? fun rule => rule.selector = selector

/-- The rule for a parameter of a function, or else the rule for parameters of this name. -/
def parameterRule? (function parameter : String) : Option Rule :=
  find? book.parameterRules (.functionParameter function parameter) <|>
    find? book.parameterRules (.parameterName parameter)

def resultRule? (function : String) : Option Rule :=
  find? book.parameterRules (.functionResult function)

/-- The normalised text that a type rule's key is compared with. -/
def normalised (text : String) : String := String.ofList (Text.normalise text.toList)

/-- The rule for the spelling of a type, or else the first rule for its base name. A name that is
written with `struct`, `class`, `union` or `enum` is also found without that word. -/
def typeRule? (type : CType) (role : Role) : Option Rule :=
  find? book.typeRules (.typeSpelling role (normalised type.spelling)) <|>
    book.typeRules.find? fun rule =>
      rule.selector = .typeName role (normalised type.written.name) ||
        rule.selector = .typeName role (normalised type.bareName)

end RuleBook

end Understudy
