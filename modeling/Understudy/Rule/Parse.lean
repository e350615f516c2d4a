import Understudy.Rule.Basic
import Understudy.Text.Token

/-! # Reading override rules

A rule text is cut at its first `=`. The key is read in one of two ways: as the key of a parameter
rule or as the key of a type rule. The value is a kind, its argument in balanced parentheses, and a
modifier after `/`. Blanks around each part mean nothing.
-/

namespace Understudy

/-- Which list of rules a text belongs to. Parameter rules are about named parameters and
functions, type rules about types. -/
inductive Level where
  | parameter | type
  deriving DecidableEq, Repr

namespace Selector

/-- The function before a final `@`. -/
def functionOfResultKey? (key : List Char) : Option (List Char) :=
  if key.getLast? = some '@' then some key.dropLast else none

/-- Reads the key of a parameter rule: `<function>@`, `<function>#<parameter>` or `#<parameter>`.
A key that ends in `@` is never read as a parameter. -/
def parseParameterKey (key : List Char) : Except Defect Selector :=
  match functionOfResultKey? key with
  | some function =>
    let name := Text.trim function
    if name.isEmpty || '#' ∈ name then .error .invalidKey
    else .ok (functionResult (String.ofList name))
  | none =>
    match Text.cut '#' key with
    | none => .error .invalidKey
    | some (function, parameter) =>
      let function := Text.trim function
      let parameter := Text.trim parameter
      if parameter.isEmpty then .error .emptyParameterName
      else if function.isEmpty then .ok (parameterName (String.ofList parameter))
      else .ok (functionParameter (String.ofList function) (String.ofList parameter))

/-- Whether a normalised spelling shows more than a base name: a pointer, a reference, an array, or
one of the words `const` and `volatile`. -/
def showsDeclarator (spelling : List Char) : Bool :=
  spelling.any (fun c => c = '*' || c = '&' || c = '[') ||
    (Text.words spelling).any fun word => word = "const".toList || word = "volatile".toList

/-- Reads the key of a type rule: `#<type>` for parameters and `@<type>` for return values. -/
def parseTypeKey : List Char → Except Defect Selector
  | '#' :: type => ofType .parameter (Text.normalise type)
  | '@' :: type => ofType .result (Text.normalise type)
  | _ => .error .missingRole
where
  ofType (role : Role) (spelling : List Char) : Except Defect Selector :=
    if spelling.isEmpty then .error .emptyKey
    else if showsDeclarator spelling then .ok (typeSpelling role (String.ofList spelling))
    else .ok (typeName role (String.ofList spelling))

def parse : Level → List Char → Except Defect Selector
  | .parameter => parseParameterKey
  | .type => parseTypeKey

end Selector

/-- The parts of a rule's value as they are written. -/
structure ValueParts where
  token : List Char
  argument? : Option (List Char) := none
  modifier? : Option (List Char) := none
  deriving DecidableEq, Repr

namespace ValueParts

/-- The text before the `)` that closes the parenthesis already open, and what follows it. `depth`
counts the parentheses opened since. -/
def closeParenthesis (depth : Nat) : List Char → Option (List Char × List Char)
  | [] => none
  | ')' :: rest =>
    match depth with
    | 0 => some ([], rest)
    | depth + 1 => (closeParenthesis depth rest).map fun parts => (')' :: parts.1, parts.2)
  | '(' :: rest =>
    (closeParenthesis (depth + 1) rest).map fun parts => ('(' :: parts.1, parts.2)
  | c :: rest => (closeParenthesis depth rest).map fun parts => (c :: parts.1, parts.2)

/-- Reads what may follow the kind and its argument: nothing, or `/` and a modifier. -/
def ofRest (token : List Char) (argument? : Option (List Char)) :
    List Char → Except Defect ValueParts
  | [] => .ok { token, argument? }
  | '/' :: modifier => .ok { token, argument?, modifier? := some modifier }
  | _ => .error (if token.isEmpty then .emptyKind else .invalidParameterKind)

/-- Divides a trimmed value into its parts. -/
def parse (value : List Char) : Except Defect ValueParts :=
  let token := value.takeWhile Text.isWordChar
  match Text.trimStart (value.dropWhile Text.isWordChar) with
  | '(' :: rest =>
    match closeParenthesis 0 rest with
    | none => .error .emptyKindArgument
    | some (argument, rest) => ofRest token (some (Text.trim argument)) (Text.trimStart rest)
  | rest => ofRest token none rest

end ValueParts

namespace Treatment

/-- The treatment that the parts of a value name for a role. A missing argument is reported before
an unknown kind, and a return value takes only scalars. -/
def ofParts (role : Role) (parts : ValueParts) : Except Defect Treatment :=
  let token := String.ofList parts.token
  if parts.token.isEmpty then .error .emptyKind
  else if needsArgument token && parts.argument?.all List.isEmpty then .error .emptyKindArgument
  else
    match role, ofToken? token (parts.argument?.map String.ofList) with
    | .parameter, some treatment => .ok treatment
    | .parameter, none => .error .invalidParameterKind
    | .result, some (scalar s) => .ok (scalar s)
    | .result, _ => .error .invalidReturnKind

end Treatment

namespace Rule

/-- Reads a rule of the given level. -/
def parse (level : Level) (text : String) : Except Defect Rule := do
  let some (key, value) := Text.cut '=' text.toList | throw .missingSeparator
  let key := Text.trim key
  if key.isEmpty then throw .emptyKey
  let selector ← Selector.parse level key
  let value := Text.trim value
  if value.isEmpty then throw .emptyValue
  let parts ← ValueParts.parse value
  let treatment ← Treatment.ofParts selector.role parts
  match parts.modifier? with
  | none => return { selector, treatment }
  | some modifier => return { selector, treatment, modifier? := some (← Modifier.parse modifier) }

end Rule

end Understudy
