import Understudy.Text.Cut

/-! # Command line arguments

Arguments are read from left to right. A long option may have its value after `=`, a short one right
after its letter or after `=`, and both in the next argument. Short flags may be joined. After `--`
every argument is an input. Reading ends at the first argument that cannot be read, or at a request
for the version or for help.
-/

namespace Understudy.CommandLine

/-- An option with a value. -/
inductive Setting where
  | input | mockOutput | expectOutput | includePath | extraInclude | paramOverride | typeOverride
  | tree
  deriving DecidableEq, Repr

namespace Setting

def letter? : Setting → Option Char
  | input => some 'i'
  | mockOutput => some 'm'
  | expectOutput => some 'e'
  | includePath => some 'I'
  | extraInclude => some 'y'
  | paramOverride => some 'p'
  | typeOverride => some 't'
  | tree => none

def word : Setting → String
  | input => "input"
  | mockOutput => "mock-output"
  | expectOutput => "expect-output"
  | includePath => "include-path"
  | extraInclude => "extra-include"
  | paramOverride => "param-override"
  | typeOverride => "type-override"
  | tree => "ast"

/-- Whether the value may be left out; it is empty then. -/
def isValueOptional : Setting → Bool
  | mockOutput | expectOutput => true
  | input | includePath | extraInclude | paramOverride | typeOverride | tree => false

/-- Whether the option may be given more than once. -/
def isRepeatable : Setting → Bool
  | includePath | extraInclude | paramOverride | typeOverride => true
  | input | mockOutput | expectOutput | tree => false

/-- Whether the value is the path of something that is read. Such a path cannot be empty. -/
def isReadPath : Setting → Bool
  | input | includePath | extraInclude | tree => true
  | mockOutput | expectOutput | paramOverride | typeOverride => false

def all : List Setting :=
  [input, mockOutput, expectOutput, includePath, extraInclude, paramOverride, typeOverride, tree]

end Setting

/-- An option without a value. -/
inductive Flag where
  | cpp | cpp11 | underlyingTypedef | noColor
  deriving DecidableEq, Repr

namespace Flag

def letter? : Flag → Option Char
  | cpp => some 'x'
  | cpp11 => some 'l'
  | underlyingTypedef => some 'u'
  | noColor => none

def word : Flag → String
  | cpp => "cpp"
  | cpp11 => "cpp11"
  | underlyingTypedef => "underlying-typedef"
  | noColor => "no-color"

def all : List Flag := [cpp, cpp11, underlyingTypedef, noColor]

end Flag

/-- What an option asks for. -/
inductive Switch where
  | setting (setting : Setting)
  | flag (flag : Flag)
  | version
  | help
  deriving DecidableEq, Repr

namespace Switch

def all : List Switch :=
  Setting.all.map setting ++ Flag.all.map flag ++ [version, help]

def letter? : Switch → Option Char
  | setting s => s.letter?
  | flag f => f.letter?
  | version => some 'V'
  | help => some 'h'

def word : Switch → String
  | setting s => s.word
  | flag f => f.word
  | version => "version"
  | help => "help"

def ofLetter? (letter : Char) : Option Switch := all.find? fun switch => switch.letter? = some letter

def ofWord? (word : String) : Option Switch := all.find? fun switch => switch.word = word

end Switch

/-- Why reading ends before the last argument. -/
inductive Stop where
  | usage | version | help
  deriving DecidableEq, Repr

structure Arguments where
  /-- The input that is given without an option. -/
  positional? : Option String := none
  flags : List Flag := []
  /-- The options with their values, in the order in which they were given. -/
  settings : List (Setting × String) := []
  deriving DecidableEq, Repr

namespace Arguments

variable (arguments : Arguments)

def has (flag : Flag) : Bool := flag ∈ arguments.flags

/-- The values of an option in order. -/
def values (setting : Setting) : List String :=
  (arguments.settings.filter fun entry => entry.1 = setting).map Prod.snd

def value? (setting : Setting) : Option String := (arguments.values setting).head?

def addFlag (flag : Flag) : Except Stop Arguments :=
  if arguments.has flag then .error .usage
  else .ok { arguments with flags := arguments.flags ++ [flag] }

def addSetting (setting : Setting) (value : String) : Except Stop Arguments :=
  if !setting.isRepeatable && (arguments.value? setting).isSome then .error .usage
  else if setting.isReadPath && value.isEmpty then .error .usage
  else .ok { arguments with settings := arguments.settings ++ [(setting, value)] }

def addPositional (value : String) : Except Stop Arguments :=
  if arguments.positional?.isSome || value.isEmpty then .error .usage
  else .ok { arguments with positional? := some value }

/-- Adds an option with the value that stands with it, or reads one that has none. The option is
handed back when its value may still follow. -/
def addSwitch (switch : Switch) (value? : Option String) :
    Except Stop (Arguments × Option Setting) :=
  match switch, value? with
  | .setting setting, some value => do return (← arguments.addSetting setting value, none)
  | .setting setting, none => .ok (arguments, some setting)
  | .flag flag, none => do return (← arguments.addFlag flag, none)
  | .version, none => .error .version
  | .help, none => .error .help
  | _, some _ => .error .usage

/-- Reads a long option, given without its two dashes. -/
def addLong (text : List Char) : Except Stop (Arguments × Option Setting) :=
  let (word, value?) :=
    match Text.cut '=' text with
    | some (word, value) => (word, some (String.ofList value))
    | none => (text, none)
  match Switch.ofWord? (String.ofList word) with
  | some switch => arguments.addSwitch switch value?
  | none => .error .usage

/-- The value that stands right after the letter of an option. -/
def attached? : List Char → Option String
  | [] => none
  | '=' :: value => some (String.ofList value)
  | value => some (String.ofList value)

/-- Reads joined short options, given without their dash. -/
def addShort (arguments : Arguments) : List Char → Except Stop (Arguments × Option Setting)
  | [] => .ok (arguments, none)
  | letter :: rest =>
    match Switch.ofLetter? letter with
    | some (.setting setting) => arguments.addSwitch (.setting setting) (attached? rest)
    | some switch => do
      let (arguments, _) ← arguments.addSwitch switch none
      addShort arguments rest
    | none => .error .usage

/-- Whether an argument begins an option or ends the options. A single dash does not. -/
def isSwitch (argument : String) : Bool :=
  argument.toList.head? = some '-' && argument ≠ "-"

/-- Reads one argument that is not the value of the option before it. -/
def addArgument (argument : String) : Except Stop (Arguments × Option Setting) :=
  match argument.toList with
  | '-' :: '-' :: word => arguments.addLong word
  | '-' :: letter :: rest => addShort arguments (letter :: rest)
  | _ => do return (← arguments.addPositional argument, none)

/-- Leaves out the value of an option. -/
def addOmitted (setting : Setting) : Except Stop Arguments :=
  if setting.isValueOptional then arguments.addSetting setting "" else .error .usage

/-- Ends an option whose value may follow before an argument that is no value. -/
def settle (arguments : Arguments) : Option Setting → Except Stop Arguments
  | some setting => arguments.addOmitted setting
  | none => .ok arguments

/-- Reads the arguments. `pending?` is the option that may take the next one as its value. -/
def read (arguments : Arguments) (pending? : Option Setting) :
    List String → Except Stop Arguments
  | [] => arguments.settle pending?
  | argument :: rest =>
    if argument = "--" then do
      rest.foldlM addPositional (← arguments.settle pending?)
    else if isSwitch argument then do
      let (arguments, pending?) ← (← arguments.settle pending?).addArgument argument
      read arguments pending? rest
    else
      match pending? with
      | some setting => do read (← arguments.addSetting setting argument) none rest
      | none => do read (← arguments.addPositional argument) none rest

/-- Reads a command line. The input is given once, with or without its option. -/
def parse (texts : List String) : Except Stop Arguments := do
  let arguments ← read {} none texts
  if arguments.positional?.isSome && (arguments.value? .input).isSome then throw .usage
  return arguments

def input? : Option String := arguments.positional? <|> arguments.value? .input

end Arguments

end Understudy.CommandLine
