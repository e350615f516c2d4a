import Understudy.File.Path
import Understudy.RuleBook

/-! # Generation options

The options of a run: how the input is parsed, and the override rules in the order in which they
were given.
-/

namespace Understudy

structure Options where
  /-- Whether the input is parsed as C++ whatever its extension. -/
  asCpp : Bool := false
  /-- Whether the parser is asked for C++11. -/
  cpp11 : Bool := false
  /-- Whether type rules are looked up for the canonical form of a type. -/
  resolveAliases : Bool := false
  includes : List Path := []
  /-- Headers that the parser includes before the input. -/
  extraIncludes : List Path := []
  parameterRules : List String := []
  typeRules : List String := []
  /-- The summary to show in the heading of generated files in the place of the usual one. -/
  summary? : Option String := none
  deriving DecidableEq, Repr

/-- What a parser is asked for. -/
structure ParseRequest where
  input : Path
  asCpp : Bool
  cpp11 : Bool
  includes : List Path
  extraIncludes : List Path
  deriving DecidableEq, Repr

namespace Options

variable (options : Options)

/-- An option as it stands in a summary, in quotes if it has a space. -/
def quote (option : String) : String :=
  if ' ' ∈ option.toList then "\"" ++ option ++ "\"" else option

/-- The options that shape the generated code, as they are written on a command line. -/
def usualSummary : String :=
  String.intercalate " "
    ((if options.asCpp then ["-x"] else []) ++ (if options.resolveAliases then ["-u"] else []) ++
      (options.parameterRules.map fun rule => "-p " ++ quote rule) ++
      (options.typeRules.map fun rule => "-t " ++ quote rule))

def summary : String := options.summary?.getD options.usualSummary

def ruleBook : Except OptionError RuleBook :=
  RuleBook.ofOptions options.resolveAliases options.parameterRules options.typeRules

/-- The extensions of C++ headers. -/
def cppExtensions : List String := ["hpp", "hxx", "hh"]

def isCpp (input : Path) : Bool :=
  options.asCpp || input.extension?.any fun extension => extension ∈ cppExtensions

def request (input : Path) : ParseRequest where
  input
  asCpp := options.isCpp input
  cpp11 := options.cpp11
  includes := options.includes
  extraIncludes := options.extraIncludes

end Options

/-- Where the declaration tree of an input is read from: a given file, or the one that is named
after the input. -/
structure TreeFile where
  path? : Option Path := none
  deriving DecidableEq, Repr

namespace TreeFile

def locate (tree : TreeFile) (input : Path) : Path := tree.path?.getD (input.append ".json")

end TreeFile

end Understudy
