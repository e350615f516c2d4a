import Understudy.CommandLine.Arguments
import Understudy.Generation.Delivery
import Understudy.Report

/-! # Runs

A run reads its arguments, opens a session and writes the documents that are asked for. The status
is 0 on success, 2 for a command line that cannot be read and for an input that gives nothing to
mock, and 1 for any other failure.
-/

namespace Understudy.CommandLine

/-- The end of a run, with the text for standard error. -/
structure Outcome where
  status : Nat := 0
  report : String := ""
  /-- Whether the command line could not be read. -/
  isUsageError : Bool := false
  deriving DecidableEq, Repr

def versionText : String := "cppumockgen " ++ Document.generatorVersion ++ "\n"

def usageText : String :=
  "Usage: cppumockgen [OPTIONS] [INPUT]\n\n" ++
    "  -i, --input <INPUT>           Input file\n" ++
    "  -m, --mock-output [<PATH>]    Mock output path; @ for standard output\n" ++
    "  -e, --expect-output [<PATH>]  Expectation output path; @ for standard output\n" ++
    "  -x, --cpp                     Force interpretation of the input file as C++\n" ++
    "  -l, --cpp11                   Interpret the input file as C++11\n" ++
    "  -u, --underlying-typedef      Use underlying typedef type\n" ++
    "  -I, --include-path <PATH>     Include path\n" ++
    "  -y, --extra-include <PATH>    Extra include file\n" ++
    "  -p, --param-override <EXPR>   Override parameter type\n" ++
    "  -t, --type-override <EXPR>    Override generic type\n" ++
    "      --ast <PATH>              Declaration tree dumped by the parser\n" ++
    "      --no-color                Never color status messages\n" ++
    "  -h, --help                    Print help\n" ++
    "  -V, --version                 Print version\n"

namespace Arguments

variable (arguments : Arguments)

def paths (setting : Setting) : List Path :=
  (arguments.values setting).map fun text => { text }

def options : Options where
  asCpp := arguments.has .cpp
  cpp11 := arguments.has .cpp11
  resolveAliases := arguments.has .underlyingTypedef
  includes := arguments.paths .includePath
  extraIncludes := arguments.paths .extraInclude
  parameterRules := arguments.values .paramOverride
  typeRules := arguments.values .typeOverride

def treeFile : TreeFile where
  path? := (arguments.value? .tree).map fun text => { text }

end Arguments

section

variable (reporter : Reporter)

def errorLine (message : String) : String := reporter.line .red "ERROR:" message

/-- The outcome of a run that fails. An input that cannot be used is reported in two parts: what is
wrong with it, and that there is no output for it. -/
def failed (failure : Failure) : Outcome :=
  let unusable (input : Path) (cause : String) : Outcome :=
    { status := 2
      report :=
        cause ++
          errorLine reporter
            ("Output could not be generated due to errors parsing the input file '" ++
              input.text ++ "'.") }
  match failure with
  | .parse input errors warnings =>
    unusable input (reporter.diagnostics warnings ++ reporter.diagnostics errors)
  | .nothingToMock input => unusable input (reporter.line .red "INPUT ERROR:" failure.message)
  | _ => { status := 1, report := errorLine reporter failure.message }

/-- The lines for the files that have been written. -/
def written (paths : OutputPaths) : String :=
  (match paths.mockFile? with
    | some mock => reporter.line .green "SUCCESS:" ("Mock generated into '" ++ mock.text ++ "'")
    | none => "") ++
  (match paths.companionFiles? with
    | some (header, source) =>
      reporter.line .green "SUCCESS:"
        ("Expectations generated into '" ++ header.text ++ "' and '" ++ source.text ++ "'")
    | none => "")

variable {m : Type → Type} [Monad m] [FileSystem m]

/-- Generates for an input. Its warnings come before anything that is written. -/
def generate (arguments : Arguments) (input : Path) : m Outcome := do
  match ← arguments.options.openSession arguments.treeFile input with
  | .error failure => return failed reporter failure
  | .ok session =>
    let warnings := reporter.diagnostics session.warnings
    let paths ← OutputPaths.resolve input (arguments.value? .mockOutput)
      (arguments.value? .expectOutput)
    match ← session.write paths with
    | .error failure =>
      let outcome := failed reporter failure
      return { outcome with report := warnings ++ outcome.report }
    | .ok () => return { report := warnings ++ written reporter paths }

/-- Runs arguments that could be read. -/
def execute (arguments : Arguments) : m Outcome :=
  match arguments.input? with
  | none => return failed reporter .noInput
  | some input =>
    if (arguments.value? .mockOutput).isNone && (arguments.value? .expectOutput).isNone then
      return failed reporter .noOutput
    else generate reporter arguments { text := input }

end

section

variable {m : Type → Type} [Monad m] [FileSystem m]

/-- Runs a command line. Reports are coloured on a terminal unless the arguments forbid it. -/
def run (isTerminal : Bool) (texts : List String) : m Outcome :=
  match Arguments.parse texts with
  | .ok arguments =>
    execute { isColored := isTerminal && !arguments.has .noColor } arguments
  | .error .usage => return { status := 2, report := usageText, isUsageError := true }
  | .error .version => do
    FileSystem.print versionText
    return {}
  | .error .help => do
    FileSystem.print usageText
    return {}

end

end Understudy.CommandLine
