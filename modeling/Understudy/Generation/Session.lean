import Understudy.Catalog
import Understudy.Generation.Failure
import Understudy.Generation.Options
import Understudy.Header.Declarations
import Understudy.Header.Decode

/-! # Sessions

A session is the catalog of one input under one rule book. It is reached in steps: the options are
read, the input is looked for, its declaration tree is read, and what it declares is analysed. The
first step that fails ends the run.
-/

namespace Understudy

structure Session where
  input : Path
  asCpp : Bool
  /-- The summary of the options for the heading of generated files. -/
  summary : String
  book : RuleBook
  catalog : Catalog
  warnings : List Diagnostic
  deriving DecidableEq, Repr

/-- A run whose options are read and whose input is there. -/
structure Prepared where
  request : ParseRequest
  summary : String
  book : RuleBook
  deriving DecidableEq, Repr

namespace Prepared

/-- Analyses what the parser reports. An error that it reports comes before the lack of anything to
mock. -/
def analyse (prepared : Prepared) (header : Header) : Except Failure Session :=
  let input := prepared.request.input
  let catalog := Catalog.ofDeclarations prepared.book header.declarations
  if !header.errors.isEmpty then .error (.parse input header.errors header.warnings)
  else if catalog.isEmpty then .error (.nothingToMock input)
  else
    .ok
      { input
        asCpp := prepared.request.asCpp
        summary := prepared.summary
        book := prepared.book
        catalog
        warnings := header.warnings }

end Prepared

section

variable {m : Type → Type} [Monad m] [FileSystem m]

namespace Options

/-- Reads the rules, then looks for the input. -/
def prepare (options : Options) (input : Path) : m (Except Failure Prepared) := do
  match options.ruleBook with
  | .error error => return .error (.option error)
  | .ok book =>
    if ← FileSystem.isFile input then
      return .ok { request := options.request input, summary := options.summary, book }
    else return .error (.unreadableInput input)

end Options

namespace TreeFile

/-- Reads the declaration tree of an input. -/
def read (tree : TreeFile) (request : ParseRequest) : m (Except Failure Header) := do
  let path := tree.locate request.input
  match ← FileSystem.read path with
  | .error fault => return .error (.unreadableTree path fault)
  | .ok text =>
    match Header.parse? text with
    | some header => return .ok header
    | none => return .error (.invalidTree path)

end TreeFile

namespace Prepared

def openSession (prepared : Prepared) (tree : TreeFile) : m (Except Failure Session) := do
  match ← tree.read prepared.request with
  | .error failure => return .error failure
  | .ok header => return prepared.analyse header

end Prepared

namespace Options

def openSession (options : Options) (tree : TreeFile) (input : Path) :
    m (Except Failure Session) := do
  match ← options.prepare input with
  | .error failure => return .error failure
  | .ok prepared => prepared.openSession tree

end Options

end

end Understudy
