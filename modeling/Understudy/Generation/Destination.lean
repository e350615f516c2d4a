import Understudy.Generation.Document

/-! # Where the documents go

Two options say where the mocks and the companions go: to standard output, under their usual names
into a directory, or to a given file. The header and the source of the companions differ in their
extension.
-/

namespace Understudy

inductive Destination where
  | standardOutput
  | file (path : Path)
  deriving DecidableEq, Repr

namespace Destination

def path? : Destination → Option Path
  | file path => some path
  | standardOutput => none

/-- The option that asks for standard output. -/
def standardOption : String := "@"

/-- Where the mocks of an input with the given stem go. -/
def ofMockOption (stem option : String) (isDirectory : Bool) : Destination :=
  if option = standardOption then standardOutput
  else if isDirectory then file (Path.join { text := option } (stem ++ "_mock.cpp"))
  else file { text := option }

/-- Where the header and the source of the companions go. -/
def ofCompanionOption (stem option : String) (isDirectory : Bool) : Destination × Destination :=
  let path : Path := { text := option }
  if option = standardOption then (standardOutput, standardOutput)
  else if isDirectory then
    (file (path.join (stem ++ "_expect.hpp")), file (path.join (stem ++ "_expect.cpp")))
  else (file (path.withExtension "hpp"), file (path.withExtension "cpp"))

end Destination

/-- The destinations of the documents that are asked for. -/
structure OutputPaths where
  mock? : Option Destination := none
  /-- The destinations of the header and the source of the companions. -/
  companions? : Option (Destination × Destination) := none
  deriving DecidableEq, Repr

namespace OutputPaths

/-- Whether an option names a directory by its text alone. -/
def looksLikeDirectory (option : String) : Bool :=
  option.isEmpty || option.toList.getLast? = some '/' || option.toList.getLast? = some '\\'

section

variable {m : Type → Type} [Monad m] [FileSystem m]

/-- Whether an option names a directory, by its text or because it is one. -/
def namesDirectory (option : String) : m Bool := do
  if looksLikeDirectory option then return true
  FileSystem.isDirectory { text := option }

def existing (option? : Option String) : m Bool :=
  match option? with
  | some option => namesDirectory option
  | none => return false

/-- The destinations that two options ask for. -/
def resolve (input : Path) (mock? companions? : Option String) : m OutputPaths := do
  let mockInto ← existing mock?
  let companionsInto ← existing companions?
  return {
    mock? := mock?.map fun option => Destination.ofMockOption input.stem option mockInto
    companions? := companions?.map fun option =>
      Destination.ofCompanionOption input.stem option companionsInto }

end

variable (paths : OutputPaths)

/-- The file with the mocks, unless they go elsewhere. -/
def mockFile? : Option Path := paths.mock?.bind Destination.path?

/-- The files with the companions, if both go to a file. -/
def companionFiles? : Option (Path × Path) := do
  let (header, source) ← paths.companions?
  return (← header.path?, ← source.path?)

end OutputPaths

namespace Session

variable (session : Session)

/-- The name under which the source of the companions includes their header. -/
def headerName : Destination → String
  | .file path => path.fileName
  | .standardOutput => session.input.stem ++ "_expect.hpp"

/-- The documents that are asked for, each with its destination, in the order of writing. -/
def documents (paths : OutputPaths) : List (Destination × String) :=
  (paths.mock?.map fun destination => (destination, session.mockSource)).toList ++
    match paths.companions? with
    | some (header, source) =>
      [(header, session.companionHeader),
        (source, session.companionSource (session.headerName header))]
    | none => []

end Session

end Understudy
