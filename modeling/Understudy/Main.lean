import Understudy.CommandLine.Run

/-! # The program

The command line on the real file system. Everything it decides is decided in
`Understudy.CommandLine`; here are only the steps that it asks for.
-/

namespace Understudy.HostFiles

/-- Whether a step succeeds. -/
def succeeds (step : IO Unit) : IO Bool := do
  try
    step
    return true
  catch _ => return false

/-- Whether an error code is the given error number. Some steps report it with its sign changed. -/
def isErrorNumber (number code : UInt32) : Bool := code = number || code = 0 - number

def faultOf : IO.Error → ReadFault
  | .noFileOrDirectory .. => .missing
  | error@(.inappropriateType _ code _) =>
    if isErrorNumber 20 code then .notDirectory
    else if isErrorNumber 21 code then .isDirectory
    else .other (toString error)
  | error@(.invalidArgument _ code _) =>
    if isErrorNumber 36 code then .tooLong else .other (toString error)
  | error => .other (toString error)

/-- Makes a file under the first name from `number` on that is free. -/
def createFresh (avoided : List Path) (directory : Path) (contents : String) :
    (attempts number : Nat) → IO (Option Path)
  | 0, _ => return none
  | attempts + 1, number => do
    let path := directory.join (".understudy" ++ toString number)
    if avoided.any fun other => other.fileName = path.fileName then
      createFresh avoided directory contents attempts (number + 1)
    else
      let fresh ←
        try pure (some (← IO.FS.Handle.mk path.text .writeNew))
        catch
          | .alreadyExists .. => pure none
          | _ => return none
      match fresh with
      | none => createFresh avoided directory contents attempts (number + 1)
      | some handle =>
        if ← succeeds (handle.putStr contents *> handle.flush) then return some path
        else
          let _ ← succeeds (IO.FS.removeFile path.text)
          return none

instance : FileSystem IO where
  isFile path := do
    try return (← (System.mkFilePath [path.text]).metadata).type == .file
    catch _ => return false
  isDirectory path := (System.mkFilePath [path.text]).isDir
  read path := do
    try return .ok (← IO.FS.readFile path.text)
    catch error => return .error (faultOf error)
  createBeside avoided path contents := do
    try
      let workingPath : Path := { text := (← IO.currentDir).toString }
      createFresh avoided (path.directory.absoluteFrom workingPath) contents 10000 0
    catch _ => return none
  move source target := succeeds (IO.FS.rename source.text target.text)
  restore source target := do
    let _ ← succeeds (IO.FS.rename source.text target.text)
  remove path := do
    let _ ← succeeds (IO.FS.removeFile path.text)
  print text := do
    let output ← IO.getStdout
    output.putStr text
    output.flush

end Understudy.HostFiles

def main (arguments : List String) : IO UInt32 := do
  let errors ← IO.getStderr
  let outcome ← Understudy.CommandLine.run (← errors.isTty) arguments
  errors.putStr outcome.report
  return UInt32.ofNat outcome.status
