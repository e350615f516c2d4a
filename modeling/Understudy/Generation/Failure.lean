import Understudy.File.System
import Understudy.Header.Basic
import Understudy.Rule.Defect

/-! # Failures of a run

A run ends at its first failure: in the options, in the input, in what its parser reports, or in
writing the outputs.
-/

namespace Understudy

inductive Failure where
  | option (error : OptionError)
  | noInput
  | noOutput
  | unreadableInput (input : Path)
  | unreadableTree (path : Path) (fault : ReadFault)
  | invalidTree (path : Path)
  /-- The parser reports errors. Its warnings are kept beside them. -/
  | parse (input : Path) (errors warnings : List Diagnostic)
  | nothingToMock (input : Path)
  | output (path : Path)
  deriving DecidableEq, Repr

namespace Failure

def message : Failure → String
  | option error => error.message
  | noInput => "No input file specified."
  | noOutput =>
    "At least the mock generation option (-m) or the expectation generation option (-e) " ++
      "must be specified."
  | unreadableInput input => "Input file '" ++ input.text ++ "' could not be read."
  | unreadableTree path fault => "cannot read '" ++ path.text ++ "': " ++ fault.message
  | invalidTree path => "invalid declaration tree '" ++ path.text ++ "'"
  | parse input errors _ =>
    toString errors.length ++ " error(s) parsing '" ++ input.text ++ "'"
  | nothingToMock _ => "The input file does not contain any mockable function."
  | output path => "cannot write '" ++ path.text ++ "'"

end Failure

end Understudy
