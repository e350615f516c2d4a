import Understudy.Header.Basic

/-! # Reports

Status messages are lines with a label in front. On a terminal the label is coloured; elsewhere a
report is plain text.
-/

namespace Understudy

inductive Color where
  /-- Errors. -/
  | red
  /-- Warnings. -/
  | yellow
  /-- Success. -/
  | green
  /-- File names. -/
  | cyan
  deriving DecidableEq, Repr

namespace Color

def escape : Color → String
  | red => "\x1b[31m"
  | yellow => "\x1b[33m"
  | green => "\x1b[32m"
  | cyan => "\x1b[36m"

end Color

structure Reporter where
  isColored : Bool := false
  deriving DecidableEq, Repr

namespace Reporter

variable (reporter : Reporter)

/-- Switches to a colour. -/
def start (color : Color) : String := if reporter.isColored then color.escape else ""

/-- Switches back to the colour of the terminal. -/
def reset : String := if reporter.isColored then "\x1b[0m" else ""

def line (color : Color) (label text : String) : String :=
  reporter.start color ++ label ++ reporter.reset ++ " " ++ text ++ "\n"

/-- The line for a diagnostic. A note is not shown. -/
def diagnostic (d : Diagnostic) : String :=
  match d.severity with
  | .note => ""
  | .warning => reporter.line .yellow "PARSE WARNING:" d.message
  | .error | .fatal => reporter.line .red "PARSE ERROR:" d.message

def diagnostics (ds : List Diagnostic) : String := String.join (ds.map reporter.diagnostic)

end Reporter

end Understudy
