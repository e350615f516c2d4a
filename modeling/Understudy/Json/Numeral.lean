import Understudy.Json.Rounding

/-! # JSON numbers

A number keeps the text in which it was written, so that an integer can be told from a fraction of
the same value. This module has the grammar of that text and the questions that are asked of it.
-/

namespace Understudy.Json

/-- The parts of a number's text: the digits before and after the point, and the exponent. -/
structure Numeral where
  isNegative : Bool
  whole : List Char
  /-- The digits after the point, if there is one. -/
  fraction? : Option (List Char) := none
  /-- The sign and the digits of the exponent, if there is one. -/
  exponent? : Option (Bool × List Char) := none
  deriving DecidableEq, Repr

namespace Numeral

/-- A character that may stand in a number. -/
def isPart (c : Char) : Bool :=
  c.isDigit || c = '-' || c = '+' || c = '.' || c = 'e' || c = 'E'

/-- One digit or more, and what follows them. -/
def digits? (text : List Char) : Option (List Char × List Char) :=
  let digits := text.takeWhile Char.isDigit
  if digits.isEmpty then none else some (digits, text.dropWhile Char.isDigit)

def sign (text : List Char) : Bool × List Char :=
  match text with
  | '-' :: rest => (true, rest)
  | '+' :: rest => (false, rest)
  | rest => (false, rest)

/-- The digits before the point; more than one may not begin with a zero. -/
def whole? (text : List Char) : Option (List Char × List Char) := do
  let (digits, rest) ← digits? text
  if digits.head? = some '0' && digits.length ≠ 1 then none else some (digits, rest)

def fractionPart? : List Char → Option (Option (List Char) × List Char)
  | '.' :: rest => (digits? rest).map fun parts => (some parts.1, parts.2)
  | rest => some (none, rest)

def exponentPart? : List Char → Option (Option (Bool × List Char) × List Char)
  | 'e' :: rest | 'E' :: rest =>
    let (isNegative, rest) := sign rest
    (digits? rest).map fun parts => (some (isNegative, parts.1), parts.2)
  | rest => some (none, rest)

/-- Reads a whole text as a number. -/
def parse? (text : List Char) : Option Numeral := do
  let (isNegative, rest) :=
    match text with
    | '-' :: rest => (true, rest)
    | rest => (false, rest)
  let (whole, rest) ← whole? rest
  let (fraction?, rest) ← fractionPart? rest
  let (exponent?, rest) ← exponentPart? rest
  if rest.isEmpty then some { isNegative, whole, fraction?, exponent? } else none

def digitValue (digit : Char) : Nat := digit.toNat - '0'.toNat

def value (digits : List Char) : Nat :=
  digits.foldl (fun n digit => 10 * n + digitValue digit) 0

/-- The value of a number that is written with digits alone. -/
def natural? (n : Numeral) : Option Nat :=
  if n.isNegative || n.fraction?.isSome || n.exponent?.isSome then none else some (value n.whole)

def exponent (n : Numeral) : Int :=
  match n.exponent? with
  | none => 0
  | some (true, digits) => -(value digits : Int)
  | some (false, digits) => value digits

/-- The magnitude of a number as a 64-bit integer times a power of ten. -/
structure Scaled where
  significand : Nat
  exponent : Int
  deriving DecidableEq, Repr

/-- Appends digits to an integer as long as it stays within 64 bits. Answers with the number of
digits that are left out too. -/
def gather (significand : Nat) : List Char → Nat × Nat
  | [] => (significand, 0)
  | digit :: rest =>
    let longer := 10 * significand + digitValue digit
    if longer < UInt64.size then gather longer rest else (significand, rest.length + 1)

/-- The first digits of a number with the power of ten that puts them in their place. Digits that
are left out are taken for zeros. -/
def scaled (n : Numeral) : Scaled :=
  let fraction := n.fraction?.getD []
  let (significand, leftOut) := gather 0 (n.whole ++ fraction)
  { significand, exponent := n.exponent - fraction.length + leftOut }

/-- The exponent of the greatest power of ten among the doubles. -/
def greatestExponent : Nat := 308

/-- Whether a number can be taken for a double. The significand and the power of ten are each
rounded to a double and so is their product, which must not be beyond the doubles. A number that the
doubles could just hold is therefore refused if its power of ten has been rounded up. -/
def fitsDouble (n : Numeral) : Bool :=
  let scaled := n.scaled
  scaled.significand = 0 ||
    match scaled.exponent with
    | .negSucc _ => true
    | .ofNat exponent =>
      exponent ≤ greatestExponent &&
        roundToDouble
          (roundToDouble scaled.significand * roundToDouble (Nat.pow 10 exponent)) < doubleLimit

end Numeral

end Understudy.Json
