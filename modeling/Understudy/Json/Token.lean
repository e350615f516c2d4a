import Understudy.Json.Basic

/-! # JSON tokens

A JSON text is a sequence of tokens with blanks between them. The blanks of JSON are the space, the
tabulator, the line feed and the carriage return.
-/

namespace Understudy.Json

/-- One character of a string as it is written: itself, or an escape for a 16-bit unit. -/
inductive Piece where
  | char (c : Char)
  | unit (code : Nat)
  deriving DecidableEq, Repr

namespace Piece

def hexDigit? (c : Char) : Option Nat :=
  if c.isDigit then some (c.toNat - '0'.toNat)
  else if 'a' ≤ c && c ≤ 'f' then some (c.toNat - 'a'.toNat + 10)
  else if 'A' ≤ c && c ≤ 'F' then some (c.toNat - 'A'.toNat + 10)
  else none

/-- The unit of four hexadecimal digits. -/
def ofHex? (a b c d : Char) : Option Piece := do
  return unit (((← hexDigit? a) * 16 + (← hexDigit? b)) * 256 + (← hexDigit? c) * 16 +
    (← hexDigit? d))

/-- The character that a backslash and one more character stand for. -/
def ofEscape? : Char → Option Piece
  | '"' => some (char '"')
  | '\\' => some (char '\\')
  | '/' => some (char '/')
  | 'b' => some (char '\x08')
  | 'f' => some (char '\x0c')
  | 'n' => some (char '\n')
  | 'r' => some (char '\r')
  | 't' => some (char '\t')
  | _ => none

def isHighSurrogate (code : Nat) : Bool := 0xD800 ≤ code && code ≤ 0xDBFF

def isLowSurrogate (code : Nat) : Bool := 0xDC00 ≤ code && code ≤ 0xDFFF

/-- The text that pieces stand for. Two escapes for a surrogate pair are one character; half a pair
is none. -/
def text? : List Piece → Option (List Char)
  | [] => some []
  | char c :: rest => (text? rest).map (c :: ·)
  | unit high :: rest =>
    if isHighSurrogate high then
      match rest with
      | unit low :: rest =>
        if isLowSurrogate low then
          (text? rest).map (Char.ofNat (0x10000 + (high - 0xD800) * 0x400 + (low - 0xDC00)) :: ·)
        else none
      | _ => none
    else if isLowSurrogate high then none
    else (text? rest).map (Char.ofNat high :: ·)

/-- Reads a string from after its opening quote. `read` holds the pieces so far, the last one
first. The answer has all pieces in order and the text after the closing quote. -/
def scan (read : List Piece) : List Char → Option (List Piece × List Char)
  | '"' :: rest => some (read.reverse, rest)
  | '\\' :: 'u' :: a :: b :: c :: d :: rest =>
    match ofHex? a b c d with
    | some piece => scan (piece :: read) rest
    | none => none
  | '\\' :: c :: rest =>
    match ofEscape? c with
    | some piece => scan (piece :: read) rest
    | none => none
  | c :: rest => if c = '\\' || c.toNat < 0x20 then none else scan (char c :: read) rest
  | [] => none

theorem length_scan_lt {read pieces : List Piece} {text rest : List Char}
    (h : scan read text = some (pieces, rest)) : rest.length < text.length := by
  fun_induction scan read text <;> simp_all <;> omega

end Piece

inductive Token where
  | openArray | closeArray | openObject | closeObject | comma | colon
  | null
  | bool (value : Bool)
  | number (literal : String)
  /-- A string, or nothing for one that stands for no text. -/
  | string (text? : Option String)
  deriving DecidableEq, Repr

namespace Token

def isBlank (c : Char) : Bool := c = ' ' || c = '\t' || c = '\n' || c = '\r'

/-- The token at the start of a text, and the text after it. -/
def first? : List Char → Option (Token × List Char)
  | '[' :: rest => some (openArray, rest)
  | ']' :: rest => some (closeArray, rest)
  | '\x7b' :: rest => some (openObject, rest)
  | '\x7d' :: rest => some (closeObject, rest)
  | ',' :: rest => some (comma, rest)
  | ':' :: rest => some (colon, rest)
  | 'n' :: 'u' :: 'l' :: 'l' :: rest => some (null, rest)
  | 't' :: 'r' :: 'u' :: 'e' :: rest => some (bool true, rest)
  | 'f' :: 'a' :: 'l' :: 's' :: 'e' :: rest => some (bool false, rest)
  | '"' :: rest =>
    (Piece.scan [] rest).map fun (pieces, rest) =>
      (string ((Piece.text? pieces).map String.ofList), rest)
  | c :: rest =>
    let literal := c :: rest.takeWhile Numeral.isPart
    (Numeral.parse? literal).map fun _ =>
      (number (String.ofList literal), rest.dropWhile Numeral.isPart)
  | [] => none

theorem length_dropWhile_le (p : Char → Bool) (text : List Char) :
    (text.dropWhile p).length ≤ text.length :=
  (List.dropWhile_sublist p).length_le

theorem length_first?_lt {text rest : List Char} {token : Token}
    (h : first? text = some (token, rest)) : rest.length < text.length := by
  fun_cases first? text
  case case10 tail =>
    simp only [first?, Option.map_eq_some_iff, Prod.mk.injEq] at h
    obtain ⟨⟨pieces, after⟩, hscan, -, rfl⟩ := h
    exact Nat.lt_succ_of_lt (Piece.length_scan_lt hscan)
  case case11 c tail _ _ _ _ _ _ _ _ _ _ literal =>
    rw [first?] at h
    · simp only [Option.map_eq_some_iff, Prod.mk.injEq] at h
      obtain ⟨-, -, -, rfl⟩ := h
      exact Nat.lt_succ_of_le (length_dropWhile_le _ tail)
    all_goals assumption
  all_goals simp_all [first?] <;> omega

/-- Reads the tokens of a text. `read` holds those before it, the last one first. -/
def scan (read : List Token) (text : List Char) : Option (List Token) :=
  let start := text.dropWhile isBlank
  if start.isEmpty then some read.reverse
  else
    match _h : first? start with
    | some (token, rest) => scan (token :: read) rest
    | none => none
termination_by text.length
decreasing_by
  exact Nat.lt_of_lt_of_le (length_first?_lt _h) (length_dropWhile_le isBlank text)

/-- The tokens of a text, or nothing when some part of it is no token. -/
def ofText? (text : String) : Option (List Token) := scan [] text.toList

end Token

end Understudy.Json
