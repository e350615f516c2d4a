import Understudy.Json.Numeral

/-! # JSON values

Members keep their order and may repeat a name. Nothing is made of numbers but their text.
-/

namespace Understudy

inductive Json where
  | null
  | bool (value : Bool)
  | number (literal : String)
  | string (text : String)
  | array (items : List Json)
  | object (members : List (String × Json))
  /-- A string with an escape for half a surrogate pair, or an object with such a name for a
  member. The grammar admits it, but it stands for no text. -/
  | garbled
  deriving Repr

namespace Json

mutual

/-- Whether every text in the value stands for characters and every number can be taken for a
double. -/
def isSound : Json → Bool
  | garbled => false
  | number literal => (Numeral.parse? literal.toList).any Numeral.fitsDouble
  | array items => allSound items
  | object members => allMembersSound members
  | null | bool _ | string _ => true

def allSound : List Json → Bool
  | [] => true
  | item :: items => isSound item && allSound items

def allMembersSound : List (String × Json) → Bool
  | [] => true
  | (_, value) :: members => isSound value && allMembersSound members

end

mutual

/-- Whether no more than `limit` arrays and objects are nested in each other. -/
def isWithin : Nat → Json → Bool
  | limit, array items =>
    match limit with
    | 0 => false
    | limit + 1 => allWithin limit items
  | limit, object members =>
    match limit with
    | 0 => false
    | limit + 1 => allMembersWithin limit members
  | _, null | _, bool _ | _, number _ | _, string _ | _, garbled => true

def allWithin : Nat → List Json → Bool
  | _, [] => true
  | limit, item :: items => isWithin limit item && allWithin limit items

def allMembersWithin : Nat → List (String × Json) → Bool
  | _, [] => true
  | limit, (_, value) :: members => isWithin limit value && allMembersWithin limit members

end

def ofNat (n : Nat) : Json := number (toString n)

def ofOption (encode : α → Json) : Option α → Json
  | some value => encode value
  | none => null

def strings (texts : List String) : Json := array (texts.map string)

def bool? : Json → Option Bool
  | bool value => some value
  | _ => none

def string? : Json → Option String
  | string text => some text
  | _ => none

def array? : Json → Option (List Json)
  | array items => some items
  | _ => none

/-- The value of an integer without sign, point and exponent. -/
def natural? : Json → Option Nat
  | number literal => (Numeral.parse? literal.toList).bind Numeral.natural?
  | _ => none

/-- The first member of a name. -/
def member? (name : String) : Json → Option Json
  | object members => members.lookup name
  | _ => none

end Json

end Understudy
