import Understudy.Json.Token

/-! # Reading JSON

A reader goes through the tokens once and keeps the arrays and objects that are still open. It
nests as deep as the text does and sets no limit of its own; `Json.isWithin` tells the depth.
-/

namespace Understudy.Json

/-- A member whose name may stand for no text. -/
abbrev OpenMember := Option String × Json

/-- An array or object that is still open, with the values it has so far, the last one first. -/
inductive Frame where
  | array (items : List Json)
  /-- An object that waits for the value of its member `name?`. -/
  | object (members : List OpenMember) (name? : Option String)
  deriving Repr

/-- What has been read and what may come next. -/
inductive Reader where
  /-- A value must come. -/
  | wantValue (frames : List Frame)
  /-- An array has been opened: a value or its end must come. -/
  | wantItem (frames : List Frame)
  /-- A name must come, or the end of the object if it `mayClose`. -/
  | wantName (frames : List Frame) (members : List OpenMember) (mayClose : Bool)
  | wantColon (frames : List Frame) (members : List OpenMember) (name? : Option String)
  /-- A value has ended. -/
  | ended (frames : List Frame) (value : Json)
  deriving Repr

/-- The object of the given members, the last one first. -/
def ofOpenMembers (members : List OpenMember) : Json :=
  match members.reverse.mapM fun (name?, value) => name?.map fun name => (name, value) with
  | some members => object members
  | none => garbled

namespace Reader

/-- Begins a value. -/
def start? (frames : List Frame) : Token → Option Reader
  | .openArray => some (wantItem frames)
  | .openObject => some (wantName frames [] true)
  | .null => some (ended frames .null)
  | .bool value => some (ended frames (.bool value))
  | .number literal => some (ended frames (.number literal))
  | .string (some text) => some (ended frames (.string text))
  | .string none => some (ended frames .garbled)
  | .closeArray | .closeObject | .comma | .colon => none

/-- Reads one more token, unless it cannot stand here. -/
def step? : Reader → Token → Option Reader
  | wantValue frames, token => start? frames token
  | wantItem frames, .closeArray => some (ended frames (.array []))
  | wantItem frames, token => start? (.array [] :: frames) token
  | wantName frames members _, .string name? => some (wantColon frames members name?)
  | wantName frames members true, .closeObject => some (ended frames (ofOpenMembers members))
  | wantName .., _ => none
  | wantColon frames members name?, .colon => some (wantValue (.object members name? :: frames))
  | wantColon .., _ => none
  | ended (.array items :: frames) v, .comma => some (wantValue (.array (v :: items) :: frames))
  | ended (.array items :: frames) v, .closeArray =>
    some (ended frames (.array (v :: items).reverse))
  | ended (.object members name? :: frames) v, .comma =>
    some (wantName frames ((name?, v) :: members) false)
  | ended (.object members name? :: frames) v, .closeObject =>
    some (ended frames (ofOpenMembers ((name?, v) :: members)))
  | ended .., _ => none

/-- The value, once it has ended and nothing is open. -/
def value? : Reader → Option Json
  | ended [] v => some v
  | _ => none

end Reader

/-- The value of a text that holds one value and nothing else. -/
def read? (text : String) : Option Json := do
  let tokens ← Token.ofText? text
  let reader ← tokens.foldlM Reader.step? (.wantValue [])
  reader.value?

end Understudy.Json
