import Understudy.Header.Key
import Understudy.Json.Reader

/-! # Reading headers

A header is read from its JSON form. Members may come in any order and those with a default may be
missing; a member of an unknown name is passed over. An array stands for the members in their order.
A member that is present is never taken for missing, not even as `null`.
-/

namespace Understudy

namespace Json

/-- The value of each of the known members that is given. An object may give none of them twice,
and an array may not be longer than the list of names. -/
def record? (names : List String) : Json → Option (List (String × Json))
  | object members =>
    let known := members.filter fun member => member.1 ∈ names
    if (known.map Prod.fst).Nodup then some known else none
  | array items => if items.length ≤ names.length then some (names.zip items) else none
  | _ => none

/-- A member that must be given. -/
def required? (record : List (String × Json)) (name : String) (decode : Json → Option α) :
    Option α :=
  (record.lookup name).bind decode

/-- A member with a default. -/
def optional? (record : List (String × Json)) (name : String) (default : α)
    (decode : Json → Option α) : Option α :=
  match record.lookup name with
  | some value => decode value
  | none => some default

def list? (decode : Json → Option α) (value : Json) : Option (List α) :=
  value.array?.bind fun items => items.mapM decode

/-- A value that may be `null`. -/
def nullable? (decode : Json → Option α) : Json → Option (Option α)
  | null => some none
  | value => (decode value).map some

/-- Where a value stands. Inside an entity two more forms are admitted: an empty object for the
`null` beside a key, and a number for the kind of an entity. -/
inductive Setting where
  | alone | inEntity
  deriving DecidableEq, Repr

/-- Whether a value may stand beside a key that needs none. -/
def isNothing (setting : Setting) : Json → Bool
  | null => true
  | object [] => setting = .inEntity
  | _ => false

/-- A key that needs no value: by itself, or as the only member of an object. -/
def key? (setting : Setting) : Json → Option String
  | string key => some key
  | object [(key, value)] => if value.isNothing setting then some key else none
  | _ => none

end Json

open Json (record? required? optional? list? nullable? key? Setting)

namespace Arithmetic

def decode? (setting : Setting) (value : Json) : Option Arithmetic :=
  (key? setting value).bind ofKey?

end Arithmetic

namespace Category

def decode? (setting : Setting) : Json → Option Category
  | .object [(key, value)] =>
    if key = arithmeticKey then (Arithmetic.decode? setting value).map arithmetic
    else if value.isNothing setting then ofKey? key
    else none
  | .string key => ofKey? key
  | _ => none

end Category

namespace Cv

def decode? (value : Json) : Option Cv := do
  let record ← record? ["is_const", "is_volatile"] value
  return {
    isConst := ← optional? record "is_const" false Json.bool?
    isVolatile := ← optional? record "is_volatile" false Json.bool? }

end Cv

namespace Reference

def decode? (setting : Setting) (value : Json) : Option Reference :=
  (key? setting value).bind ofKey?

end Reference

namespace Extent

/-- An extent below `2 ^ 64`, or `null` for an unknown one. -/
def decode? : Json → Option Extent :=
  nullable? fun value => do
    let n ← value.natural?
    if n < UInt64.size then some (UInt64.ofNat n) else none

end Extent

namespace CType

def memberNames : List String :=
  ["name", "category", "is_const", "is_volatile", "pointers", "reference", "array", "underlying"]

/-- What is written of a type. -/
def decodeWritten? (setting : Setting) (record : List (String × Json)) : Option Written := do
  return {
    name := ← required? record "name" Json.string?
    category := ← required? record "category" (Category.decode? setting)
    base := {
      isConst := ← optional? record "is_const" false Json.bool?
      isVolatile := ← optional? record "is_volatile" false Json.bool? }
    pointers := ← optional? record "pointers" [] (list? Cv.decode?)
    reference := ← optional? record "reference" .none (Reference.decode? setting)
    extents := ← optional? record "array" [] (list? Extent.decode?) }

/-- Reads a type in which no more than `limit` types stand inside each other. -/
def decode? (setting : Setting) : (limit : Nat) → Json → Option CType
  | 0, _ => none
  | limit + 1, value => do
    let record ← record? memberNames value
    let written ← decodeWritten? setting record
    let aliased? ← optional? record "underlying" none (nullable? (decode? setting limit))
    match aliased? with
    | some aliased => return aliasing written aliased
    | none => return plain written

end CType

namespace Access

def decode? (value : Json) : Option Access := (key? .inEntity value).bind ofKey?

end Access

namespace Diagnostic

def decode? (value : Json) : Option Diagnostic := do
  let record ← record? ["severity", "message"] value
  return {
    severity := ← required? record "severity" fun value => (key? .alone value).bind Severity.ofKey?
    message := ← required? record "message" Json.string? }

end Diagnostic

namespace FunctionEntity

def memberNames : List String :=
  ["name", "from_main_file", "return_type", "parameters", "access", "is_const", "is_static",
    "is_virtual", "is_pure_virtual", "is_template", "is_defined"]

def decodeParameter? (limit : Nat) (value : Json) : Option (String × CType) := do
  let record ← record? ["name", "type"] value
  return (← optional? record "name" "" Json.string?,
    ← required? record "type" (CType.decode? .inEntity limit))

def decode? (limit : Nat) (value : Json) : Option FunctionEntity := do
  let record ← record? memberNames value
  let flag (name : String) : Option Bool := optional? record name false Json.bool?
  return {
    name := ← required? record "name" Json.string?
    isMain := ← optional? record "from_main_file" true Json.bool?
    returnType := ← required? record "return_type" (CType.decode? .inEntity limit)
    parameters := ← optional? record "parameters" [] (list? (decodeParameter? limit))
    access := ← optional? record "access" .isPublic Access.decode?
    isConst := ← flag "is_const"
    isStatic := ← flag "is_static"
    isVirtual := ← flag "is_virtual"
    isPureVirtual := ← flag "is_pure_virtual"
    isTemplate := ← flag "is_template"
    isDefined := ← flag "is_defined" }

end FunctionEntity

namespace Entity

/-- The kind of an entity and its other members: a member `kind`, or the first item. -/
def divideKind? : Json → Option (Json × Json)
  | .object members =>
    match members.partition fun member => member.1 = "kind" with
    | ([(_, kind)], others) => some (kind, .object others)
    | _ => none
  | .array (kind :: items) => some (kind, .array items)
  | _ => none

/-- The key of a kind. A number counts the kinds from zero. -/
def kindKey? (setting : Setting) : Json → Option String
  | .string key => some key
  | value => if setting = .inEntity then value.natural?.bind fun n => kindKeys[n]? else none

def decodeMain? (record : List (String × Json)) : Option Bool :=
  optional? record "from_main_file" true Json.bool?

/-- Reads an entity in which no more than `limit` entities and types stand inside each other. -/
def decode? (setting : Setting) : (limit : Nat) → Json → Option Entity
  | 0, _ => none
  | limit + 1, value => do
    let (kind, rest) ← divideKind? value
    let children? (record : List (String × Json)) : Option (List Entity) :=
      optional? record "children" [] (list? (decode? .inEntity limit))
    match ← kindKey? setting kind with
    | "namespace" =>
      let record ← record? ["name", "from_main_file", "children"] rest
      return scope (← optional? record "name" "" Json.string?) (← decodeMain? record)
        (← children? record)
    | "class" =>
      let record ← record? ["name", "from_main_file", "is_template", "children"] rest
      return Entity.record (← required? record "name" Json.string?) (← decodeMain? record)
        (← optional? record "is_template" false Json.bool?) (← children? record)
    | "function" => return function (← FunctionEntity.decode? limit rest)
    | "other" =>
      let record ← record? ["from_main_file", "children"] rest
      return other (← decodeMain? record) (← children? record)
    | _ => none

end Entity

namespace Header

/-- How many arrays and objects may be nested in a header. What a member of an unknown name holds
beside the entities does not count. -/
def maxNesting : Nat := 127

/-- The arrays or objects around an entity: the header and the list of its entities. -/
def outerNesting : Nat := 2

/-- Reads one entity of the list. All of it must be sound, with what it holds under unknown names. -/
def decodeEntity? (value : Json) : Option Entity :=
  if value.isWithin (maxNesting - outerNesting) && value.isSound then
    Entity.decode? .alone maxNesting value
  else none

def decode? (value : Json) : Option Header := do
  let record ← record? ["diagnostics", "entities"] value
  return {
    diagnostics := ← optional? record "diagnostics" [] (list? Diagnostic.decode?)
    entities := ← optional? record "entities" [] (list? decodeEntity?) }

/-- Reads the JSON text of a header. -/
def parse? (text : String) : Option Header := (Json.read? text).bind decode?

end Header

end Understudy
