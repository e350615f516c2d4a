import Understudy.Header.Key
import Understudy.Json.Writer

/-! # Writing headers

The JSON form of a header with every member written out, those with default values too.
-/

namespace Understudy

namespace Category

def encode (category : Category) : Json :=
  match category with
  | arithmetic type => .object [(arithmeticKey, .string type.key)]
  | _ => .string category.key

end Category

namespace Cv

def encode (cv : Cv) : Json :=
  .object [("is_const", .bool cv.isConst), ("is_volatile", .bool cv.isVolatile)]

end Cv

namespace Written

/-- The members of a type, `underlying` being the form of the type that its base name stands for. -/
def encode (w : Written) (underlying : Json) : Json :=
  .object
    [("name", .string w.name),
      ("category", w.category.encode),
      ("is_const", .bool w.base.isConst),
      ("is_volatile", .bool w.base.isVolatile),
      ("pointers", .array (w.pointers.map Cv.encode)),
      ("reference", .string w.reference.key),
      ("array", .array (w.extents.map (Json.ofOption fun count => .ofNat count.toNat))),
      ("underlying", underlying)]

end Written

namespace CType

def encode : CType → Json
  | plain w => w.encode .null
  | aliasing w aliased => w.encode aliased.encode

end CType

namespace Diagnostic

def encode (d : Diagnostic) : Json :=
  .object [("severity", .string d.severity.key), ("message", .string d.message)]

end Diagnostic

namespace FunctionEntity

def encodeParameter (parameter : String × CType) : Json :=
  .object [("name", .string parameter.1), ("type", parameter.2.encode)]

def encode (f : FunctionEntity) : Json :=
  .object
    [("kind", .string "function"),
      ("name", .string f.name),
      ("from_main_file", .bool f.isMain),
      ("return_type", f.returnType.encode),
      ("parameters", .array (f.parameters.map encodeParameter)),
      ("access", .string f.access.key),
      ("is_const", .bool f.isConst),
      ("is_static", .bool f.isStatic),
      ("is_virtual", .bool f.isVirtual),
      ("is_pure_virtual", .bool f.isPureVirtual),
      ("is_template", .bool f.isTemplate),
      ("is_defined", .bool f.isDefined)]

end FunctionEntity

namespace Entity

mutual

def encode : Entity → Json
  | scope name isMain children =>
    .object
      [("kind", .string "namespace"), ("name", .string name), ("from_main_file", .bool isMain),
        ("children", .array (encodeAll children))]
  | record name isMain isTemplate children =>
    .object
      [("kind", .string "class"), ("name", .string name), ("from_main_file", .bool isMain),
        ("is_template", .bool isTemplate), ("children", .array (encodeAll children))]
  | function f => f.encode
  | other isMain children =>
    .object
      [("kind", .string "other"), ("from_main_file", .bool isMain),
        ("children", .array (encodeAll children))]

def encodeAll : List Entity → List Json
  | [] => []
  | entity :: entities => encode entity :: encodeAll entities

end

end Entity

namespace Header

def encode (header : Header) : Json :=
  .object
    [("diagnostics", .array (header.diagnostics.map Diagnostic.encode)),
      ("entities", .array (Entity.encodeAll header.entities))]

/-- The JSON text of a header. -/
def render (header : Header) : String := header.encode.render

end Header

end Understudy
