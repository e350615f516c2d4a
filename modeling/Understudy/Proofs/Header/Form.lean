import Understudy.Header.Encode
import Understudy.Proofs.Header.Tree
import Understudy.Proofs.Json.Form
import Understudy.Proofs.Json.Natural

/-! # Forms of headers

What a header is written as, with the default of each member that may be missing. Most members have
one, and the one for standing in the input file is true. A category is written in one way only: the
object of an arithmetic one is no list of members but a key with what belongs to it.
-/

namespace Understudy

open Json (Form Slot)

namespace Cv

def form (cv : Cv) : Form :=
  .record [.flag "is_const" cv.isConst, .flag "is_volatile" cv.isVolatile]

end Cv

namespace Written

def slots (w : Written) (underlying : Form) : List (Slot Form) :=
  [.required "name" (.fixed (.string w.name)),
    .required "category" (.fixed w.category.encode),
    .flag "is_const" w.base.isConst,
    .flag "is_volatile" w.base.isVolatile,
    .optional "pointers" (.array []) (.list (w.pointers.map Cv.form)),
    .optional "reference" (.string Reference.none.key) (.fixed (.string w.reference.key)),
    .optional "array" (.array [])
      (.list (w.extents.map fun extent => .fixed (Json.ofOption (fun n => .ofNat n.toNat) extent))),
    .optional "underlying" .null underlying]

end Written

namespace CType

def form : CType → Form
  | plain w => .record (w.slots (.fixed .null))
  | aliasing w aliased => .record (w.slots aliased.form)

end CType

namespace Diagnostic

def form (d : Diagnostic) : Form :=
  .record
    [.required "severity" (.fixed (.string d.severity.key)),
      .required "message" (.fixed (.string d.message))]

end Diagnostic

namespace FunctionEntity

def parameterForm (parameter : String × CType) : Form :=
  .record
    [.optional "name" (.string "") (.fixed (.string parameter.1)),
      .required "type" parameter.2.form]

def slots (f : FunctionEntity) : List (Slot Form) :=
  [.required "name" (.fixed (.string f.name)),
    .optional "from_main_file" (.bool true) (.fixed (.bool f.isMain)),
    .required "return_type" f.returnType.form,
    .optional "parameters" (.array []) (.list (f.parameters.map parameterForm)),
    .optional "access" (.string Access.isPublic.key) (.fixed (.string f.access.key)),
    .flag "is_const" f.isConst,
    .flag "is_static" f.isStatic,
    .flag "is_virtual" f.isVirtual,
    .flag "is_pure_virtual" f.isPureVirtual,
    .flag "is_template" f.isTemplate,
    .flag "is_defined" f.isDefined]

end FunctionEntity

namespace Entity

/-- The object of an entity: its kind and the members that the kind has. -/
def tagged (kind : String) (slots : List (Slot Form)) : Form :=
  .record (.required "kind" (.fixed (.string kind)) :: slots)

/-- Whether an entity stands in the input file itself. -/
def mainSlot (isMain : Bool) : Slot Form :=
  .optional "from_main_file" (.bool true) (.fixed (.bool isMain))

def childrenSlot (children : List Form) : Slot Form :=
  .optional "children" (.array []) (.list children)

mutual

def form : Entity → Form
  | scope name isMain children =>
    tagged "namespace"
      [.optional "name" (.string "") (.fixed (.string name)), mainSlot isMain,
        childrenSlot (formAll children)]
  | record name isMain isTemplate children =>
    tagged "class"
      [.required "name" (.fixed (.string name)), mainSlot isMain,
        .flag "is_template" isTemplate, childrenSlot (formAll children)]
  | function f => tagged "function" f.slots
  | other isMain children => tagged "other" [mainSlot isMain, childrenSlot (formAll children)]

def formAll : List Entity → List Form
  | [] => []
  | entity :: entities => form entity :: formAll entities

end

theorem formAll_eq_map (entities : List Entity) : formAll entities = entities.map form := by
  induction entities with
  | nil => rfl
  | cons entity entities ih => rw [formAll, ih, List.map_cons]

theorem encodeAll_eq_map (entities : List Entity) : encodeAll entities = entities.map encode := by
  induction entities with
  | nil => rfl
  | cons entity entities ih => rw [encodeAll, ih, List.map_cons]

end Entity

namespace Header

def form (header : Header) : Form :=
  .record
    [.optional "diagnostics" (.array []) (.list (header.diagnostics.map Diagnostic.form)),
      .optional "entities" (.array []) (.list (header.entities.map Entity.form))]

end Header

/-! ## Forms are forms of what is written -/

theorem Cv.full_form (cv : Cv) : cv.form.full = cv.encode := by
  rw [form, Form.full_record]
  rfl

theorem Written.full_record_slots (w : Written) (underlying : Form) :
    (Form.record (w.slots underlying)).full = w.encode underlying.full := by
  have hpointers : (w.pointers.map Cv.form).map Form.full = w.pointers.map Cv.encode := by
    rw [List.map_map]
    exact List.map_congr_left fun cv _ => cv.full_form
  rw [Form.full_record, encode]
  simp [slots, Slot.required, Slot.optional, Slot.flag, hpointers, Function.comp_def]

theorem CType.full_form (t : CType) : t.form.full = t.encode := by
  induction t with
  | plain w => rw [form, Written.full_record_slots, encode, Form.full_fixed]
  | aliasing w aliased ih => rw [form, Written.full_record_slots, encode, ih]

theorem Diagnostic.full_form (d : Diagnostic) : d.form.full = d.encode := by
  rw [form, Form.full_record]
  rfl

namespace FunctionEntity

theorem full_parameterForm (parameter : String × CType) :
    (parameterForm parameter).full = encodeParameter parameter := by
  rw [parameterForm, Form.full_record, encodeParameter, ← CType.full_form]
  rfl

theorem full_form (f : FunctionEntity) : (Entity.tagged "function" f.slots).full = f.encode := by
  have hparameters :
      (f.parameters.map parameterForm).map Form.full = f.parameters.map encodeParameter := by
    rw [List.map_map]
    exact List.map_congr_left fun parameter _ => full_parameterForm parameter
  rw [Entity.tagged, Form.full_record, encode, ← hparameters, ← CType.full_form]
  simp [slots, Slot.required, Slot.optional, Slot.flag]

end FunctionEntity

theorem Entity.full_form (entity : Entity) : entity.form.full = entity.encode := by
  induction entity using nestedInduction with
  | function f => exact f.full_form
  | around enclosure children ih =>
      have hchildren : (formAll children).map Form.full = encodeAll children := by
        rw [formAll_eq_map, encodeAll_eq_map, List.map_map]
        exact List.map_congr_left ih
      cases enclosure with
      | scope | record | other =>
          rw [Enclosure.around, form, encode, tagged, Form.full_record, ← hchildren]
          simp [Slot.required, Slot.optional, Slot.flag, mainSlot, childrenSlot]

theorem Header.full_form (header : Header) : header.form.full = header.encode := by
  have hdiagnostics : (header.diagnostics.map Diagnostic.form).map Form.full =
      header.diagnostics.map Diagnostic.encode := by
    rw [List.map_map]
    exact List.map_congr_left fun d _ => d.full_form
  have hentities : (header.entities.map Entity.form).map Form.full =
      Entity.encodeAll header.entities := by
    rw [Entity.encodeAll_eq_map, List.map_map]
    exact List.map_congr_left fun entity _ => entity.full_form
  rw [form, Form.full_record, encode, ← hdiagnostics, ← hentities]
  simp [Slot.optional]

/-! ## What is written is sound -/

open Json (isSound_array_iff isSound_object_iff)

theorem Category.isSound_encode (category : Category) : category.encode.isSound = true := by
  cases category <;> rfl

theorem Cv.isSound_encode (cv : Cv) : cv.encode.isSound = true := rfl

theorem Written.isSound_encode (w : Written) {underlying : Json}
    (h : underlying.isSound = true) : (w.encode underlying).isSound = true := by
  have hpointers : (Json.array (w.pointers.map Cv.encode)).isSound = true := by
    rw [isSound_array_iff, List.forall_mem_map]
    exact fun cv _ => cv.isSound_encode
  have hextents :
      (Json.array (w.extents.map (Json.ofOption fun n => .ofNat n.toNat))).isSound = true := by
    rw [isSound_array_iff, List.forall_mem_map]
    intro extent _
    cases extent with
    | none => rfl
    | some n => exact Json.isSound_ofNat n.toNat_lt
  rw [encode, isSound_object_iff]
  simp [h, hpointers, hextents, Category.isSound_encode]

theorem CType.isSound_encode (t : CType) : t.encode.isSound = true := by
  induction t with
  | plain w => exact w.isSound_encode rfl
  | aliasing w aliased ih => exact w.isSound_encode ih

theorem Diagnostic.isSound_encode (d : Diagnostic) : d.encode.isSound = true := rfl

theorem FunctionEntity.isSound_encode (f : FunctionEntity) : f.encode.isSound = true := by
  have hparameters : (Json.array (f.parameters.map encodeParameter)).isSound = true := by
    rw [isSound_array_iff, List.forall_mem_map]
    intro parameter _
    rw [encodeParameter, isSound_object_iff]
    simp [CType.isSound_encode]
  rw [encode, isSound_object_iff]
  simp [CType.isSound_encode, hparameters]

theorem Entity.isSound_encode (entity : Entity) : entity.encode.isSound = true := by
  induction entity using nestedInduction with
  | function f => exact f.isSound_encode
  | around enclosure children ih =>
      have hchildren : (Json.array (encodeAll children)).isSound = true := by
        rwa [encodeAll_eq_map, isSound_array_iff, List.forall_mem_map]
      cases enclosure <;> simp [Enclosure.around, encode, isSound_object_iff, hchildren]

theorem Header.isSound_encode (header : Header) : header.encode.isSound = true := by
  have hdiagnostics :
      (Json.array (header.diagnostics.map Diagnostic.encode)).isSound = true := by
    rw [isSound_array_iff, List.forall_mem_map]
    exact fun d _ => d.isSound_encode
  have hentities : (Json.array (Entity.encodeAll header.entities)).isSound = true := by
    rw [Entity.encodeAll_eq_map, isSound_array_iff, List.forall_mem_map]
    exact fun entity _ => entity.isSound_encode
  rw [encode, isSound_object_iff]
  simp [hdiagnostics, hentities]

end Understudy
