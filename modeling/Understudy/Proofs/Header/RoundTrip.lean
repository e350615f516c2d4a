import Understudy.Proofs.Header.Form

/-! # Headers are read back

Whatever way the JSON form of a header is presented in, reading it gives the header, as long as no
more arrays and objects are nested in each other than the reader follows. Each kind of object is
read member by member, and a nested one stands one level deeper, so the limits of the readers
suffice.
-/

namespace Understudy

open Json (Form Slot record? optional? required?_of_found required?_of_fixed required?_of_string
  optional?_of_found optional?_of_fixed optional?_of_bool optional?_of_string optional?_of_list
  bind_eq_some_of_eq isWithin_mono)

variable {value : Json} {known : List (String × Json)} {limit : Nat} {setting : Json.Setting}

/-! ## Types -/

theorem Category.decode?_encode (category : Category) (setting : Json.Setting) :
    decode? setting category.encode = some category := by
  cases category with
  | arithmetic a =>
      rw [encode, decode?, if_pos rfl, Arithmetic.decode?, Json.key?, Option.bind_some,
        Arithmetic.ofKey?_key, Option.map_some]
  | void | enum | record | typedef | template | functionPointer | incomplete => rfl

theorem Reference.decode?_key (reference : Reference) (setting : Json.Setting) :
    decode? setting (.string reference.key) = some reference := by
  rw [decode?, Json.key?, Option.bind_some, ofKey?_key]

theorem Extent.decode?_ofOption (extent : Extent) :
    decode? (Json.ofOption (fun n => .ofNat n.toNat) extent) = some extent := by
  cases extent with
  | none => rfl
  | some n =>
      change ((Json.ofNat n.toNat).natural?.bind _).map some = _
      rw [Json.natural?_ofNat, Option.bind_some, if_pos n.toNat_lt, UInt64.ofNat_toNat,
        Option.map_some]

theorem Cv.decode?_of_presents {cv : Cv} (h : cv.form.Presents value)
    (hlimit : value.isWithin limit = true) : decode? value = some cv := by
  have hnodup : ["is_const", "is_volatile"].Nodup := by decide
  obtain ⟨inner, known, -, (hrecord : record? ["is_const", "is_volatile"] value = some known),
    hfound⟩ := Form.exists_record?_of_presents h hnodup hlimit
  simp only [List.forall_mem_cons] at hfound
  obtain ⟨hconst, hvolatile, -⟩ := hfound
  simp only [decode?, hrecord, optional?_of_bool hconst, optional?_of_bool hvolatile,
    Option.bind_eq_bind, Option.bind_some]
  rfl

namespace CType

theorem decodeWritten?_of_found {w : Written} {underlying : Form}
    (hfound : ∀ slot ∈ w.slots underlying, slot.Found known limit) :
    decodeWritten? setting known = some w := by
  simp only [Written.slots, List.forall_mem_cons] at hfound
  obtain ⟨hname, hcategory, hconst, hvolatile, hpointers, hreference, hextents, -⟩ := hfound
  have hpointers := optional?_of_list hpointers fun cv _ value hvalue hwithin =>
    Cv.decode?_of_presents hvalue hwithin
  have hkey : Json.string Reference.none.key = .string w.reference.key → .none = w.reference := by
    cases w.reference <;> simp [Reference.key]
  have hreference := optional?_of_fixed hreference hkey (w.reference.decode?_key setting)
  have hextents := optional?_of_list hextents fun extent _ value hvalue _ => by
    cases hvalue
    exact Extent.decode?_ofOption extent
  simp only [decodeWritten?, required?_of_string hname,
    required?_of_fixed hcategory (w.category.decode?_encode setting), optional?_of_bool hconst,
    optional?_of_bool hvolatile, hpointers, hreference, hextents, Option.bind_eq_bind,
    Option.bind_some]
  rfl

/-- What stands for a type is an object, so it is not taken for the absence of one. -/
theorem nullable?_of_presents {t : CType} {decode : Json → Option CType}
    (h : t.form.Presents value) : Json.nullable? decode value = (decode value).map some := by
  cases t <;> cases h <;> rfl

/-- A type is read when what its base name stands for is, one level deeper. -/
theorem decode?_of_underlying {w : Written} {underlying : Form} (aliased? : Option CType)
    (h : (Form.record (w.slots underlying)).Presents value) (hlimit : value.isWithin limit = true)
    (hunderlying : ∀ inner known, limit = inner + 1 →
      (Slot.optional "underlying" .null underlying).Found known inner →
      optional? known "underlying" none (Json.nullable? (decode? setting inner)) = some aliased?) :
    decode? setting limit value = some (aliased?.elim (plain w) (aliasing w)) := by
  have hnodup : memberNames.Nodup := by decide
  obtain ⟨inner, known, rfl, (hrecord : record? memberNames value = some known), hfound⟩ :=
    Form.exists_record?_of_presents h hnodup hlimit
  have hwritten : decodeWritten? setting known = some w := decodeWritten?_of_found hfound
  have haliased := hunderlying inner known rfl
    (hfound (.optional "underlying" .null underlying) (by simp [Written.slots]))
  simp only [decode?, hrecord, hwritten, haliased, Option.bind_eq_bind, Option.bind_some]
  cases aliased? <;> rfl

theorem decode?_of_presents {t : CType} (h : t.form.Presents value)
    (hlimit : value.isWithin limit = true) : decode? setting limit value = some t := by
  induction t generalizing value limit with
  | plain w =>
      exact decode?_of_underlying none h hlimit fun inner known _ hfound =>
        optional?_of_fixed hfound (fun _ => rfl) rfl
  | aliasing w aliased ih =>
      refine decode?_of_underlying (some aliased) h hlimit fun inner known _ hfound => ?_
      refine optional?_of_found hfound (fun hdefault => ?_) fun value hvalue hwithin => ?_
      · -- The absence of a type is not what a type is written as.
        cases aliased <;> cases hdefault
      · rw [nullable?_of_presents hvalue, ih hvalue hwithin, Option.map_some]

end CType

/-! ## Functions -/

theorem Access.decode?_key (access : Access) : decode? (.string access.key) = some access := by
  rw [decode?, Json.key?, Option.bind_some, ofKey?_key]

namespace FunctionEntity

theorem decodeParameter?_of_presents {parameter : String × CType}
    (h : (parameterForm parameter).Presents value) (hlimit : value.isWithin limit = true) :
    decodeParameter? limit value = some parameter := by
  have hnodup : ["name", "type"].Nodup := by decide
  obtain ⟨inner, known, rfl, (hrecord : record? ["name", "type"] value = some known), hfound⟩ :=
    Form.exists_record?_of_presents h hnodup hlimit
  simp only [List.forall_mem_cons] at hfound
  obtain ⟨hname, htype, -⟩ := hfound
  have htype : Json.required? known "type" (CType.decode? .inEntity (inner + 1)) =
      some parameter.2 :=
    required?_of_found htype rfl fun value hvalue hwithin =>
      CType.decode?_of_presents hvalue (isWithin_mono hwithin (Nat.le_succ inner))
  simp only [decodeParameter?, hrecord, optional?_of_string hname, htype, Option.bind_eq_bind,
    Option.bind_some]
  rfl

theorem decode?_of_found {f : FunctionEntity} (hrecord : record? memberNames value = some known)
    (hfound : ∀ slot ∈ f.slots, slot.Found known limit) : decode? limit value = some f := by
  simp only [slots, List.forall_mem_cons] at hfound
  obtain ⟨hname, hmain, hreturn, hparameters, haccess, hconst, hstatic, hvirtual, hpure, htemplate,
    hdefined, -⟩ := hfound
  have hreturn : Json.required? known "return_type" (CType.decode? .inEntity limit) =
      some f.returnType :=
    required?_of_found hreturn rfl fun value hvalue hwithin =>
      CType.decode?_of_presents hvalue hwithin
  have hparameters := optional?_of_list hparameters fun parameter _ value hvalue hwithin =>
    decodeParameter?_of_presents hvalue (isWithin_mono hwithin (Nat.sub_le limit 1))
  have hkey : Json.string Access.isPublic.key = .string f.access.key → .isPublic = f.access := by
    cases f.access <;> simp [Access.key]
  have haccess := optional?_of_fixed haccess hkey f.access.decode?_key
  rw [decode?]
  exact bind_eq_some_of_eq hrecord <|
    bind_eq_some_of_eq (required?_of_string hname) <|
    bind_eq_some_of_eq (optional?_of_bool hmain) <|
    bind_eq_some_of_eq hreturn <|
    bind_eq_some_of_eq hparameters <|
    bind_eq_some_of_eq haccess <|
    bind_eq_some_of_eq (optional?_of_bool hconst) <|
    bind_eq_some_of_eq (optional?_of_bool hstatic) <|
    bind_eq_some_of_eq (optional?_of_bool hvirtual) <|
    bind_eq_some_of_eq (optional?_of_bool hpure) <|
    bind_eq_some_of_eq (optional?_of_bool htemplate) <|
    bind_eq_some_of_eq (optional?_of_bool hdefined) rfl

end FunctionEntity

/-! ## Entities -/

namespace Entity

/-- The kind of an entity is found, and among the other members those of that kind. -/
theorem exists_record?_of_tagged {kind : String} {slots : List (Slot Form)}
    (h : (tagged kind slots).Presents value) (hnodup : ("kind" :: slots.map Slot.name).Nodup)
    (hlimit : value.isWithin limit = true) :
    ∃ inner rest known, limit = inner + 1 ∧ divideKind? value = some (.string kind, rest) ∧
      record? (slots.map Slot.name) rest = some known ∧
      ∀ slot ∈ slots, slot.Found known inner := by
  rw [List.nodup_cons] at hnodup
  obtain ⟨members, first, rfl, hfirst, hfound, hrest⟩ :=
    Form.exists_first_of_presents h rfl hnodup.1
  cases hfirst
  rw [Slot.required_name] at hfound hrest
  have hdivide : divideKind? (.object members) =
      some (.string kind, .object (members.filter fun member => ¬ member.1 = "kind")) := by
    rw [divideKind?, List.partition_eq_filter_filter]
    simp only [hfound, Function.comp_def, decide_not]
  have hwithin : Json.isWithin limit
      (.object (members.filter fun member => ¬ member.1 = "kind")) = true := by
    obtain ⟨hpos, hall⟩ := Json.isWithin_object_iff.mp hlimit
    exact Json.isWithin_object_iff.mpr
      ⟨hpos, fun member hmember => hall member (List.mem_of_mem_filter hmember)⟩
  obtain ⟨inner, known, hinner, hrecord, hknown⟩ :=
    Form.exists_record?_of_presents hrest hnodup.2 hwithin
  exact ⟨inner, _, known, hinner, hdivide, hrecord, hknown⟩

theorem decode?_of_namespace {rest : Json}
    (h : divideKind? value = some (.string "namespace", rest)) :
    decode? setting (limit + 1) value = (do
      let record ← record? ["name", "from_main_file", "children"] rest
      return scope (← optional? record "name" "" Json.string?) (← decodeMain? record)
        (← optional? record "children" [] (Json.list? (decode? .inEntity limit)))) := by
  rw [decode?, h]
  rfl

theorem decode?_of_class {rest : Json}
    (h : divideKind? value = some (.string "class", rest)) :
    decode? setting (limit + 1) value = (do
      let record ← record? ["name", "from_main_file", "is_template", "children"] rest
      return Entity.record (← Json.required? record "name" Json.string?) (← decodeMain? record)
        (← optional? record "is_template" false Json.bool?)
        (← optional? record "children" [] (Json.list? (decode? .inEntity limit)))) := by
  rw [decode?, h]
  rfl

theorem decode?_of_function {rest : Json}
    (h : divideKind? value = some (.string "function", rest)) :
    decode? setting (limit + 1) value = (do
      return function (← FunctionEntity.decode? limit rest)) := by
  rw [decode?, h]
  rfl

theorem decode?_of_other {rest : Json}
    (h : divideKind? value = some (.string "other", rest)) :
    decode? setting (limit + 1) value = (do
      let record ← record? ["from_main_file", "children"] rest
      return other (← decodeMain? record)
        (← optional? record "children" [] (Json.list? (decode? .inEntity limit)))) := by
  rw [decode?, h]
  rfl

/-- The members of an entity are read when the entities inside are, one level deeper. -/
theorem optional?_of_children {children : List Entity}
    (h : (childrenSlot (formAll children)).Found known limit)
    (hchildren : ∀ child ∈ children, ∀ value, child.form.Presents value →
      value.isWithin limit = true → decode? .inEntity limit value = some child) :
    optional? known "children" [] (Json.list? (decode? .inEntity limit)) = some children := by
  rw [childrenSlot, formAll_eq_map] at h
  exact optional?_of_list h fun child hchild value hvalue hwithin =>
    hchildren child hchild value hvalue (isWithin_mono hwithin (Nat.sub_le limit 1))

theorem decode?_of_presents {entity : Entity} (h : entity.form.Presents value)
    (hlimit : value.isWithin limit = true) : decode? setting limit value = some entity := by
  induction entity using nestedInduction generalizing value limit setting with
  | function f =>
      obtain ⟨inner, rest, known, rfl, hdivide, hrecord, hfound⟩ :=
        exists_record?_of_tagged h (by simp [FunctionEntity.slots]) hlimit
      rw [decode?_of_function hdivide, FunctionEntity.decode?_of_found hrecord hfound]
      rfl
  | around enclosure children ih =>
      have hread {known : List (String × Json)} {inner : Nat}
          (h : (childrenSlot (formAll children)).Found known inner) :=
        optional?_of_children h fun child hchild value hvalue hwithin =>
          ih child hchild hvalue hwithin
      cases enclosure with
      | scope name isMain =>
          obtain ⟨inner, rest, known, rfl, hdivide, hrecord, hfound⟩ :=
            exists_record?_of_tagged h (by simp [mainSlot, childrenSlot]) hlimit
          simp only [List.forall_mem_cons] at hfound
          obtain ⟨hname, hmain, hchildren, -⟩ := hfound
          change record? ["name", "from_main_file", "children"] rest = some known at hrecord
          rw [decode?_of_namespace hdivide]
          simp only [hrecord, optional?_of_string hname, decodeMain?, optional?_of_bool hmain,
            hread hchildren, Option.bind_eq_bind, Option.bind_some]
          rfl
      | record name isMain isTemplate =>
          obtain ⟨inner, rest, known, rfl, hdivide, hrecord, hfound⟩ :=
            exists_record?_of_tagged h (by simp [mainSlot, childrenSlot]) hlimit
          simp only [List.forall_mem_cons] at hfound
          obtain ⟨hname, hmain, htemplate, hchildren, -⟩ := hfound
          change record? ["name", "from_main_file", "is_template", "children"] rest = some known
            at hrecord
          rw [decode?_of_class hdivide]
          simp only [hrecord, required?_of_string hname, decodeMain?, optional?_of_bool hmain,
            optional?_of_bool htemplate, hread hchildren, Option.bind_eq_bind, Option.bind_some]
          rfl
      | other isMain =>
          obtain ⟨inner, rest, known, rfl, hdivide, hrecord, hfound⟩ :=
            exists_record?_of_tagged h (by simp [mainSlot, childrenSlot]) hlimit
          simp only [List.forall_mem_cons] at hfound
          obtain ⟨hmain, hchildren, -⟩ := hfound
          change record? ["from_main_file", "children"] rest = some known at hrecord
          rw [decode?_of_other hdivide]
          simp only [hrecord, decodeMain?, optional?_of_bool hmain, hread hchildren,
            Option.bind_eq_bind, Option.bind_some]
          rfl

end Entity

/-! ## Headers -/

theorem Diagnostic.decode?_of_presents {d : Diagnostic} (h : d.form.Presents value)
    (hlimit : value.isWithin limit = true) : decode? value = some d := by
  have hnodup : ["severity", "message"].Nodup := by decide
  obtain ⟨inner, known, rfl, (hrecord : record? ["severity", "message"] value = some known),
    hfound⟩ := Form.exists_record?_of_presents h hnodup hlimit
  simp only [List.forall_mem_cons] at hfound
  obtain ⟨hseverity, hmessage, -⟩ := hfound
  have hseverity : Json.required? known "severity"
      (fun value => (Json.key? .alone value).bind Severity.ofKey?) = some d.severity :=
    required?_of_fixed hseverity (by rw [Json.key?, Option.bind_some, Severity.ofKey?_key])
  simp only [decode?, hrecord, hseverity, required?_of_string hmessage, Option.bind_eq_bind,
    Option.bind_some]
  rfl

namespace Header

variable {header : Header}

/-- However it is presented, an entity of the list is sound, and is within the limits of its
reader. -/
theorem decodeEntity?_of_presents {entity : Entity} (h : entity.form.Presents value)
    (hlimit : value.isWithin (maxNesting - outerNesting) = true) :
    decodeEntity? value = some entity := by
  have hsound : value.isSound = true :=
    Form.isSound_of_presents h (by rw [entity.full_form]; exact entity.isSound_encode)
  rw [decodeEntity?, hlimit, hsound]
  exact Entity.decode?_of_presents h (isWithin_mono hlimit (by decide))

theorem decode?_of_presents (h : header.form.Presents value)
    (hlimit : value.isWithin maxNesting = true) : decode? value = some header := by
  have hnodup : ["diagnostics", "entities"].Nodup := by decide
  obtain ⟨inner, known, hinner, (hrecord : record? ["diagnostics", "entities"] value = some known),
    hfound⟩ := Form.exists_record?_of_presents h hnodup hlimit
  simp only [List.forall_mem_cons] at hfound
  obtain ⟨hdiagnostics, hentities, -⟩ := hfound
  have hdiagnostics := optional?_of_list hdiagnostics fun d _ value hvalue hwithin =>
    Diagnostic.decode?_of_presents hvalue hwithin
  -- An entity of the list stands inside of two levels, which its reader no longer counts.
  have houter : inner - 1 = maxNesting - outerNesting := by
    rw [hinner]
    rfl
  have hentities := optional?_of_list hentities fun entity _ value hvalue hwithin =>
    decodeEntity?_of_presents hvalue (houter ▸ hwithin)
  simp only [decode?, hrecord, hdiagnostics, hentities, Option.bind_eq_bind, Option.bind_some]
  rfl

theorem parse?_of_presents (h : header.form.Presents value)
    (hlimit : value.isWithin maxNesting = true) : parse? value.render = some header := by
  have hsound : value.isSound = true :=
    Form.isSound_of_presents h (by rw [header.full_form]; exact header.isSound_encode)
  rw [parse?, Json.read?_render hsound, Option.bind_some]
  exact decode?_of_presents h hlimit

/-- What is written of a header is read back. -/
theorem parse?_render (h : header.encode.isWithin maxNesting = true) :
    parse? header.render = some header := by
  have hpresents := header.form.presents_full
  rw [header.full_form] at hpresents
  exact parse?_of_presents hpresents h

/-- The JSON form of a header is read back, however its members are presented. In any object whose
members are fields they may be reordered, those that hold their defaults may be dropped, and strings
may be added under names that are not known there, as long as no more arrays and objects are nested
in each other than the reader follows. -/
theorem reads_back_presented (header : Header) :
    header.form.full = header.encode ∧
      ∀ json, header.form.Presents json → json.isWithin maxNesting = true →
        parse? json.render = some header :=
  ⟨header.full_form, fun _ => parse?_of_presents⟩

/-- A function that returns an array of the greatest extent, with all members in reverse, all
defaults dropped and strings added to the header, to the function and to the type. -/
theorem reads_back_presented_reversed :
    let returnType := (CType.arithmetic .int).array (some 18446744073709551615)
    let f : FunctionEntity := { name := "f\n\x01", returnType }
    let header : Header := { entities := [.function f] }
    let typeJson : Json := .object
      [("type", .string "\"int\""),
        ("array", .array [.number "18446744073709551615"]),
        ("category", .object [("builtin", .string "int")]),
        ("name", .string "int")]
    let entityJson : Json := .object
      [("children", .string "[]"), ("return_type", typeJson), ("name", .string "f\n\x01"),
        ("kind", .string "function")]
    let json : Json := .object [("kind", .string "header"), ("entities", .array [entityJson])]
    header.form.Presents json ∧ json.isWithin maxNesting = true ∧
      parse? json.render = some header := by
  intro returnType f header typeJson entityJson json
  have htype : returnType.form.Presents typeJson :=
    .record
      (.keep (.fixed _) (.keep (.fixed _) (.drop rfl (.drop rfl (.drop rfl (.drop rfl
        (.keep (.list (.cons (.fixed _) .nil)) (.drop rfl .nil))))))))
      (List.forall_mem_singleton.mpr ⟨by decide, _, rfl⟩) (List.reverse_perm [_, _, _, _])
  have hentity : (Entity.function f).form.Presents entityJson :=
    .record
      (.keep (.fixed _) (.keep (.fixed _) (.drop rfl (.keep htype (.drop rfl (.drop rfl
        (.drop rfl (.drop rfl (.drop rfl (.drop rfl (.drop rfl (.drop rfl .nil))))))))))))
      (List.forall_mem_singleton.mpr ⟨by decide, _, rfl⟩) (List.reverse_perm [_, _, _, _])
  have hpresents : header.form.Presents json :=
    .record (.drop rfl (.keep (.list (.cons hentity .nil)) .nil))
      (List.forall_mem_singleton.mpr ⟨by decide, _, rfl⟩) (List.reverse_perm [_, _])
  exact ⟨hpresents, by decide, (reads_back_presented header).2 json hpresents (by decide)⟩

/-- Not every object is a list of fields: with a string added to the object of an arithmetic
category, what presents a header can no longer be read. -/
theorem parse?_of_category_with_more :
    let header : Header :=
      { entities := [.function { name := "f", returnType := .arithmetic .int }] }
    let json (category : List (String × Json)) : Json :=
      .object [("entities", .array [.object
        [("kind", .string "function"), ("name", .string "f"),
          ("return_type", .object [("name", .string "int"), ("category", .object category)])]])]
    header.form.Presents (json [("builtin", .string "int")]) ∧
      parse? (json [("builtin", .string "int")]).render = some header ∧
      (json [("builtin", .string "int"), ("x", .string "y")]).isWithin maxNesting = true ∧
      parse? (json [("builtin", .string "int"), ("x", .string "y")]).render = none := by
  intro header json
  have htype : (CType.arithmetic .int).form.Presents
      (.object [("name", .string "int"), ("category", .object [("builtin", .string "int")])]) :=
    .record
      (.keep (.fixed _) (.keep (.fixed _) (.drop rfl (.drop rfl (.drop rfl (.drop rfl
        (.drop rfl (.drop rfl .nil)))))))) (List.forall_mem_nil _) (.refl _)
  have hpresents : header.form.Presents (json [("builtin", .string "int")]) :=
    .record
      (.drop rfl (.keep (.list (.cons (.record
        (.keep (.fixed _) (.keep (.fixed _) (.drop rfl (.keep htype (.drop rfl (.drop rfl
          (.drop rfl (.drop rfl (.drop rfl (.drop rfl (.drop rfl (.drop rfl .nil))))))))))))
        (List.forall_mem_nil _) (.refl _)) .nil)) .nil))
      (List.forall_mem_nil _) (.refl _)
  have hread : Json.read? (json [("builtin", .string "int"), ("x", .string "y")]).render =
      some (json [("builtin", .string "int"), ("x", .string "y")]) :=
    Json.read?_render (by decide)
  refine ⟨hpresents, parse?_of_presents hpresents (by decide), by decide, ?_⟩
  rw [parse?, hread]
  rfl

end Header

end Understudy
