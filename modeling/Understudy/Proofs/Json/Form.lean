import Mathlib.Data.List.Nodup
import Understudy.Header.Decode
import Understudy.Proofs.Json.RoundTrip

/-! # Ways to present a value

What is written as an object may be presented in other ways too: its members in another order,
without those that hold their default, and with further members of names that mean nothing there. A
form is a value together with what may be done to each of its objects. Whatever is done, the members
that are looked up afterwards are those of the form or their defaults.
-/

namespace Understudy.Json

/-- A member of an object, and the default that its absence stands for, if it may be absent. -/
structure Slot (Form : Type) where
  name : String
  default? : Option Json
  form : Form

/-- A value in whose objects the members are known. -/
inductive Form where
  /-- A value that is presented in one way only. -/
  | fixed (value : Json)
  | list (items : List Form)
  | record (slots : List (Slot Form))

namespace Slot

variable (name : String)

def required (form : Form) : Slot Form := ⟨name, none, form⟩

def optional (default : Json) (form : Form) : Slot Form := ⟨name, some default, form⟩

/-- A truth value that is false by default. -/
def flag (value : Bool) : Slot Form := optional name (.bool false) (.fixed (.bool value))

@[simp] theorem required_name (form : Form) : (required name form).name = name := rfl

@[simp] theorem optional_name (default : Json) (form : Form) :
    (optional name default form).name = name := rfl

@[simp] theorem flag_name (value : Bool) : (flag name value).name = name := rfl

end Slot

namespace Form

mutual

/-- The value with all members written out in their order. -/
def full : Form → Json
  | fixed value => value
  | list items => array (fullItems items)
  | record slots => object (fullMembers slots)

def fullItems : List Form → List Json
  | [] => []
  | item :: items => full item :: fullItems items

def fullMembers : List (Slot Form) → List (String × Json)
  | [] => []
  | ⟨name, _, form⟩ :: slots => (name, full form) :: fullMembers slots

end

mutual

/-- How a value may be presented. -/
inductive Presents : Form → Json → Prop
  | fixed (value : Json) : Presents (.fixed value) value
  | list {items : List Form} {values : List Json} (h : PresentsAll items values) :
      Presents (.list items) (.array values)
  /-- Members that are given and members that are added, in any order. An added one has a name that
  is not known for this object, and is a string. -/
  | record {slots : List (Slot Form)} {given added members : List (String × Json)}
      (hgiven : Gives slots given)
      (hadded : ∀ member ∈ added, member.1 ∉ slots.map Slot.name ∧
        ∃ text, member.2 = .string text)
      (hmembers : members.Perm (given ++ added)) : Presents (.record slots) (.object members)

inductive PresentsAll : List Form → List Json → Prop
  | nil : PresentsAll [] []
  | cons {form : Form} {value : Json} {forms : List Form} {values : List Json}
      (hvalue : Presents form value) (hvalues : PresentsAll forms values) :
      PresentsAll (form :: forms) (value :: values)

/-- How the known members of an object may be given. One that holds its default may be dropped. -/
inductive Gives : List (Slot Form) → List (String × Json) → Prop
  | nil : Gives [] []
  | keep {slot : Slot Form} {value : Json} {slots : List (Slot Form)}
      {given : List (String × Json)} (hvalue : Presents slot.form value)
      (hgiven : Gives slots given) : Gives (slot :: slots) ((slot.name, value) :: given)
  | drop {slot : Slot Form} {slots : List (Slot Form)} {given : List (String × Json)}
      (hdefault : slot.default? = some slot.form.full) (hgiven : Gives slots given) :
      Gives (slot :: slots) given

end

/-- A form is given by what it holds. -/
theorem nestedInduction {motive : Form → Prop} (fixed : ∀ value, motive (fixed value))
    (list : ∀ items, (∀ item ∈ items, motive item) → motive (list items))
    (record : ∀ slots, (∀ slot ∈ slots, motive slot.form) → motive (record slots))
    (form : Form) : motive form :=
  @Form.rec motive (fun items => ∀ item ∈ items, motive item)
    (fun slots => ∀ slot ∈ slots, motive slot.form) (fun slot => motive slot.form)
    fixed list record
    (List.forall_mem_nil motive)
    (fun _ _ hitem hitems => List.forall_mem_cons.mpr ⟨hitem, hitems⟩)
    (List.forall_mem_nil _)
    (fun _ _ hslot hslots => List.forall_mem_cons.mpr ⟨hslot, hslots⟩)
    (fun _ _ _ hform => hform)
    form

theorem fullItems_eq_map (items : List Form) : fullItems items = items.map full := by
  induction items with
  | nil => rfl
  | cons item items ih => rw [fullItems, ih, List.map_cons]

theorem fullMembers_eq_map (slots : List (Slot Form)) :
    fullMembers slots = slots.map fun slot => (slot.name, slot.form.full) := by
  induction slots with
  | nil => rfl
  | cons slot slots ih => rw [fullMembers, ih, List.map_cons]

@[simp] theorem full_fixed (value : Json) : (fixed value).full = value := rfl

@[simp] theorem full_list (items : List Form) : (list items).full = array (items.map full) := by
  rw [full, fullItems_eq_map]

@[simp] theorem full_record (slots : List (Slot Form)) :
    (record slots).full = object (slots.map fun slot => (slot.name, slot.form.full)) := by
  rw [full, fullMembers_eq_map]

theorem presentsAll_full {items : List Form} (h : ∀ item ∈ items, item.Presents item.full) :
    PresentsAll items (items.map full) := by
  induction items with
  | nil => exact .nil
  | cons item items ih =>
      rw [List.forall_mem_cons] at h
      exact .cons h.1 (ih h.2)

theorem gives_full {slots : List (Slot Form)}
    (h : ∀ slot ∈ slots, slot.form.Presents slot.form.full) :
    Gives slots (slots.map fun slot => (slot.name, slot.form.full)) := by
  induction slots with
  | nil => exact .nil
  | cons slot slots ih =>
      rw [List.forall_mem_cons] at h
      exact .keep h.1 (ih h.2)

/-- A value may be presented with all members in their order. -/
theorem presents_full (form : Form) : form.Presents form.full := by
  induction form using nestedInduction with
  | fixed value => exact .fixed value
  | list items ih =>
      rw [full_list]
      exact .list (presentsAll_full ih)
  | record slots ih =>
      rw [full_record]
      exact .record (gives_full ih) (List.forall_mem_nil _) (by rw [List.append_nil])

/-! ## Soundness -/

theorem isSound_of_presentsAll {items : List Form} {values : List Json}
    (h : PresentsAll items values)
    (ih : ∀ item ∈ items, ∀ value, item.Presents value → item.full.isSound = true →
      value.isSound = true)
    (hsound : ∀ item ∈ items, item.full.isSound = true) :
    ∀ value ∈ values, value.isSound = true := by
  induction items generalizing values with
  | nil =>
      cases h
      exact List.forall_mem_nil _
  | cons item items hitems =>
      rw [List.forall_mem_cons] at ih hsound
      cases h with
      | cons hvalue hvalues =>
          exact List.forall_mem_cons.mpr
            ⟨ih.1 _ hvalue hsound.1, hitems hvalues ih.2 hsound.2⟩

theorem isSound_of_gives {slots : List (Slot Form)} {given : List (String × Json)}
    (h : Gives slots given)
    (ih : ∀ slot ∈ slots, ∀ value, slot.form.Presents value → slot.form.full.isSound = true →
      value.isSound = true)
    (hsound : ∀ slot ∈ slots, slot.form.full.isSound = true) :
    ∀ member ∈ given, member.2.isSound = true := by
  induction slots generalizing given with
  | nil =>
      cases h
      exact List.forall_mem_nil _
  | cons slot slots hslots =>
      rw [List.forall_mem_cons] at ih hsound
      cases h with
      | keep hvalue hgiven =>
          exact List.forall_mem_cons.mpr
            ⟨ih.1 _ hvalue hsound.1, hslots hgiven ih.2 hsound.2⟩
      | drop _ hgiven => exact hslots hgiven ih.2 hsound.2

/-- What is done to the objects of a sound value leaves it sound. -/
theorem isSound_of_presents {form : Form} {value : Json} (h : form.Presents value)
    (hsound : form.full.isSound = true) : value.isSound = true := by
  induction form using nestedInduction generalizing value with
  | fixed => cases h; exact hsound
  | list items ih =>
      cases h with
      | list hvalues =>
          rw [full_list, isSound_array_iff, List.forall_mem_map] at hsound
          exact isSound_array_iff.mpr
            (isSound_of_presentsAll hvalues (fun item hitem _ => ih item hitem) hsound)
  | record slots ih =>
      cases h with
      | record hgiven hadded hmembers =>
          rw [full_record, isSound_object_iff, List.forall_mem_map] at hsound
          have hsoundGiven := isSound_of_gives hgiven (fun slot hslot _ => ih slot hslot) hsound
          refine isSound_object_iff.mpr fun member hmember => ?_
          rcases List.mem_append.mp (hmembers.mem_iff.mp hmember) with hmem | hmem
          · exact hsoundGiven member hmem
          · obtain ⟨-, text, htext⟩ := hadded member hmem
            rw [htext]
            rfl

end Form

/-! ## Nesting -/

theorem isWithin_array_iff {items : List Json} {limit : Nat} :
    (array items).isWithin limit = true ↔
      0 < limit ∧ ∀ item ∈ items, item.isWithin (limit - 1) = true := by
  have hall (limit : Nat) : allWithin limit items = true ↔
      ∀ item ∈ items, item.isWithin limit = true := by
    induction items with
    | nil => simp [allWithin]
    | cons item items ih => rw [allWithin, Bool.and_eq_true, ih, List.forall_mem_cons]
  cases limit with
  | zero => simp [isWithin]
  | succ limit => simp [isWithin, hall]

theorem isWithin_object_iff {members : List (String × Json)} {limit : Nat} :
    (object members).isWithin limit = true ↔
      0 < limit ∧ ∀ member ∈ members, member.2.isWithin (limit - 1) = true := by
  have hall (limit : Nat) : allMembersWithin limit members = true ↔
      ∀ member ∈ members, member.2.isWithin limit = true := by
    induction members with
    | nil => simp [allMembersWithin]
    | cons member members ih =>
        rw [allMembersWithin, Bool.and_eq_true, ih, List.forall_mem_cons]
  cases limit with
  | zero => simp [isWithin]
  | succ limit => simp [isWithin, hall]

theorem isWithin_mono {v : Json} {m n : Nat} (h : v.isWithin m = true) (hle : m ≤ n) :
    v.isWithin n = true := by
  induction v using nestedInduction generalizing m n with
  | array items ih =>
      rw [isWithin_array_iff] at h ⊢
      exact ⟨h.1.trans_le hle, fun item hitem =>
        ih item hitem (h.2 item hitem) (Nat.sub_le_sub_right hle 1)⟩
  | object members ih =>
      rw [isWithin_object_iff] at h ⊢
      exact ⟨h.1.trans_le hle, fun member hmember =>
        ih member hmember (h.2 member hmember) (Nat.sub_le_sub_right hle 1)⟩
  | null | bool | number | string | garbled => rfl

/-! ## Looking members up -/

/-- What is found of a member: a value that its form may be presented as, with `limit` arrays and
objects in each other at most, or nothing where its default is meant. -/
def Slot.Found (known : List (String × Json)) (limit : Nat) (slot : Slot Form) : Prop :=
  (∃ value, known.lookup slot.name = some value ∧ slot.form.Presents value ∧
      value.isWithin limit = true) ∨
    known.lookup slot.name = none ∧ slot.default? = some slot.form.full

theorem lookup_eq_some_of_mem {members : List (String × Json)} {member : String × Json}
    (hnodup : (members.map Prod.fst).Nodup) (h : member ∈ members) :
    members.lookup member.1 = some member.2 := by
  induction members with
  | nil => cases h
  | cons first members ih =>
      rw [List.map_cons, List.nodup_cons] at hnodup
      rcases List.mem_cons.mp h with rfl | hmem
      · exact List.lookup_cons_self
      · have hne : (member.1 == first.1) = false := by
          rw [beq_eq_false_iff_ne]
          intro heq
          exact hnodup.1 (heq ▸ List.mem_map_of_mem hmem)
        rw [List.lookup_cons, hne]
        exact ih hnodup.2 hmem

theorem lookup_eq_none_of_notMem {members : List (String × Json)} {name : String}
    (h : name ∉ members.map Prod.fst) : members.lookup name = none := by
  rw [List.lookup_eq_none_iff]
  intro member hmem
  rw [bne_iff_ne]
  rintro rfl
  exact h (List.mem_map_of_mem hmem)

namespace Form

theorem sublist_of_gives {slots : List (Slot Form)} {given : List (String × Json)}
    (h : Gives slots given) : (given.map Prod.fst).Sublist (slots.map Slot.name) := by
  induction slots generalizing given with
  | nil =>
      cases h
      exact List.Sublist.slnil
  | cons slot slots ih =>
      cases h with
      | keep _ hgiven => exact (ih hgiven).cons_cons _
      | drop _ hgiven => exact (ih hgiven).cons _

theorem given_or_default {slots : List (Slot Form)} {given : List (String × Json)}
    (h : Gives slots given) (hnodup : (slots.map Slot.name).Nodup) :
    ∀ slot ∈ slots, (∃ value, (slot.name, value) ∈ given ∧ slot.form.Presents value) ∨
      slot.name ∉ given.map Prod.fst ∧ slot.default? = some slot.form.full := by
  induction slots generalizing given with
  | nil => exact List.forall_mem_nil _
  | cons slot slots ih =>
      rw [List.map_cons, List.nodup_cons] at hnodup
      cases h with
      | @keep _ value _ given hvalue hgiven =>
          refine List.forall_mem_cons.mpr ⟨.inl ⟨value, List.mem_cons_self, hvalue⟩, ?_⟩
          intro other hother
          refine (ih hgiven hnodup.2 other hother).imp ?_ ?_
          · rintro ⟨found, hmem, hfound⟩
            exact ⟨found, List.mem_cons_of_mem _ hmem, hfound⟩
          · rintro ⟨hnot, hdefault⟩
            refine ⟨?_, hdefault⟩
            rw [List.map_cons, List.mem_cons, not_or]
            exact ⟨fun heq => hnodup.1 (List.mem_map.mpr ⟨other, hother, heq⟩), hnot⟩
      | drop hdefault hgiven =>
          refine List.forall_mem_cons.mpr ⟨.inr ⟨fun hmem => ?_, hdefault⟩, ih hgiven hnodup.2⟩
          exact hnodup.1 ((sublist_of_gives hgiven).subset hmem)

/-- Of an object the known members are taken, and each is found, one level deeper, or stands for its
default. -/
theorem exists_record?_of_presents {slots : List (Slot Form)} {value : Json} {limit : Nat}
    (h : (record slots).Presents value) (hnodup : (slots.map Slot.name).Nodup)
    (hlimit : value.isWithin limit = true) :
    ∃ inner known, limit = inner + 1 ∧ record? (slots.map Slot.name) value = some known ∧
      ∀ slot ∈ slots, slot.Found known inner := by
  cases h with
  | @record _ given added members hgiven hadded hmembers =>
      obtain ⟨hpos, hwithin⟩ := isWithin_object_iff.mp hlimit
      have hnames := sublist_of_gives hgiven
      -- No added member has a known name, so the known members are those that are given.
      have hknown : (members.filter (·.1 ∈ slots.map Slot.name)).Perm given := by
        have hfiltered := hmembers.filter (·.1 ∈ slots.map Slot.name)
        have hkept : given.filter (·.1 ∈ slots.map Slot.name) = given :=
          List.filter_eq_self.mpr fun member hmember =>
            decide_eq_true (hnames.subset (List.mem_map_of_mem hmember))
        have hdropped : added.filter (·.1 ∈ slots.map Slot.name) = [] :=
          List.filter_eq_nil_iff.mpr fun member hmember =>
            decide_eq_true_iff.not.mpr (hadded member hmember).1
        rwa [List.filter_append, hkept, hdropped, List.append_nil] at hfiltered
      have hdistinct := (hknown.map Prod.fst).nodup_iff.mpr (hnames.nodup hnodup)
      refine ⟨limit - 1, _, (Nat.sub_add_cancel hpos).symm, if_pos hdistinct, fun slot hslot => ?_⟩
      rcases given_or_default hgiven hnodup slot hslot with ⟨value, hmem, hvalue⟩ | ⟨hnot, hdefault⟩
      · have hfound := hknown.mem_iff.mpr hmem
        exact .inl ⟨value, lookup_eq_some_of_mem hdistinct hfound, hvalue,
          hwithin _ (List.mem_of_mem_filter hfound)⟩
      · rw [← (hknown.map Prod.fst).mem_iff] at hnot
        exact .inr ⟨lookup_eq_none_of_notMem hnot, hdefault⟩

/-- A member that must be given is found once under its name, and the other members present the
rest of the object. -/
theorem exists_first_of_presents {slot : Slot Form} {slots : List (Slot Form)} {value : Json}
    (h : (record (slot :: slots)).Presents value) (hrequired : slot.default? = none)
    (hname : slot.name ∉ slots.map Slot.name) :
    ∃ members first, value = .object members ∧ slot.form.Presents first ∧
      members.filter (·.1 = slot.name) = [(slot.name, first)] ∧
      (record slots).Presents (.object (members.filter fun member => ¬ member.1 = slot.name)) := by
  cases h with
  | @record _ given added members hgiven hadded hmembers =>
      cases hgiven with
      | drop hdefault =>
          rw [hrequired] at hdefault
          cases hdefault
      | @keep _ first _ given hfirst hgiven =>
          simp only [List.map_cons, List.mem_cons, not_or] at hadded
          have hothers : ∀ member ∈ given ++ added, member.1 ≠ slot.name := by
            intro member hmember
            rcases List.mem_append.mp hmember with hmem | hmem
            · intro heq
              exact hname (heq ▸ (sublist_of_gives hgiven).subset (List.mem_map_of_mem hmem))
            · exact (hadded member hmem).1.1
          refine ⟨members, first, rfl, hfirst, ?_, ?_⟩
          · refine List.perm_singleton.mp ((hmembers.filter _).trans ?_)
            rw [List.cons_append, List.filter_cons_of_pos (by simp),
              List.filter_eq_nil_iff.mpr fun member hmember => by simp [hothers member hmember]]
          · refine .record hgiven (fun member hmember => ⟨(hadded member hmember).1.2,
              (hadded member hmember).2⟩) ((hmembers.filter _).trans ?_)
            rw [List.cons_append, List.filter_cons_of_neg (by simp),
              List.filter_eq_self.mpr fun member hmember => by simp [hothers member hmember]]

end Form

variable {α : Type} {known : List (String × Json)} {limit : Nat} {slot : Slot Form}

/-- A member that must be given is read. -/
theorem required?_of_found {decode : Json → Option α} {x : α} (h : slot.Found known limit)
    (hrequired : slot.default? = none)
    (hdecode : ∀ value, slot.form.Presents value → value.isWithin limit = true →
      decode value = some x) : required? known slot.name decode = some x := by
  rcases h with ⟨value, hlookup, hvalue, hwithin⟩ | ⟨-, hdefault⟩
  · rw [required?, hlookup]
    exact hdecode value hvalue hwithin
  · rw [hrequired] at hdefault
    cases hdefault

/-- A member with a default is read, or what is meant is the default. -/
theorem optional?_of_found {decode : Json → Option α} {x default : α}
    (h : slot.Found known limit) (hdefault : slot.default? = some slot.form.full → default = x)
    (hdecode : ∀ value, slot.form.Presents value → value.isWithin limit = true →
      decode value = some x) : optional? known slot.name default decode = some x := by
  rcases h with ⟨value, hlookup, hvalue, hwithin⟩ | ⟨hlookup, hmeant⟩
  · rw [optional?, hlookup]
    exact hdecode value hvalue hwithin
  · rw [optional?, hlookup]
    exact congrArg some (hdefault hmeant)

theorem mapM_of_presentsAll {items : List α} {form : α → Form} {decode : Json → Option α}
    {values : List Json} (h : Form.PresentsAll (items.map form) values)
    (hdecode : ∀ item ∈ items, ∀ value ∈ values, (form item).Presents value →
      decode value = some item) : values.mapM decode = some items := by
  induction items generalizing values with
  | nil =>
      cases h
      rfl
  | cons item items ih =>
      rw [List.forall_mem_cons] at hdecode
      cases h with
      | @cons _ value _ values hvalue hvalues =>
          have hrest := ih hvalues fun item hitem other hother =>
            hdecode.2 item hitem other (List.mem_cons_of_mem value hother)
          simp [List.mapM_cons, hdecode.1 value List.mem_cons_self hvalue, hrest]

/-- A list is read when its items are. -/
theorem list?_of_presents {items : List α} {form : α → Form} {decode : Json → Option α}
    {value : Json} (h : (Form.list (items.map form)).Presents value)
    (hlimit : value.isWithin limit = true)
    (hdecode : ∀ item ∈ items, ∀ value, (form item).Presents value →
      value.isWithin (limit - 1) = true → decode value = some item) :
    list? decode value = some items := by
  cases h with
  | list hvalues =>
      have hwithin := (isWithin_array_iff.mp hlimit).2
      exact mapM_of_presentsAll hvalues fun item hitem value hvalue hpresents =>
        hdecode item hitem value hpresents (hwithin value hvalue)

/-- Reading goes on with what has been read. -/
theorem bind_eq_some_of_eq {β : Type} {read? : Option α} {next : α → Option β} {x : α} {y : β}
    (h : read? = some x) (hnext : next x = some y) : read?.bind next = some y := by
  rw [h]
  exact hnext

/-! What is read of the kinds of members that the objects of a header have. -/

theorem required?_of_fixed {decode : Json → Option α} {name : String} {value : Json} {x : α}
    (h : (Slot.required name (.fixed value)).Found known limit)
    (hdecode : decode value = some x) : required? known name decode = some x :=
  required?_of_found h rfl fun _ hvalue _ => by
    cases hvalue
    exact hdecode

theorem required?_of_string {name text : String}
    (h : (Slot.required name (.fixed (.string text))).Found known limit) :
    required? known name string? = some text :=
  required?_of_fixed h rfl

theorem optional?_of_fixed {decode : Json → Option α} {name : String} {value default : Json}
    {x meant : α} (h : (Slot.optional name default (.fixed value)).Found known limit)
    (hdefault : default = value → meant = x) (hdecode : decode value = some x) :
    optional? known name meant decode = some x :=
  optional?_of_found h (fun heq => hdefault (Option.some.inj heq)) fun _ hvalue _ => by
    cases hvalue
    exact hdecode

theorem optional?_of_bool {name : String} {default value : Bool}
    (h : (Slot.optional name (.bool default) (.fixed (.bool value))).Found known limit) :
    optional? known name default bool? = some value :=
  optional?_of_fixed h Json.bool.inj rfl

theorem optional?_of_string {name default text : String}
    (h : (Slot.optional name (.string default) (.fixed (.string text))).Found known limit) :
    optional? known name default string? = some text :=
  optional?_of_fixed h Json.string.inj rfl

theorem optional?_of_list {items : List α} {form : α → Form} {decode : Json → Option α}
    {name : String}
    (h : (Slot.optional name (.array []) (.list (items.map form))).Found known limit)
    (hdecode : ∀ item ∈ items, ∀ value, (form item).Presents value →
      value.isWithin (limit - 1) = true → decode value = some item) :
    optional? known name [] (list? decode) = some items := by
  refine optional?_of_found h (fun heq => ?_) fun _ hvalue hwithin =>
    list?_of_presents hvalue hwithin hdecode
  have hnil : Json.array [] = .array ((items.map form).map Form.full) :=
    (Option.some.inj heq).trans (Form.full_list _)
  rw [Json.array.injEq, eq_comm, List.map_eq_nil_iff, List.map_eq_nil_iff] at hnil
  exact hnil.symm

end Understudy.Json
