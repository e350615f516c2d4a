import Understudy.Proofs.Json.Token

/-! # Values are read back

Running the reader over the text of a sound value ends in that value, whatever is open around it
and whatever comes after. So the text of a value is read as this value and no other.
-/

namespace Understudy.Json

/-- A value is given by what it holds. -/
theorem nestedInduction {motive : Json → Prop} (null : motive null)
    (bool : ∀ value, motive (bool value)) (number : ∀ literal, motive (number literal))
    (string : ∀ text, motive (string text))
    (array : ∀ items, (∀ item ∈ items, motive item) → motive (array items))
    (object : ∀ members, (∀ member ∈ members, motive member.2) → motive (object members))
    (garbled : motive garbled) (value : Json) : motive value :=
  @Json.rec motive (fun items => ∀ item ∈ items, motive item)
    (fun members => ∀ member ∈ members, motive member.2) (fun member => motive member.2)
    null bool number string array object garbled
    (List.forall_mem_nil motive)
    (fun _ _ hitem hitems => List.forall_mem_cons.mpr ⟨hitem, hitems⟩)
    (List.forall_mem_nil _)
    (fun _ _ hmember hmembers => List.forall_mem_cons.mpr ⟨hmember, hmembers⟩)
    (fun _ _ hvalue => hvalue)
    value

/-! ## Soundness -/

@[simp] theorem isSound_bool (value : Bool) : (bool value).isSound = true := rfl

@[simp] theorem isSound_string (text : String) : (string text).isSound = true := rfl

theorem isSound_array_iff {items : List Json} :
    (array items).isSound = true ↔ ∀ item ∈ items, item.isSound = true := by
  rw [isSound]
  induction items with
  | nil => simp [allSound]
  | cons item items ih => rw [allSound, Bool.and_eq_true, ih, List.forall_mem_cons]

theorem isSound_object_iff {members : List (String × Json)} :
    (object members).isSound = true ↔ ∀ member ∈ members, member.2.isSound = true := by
  rw [isSound]
  induction members with
  | nil => simp [allMembersSound]
  | cons member members ih => rw [allMembersSound, Bool.and_eq_true, ih, List.forall_mem_cons]

/-! ## Texts -/

theorem toList_intercalate_cons (first : String) (texts : List String) :
    (String.intercalate "," (first :: texts)).toList =
      first.toList ++ texts.flatMap fun text => ',' :: text.toList := by
  rw [String.toList_intercalate]
  induction texts generalizing first with
  | nil => simp
  | cons text texts ih =>
      rw [List.map_cons, List.map_cons, List.intercalate_cons_cons, ← List.map_cons, ih]
      simp

theorem renderItems_eq_map (items : List Json) : renderItems items = items.map render := by
  induction items with
  | nil => rfl
  | cons item items ih => rw [renderItems, ih, List.map_cons]

/-- The text of a member. -/
def renderMember (member : String × Json) : String :=
  quote member.1 ++ ":" ++ render member.2

theorem renderMembers_eq_map (members : List (String × Json)) :
    renderMembers members = members.map renderMember := by
  induction members with
  | nil => rfl
  | cons member members ih => rw [renderMembers, ih, List.map_cons, renderMember]

theorem toList_render_array (items : List Json) :
    (array items).render.toList =
      '[' :: (String.intercalate "," (items.map render)).toList ++ [']'] := by
  rw [render, renderItems_eq_map]
  simp

theorem toList_render_object (members : List (String × Json)) :
    (object members).render.toList =
      '\x7b' :: (String.intercalate "," (members.map renderMember)).toList ++ ['\x7d'] := by
  rw [render, renderMembers_eq_map]
  simp

namespace Reader

/-- Reads a text to its end. -/
def run? (reader : Reader) (text : List Char) : Option Reader :=
  (Token.scan [] text).bind fun tokens => tokens.foldlM step? reader

variable {reader : Reader} {frames : List Frame} {rest : List Char}

theorem run?_of_first? {c : Char} {text : List Char} {token : Token}
    (hblank : Token.isBlank c = false) (hfirst : Token.first? (c :: text) = some (token, rest)) :
    reader.run? (c :: text) = (reader.step? token).bind (·.run? rest) := by
  rw [run?, Token.scan_of_first? hblank hfirst, Token.scan_eq_map, Option.bind_map]
  simp only [run?]
  cases Token.scan [] rest with
  | none => cases reader.step? token <;> rfl
  | some tokens => rfl

/-- Whether a value that begins now stands inside the given frames. -/
def Begins (reader : Reader) (frames : List Frame) : Prop :=
  ∀ token ≠ .closeArray, reader.step? token = start? frames token

theorem begins_wantValue (frames : List Frame) : (wantValue frames).Begins frames :=
  fun _ _ => rfl

theorem begins_wantItem (frames : List Frame) : (wantItem frames).Begins (.array [] :: frames) := by
  intro token htoken
  cases token with
  | closeArray => exact absurd rfl htoken
  | _ => rfl

/-- Whether the text of a value is read as that value, wherever it stands. -/
def Reads (v : Json) : Prop :=
  ∀ (reader : Reader) (frames : List Frame) (rest : List Char), reader.Begins frames →
    Token.Stops rest → reader.run? (v.render.toList ++ rest) = (ended frames v).run? rest

theorem reads_null : Reads .null := by
  intro reader frames rest hbegins _
  change reader.run? ('n' :: 'u' :: 'l' :: 'l' :: rest) = _
  rw [run?_of_first? rfl rfl, hbegins _ (by decide)]
  rfl

theorem reads_bool (value : Bool) : Reads (.bool value) := by
  intro reader frames rest hbegins _
  cases value with
  | true =>
      change reader.run? ('t' :: 'r' :: 'u' :: 'e' :: rest) = _
      rw [run?_of_first? rfl rfl, hbegins _ (by decide)]
      rfl
  | false =>
      change reader.run? ('f' :: 'a' :: 'l' :: 's' :: 'e' :: rest) = _
      rw [run?_of_first? rfl rfl, hbegins _ (by decide)]
      rfl

/-- A string is read as one token. -/
theorem run?_quote (reader : Reader) (text : String) (rest : List Char) :
    reader.run? ((quote text).toList ++ rest) =
      (reader.step? (.string (some text))).bind (·.run? rest) := by
  have hfirst := Token.first?_quote text rest
  have hquote : (quote text).toList = '"' :: (text.toList.flatMap escape ++ ['"']) := by
    simp [quote]
  rw [hquote, List.cons_append] at hfirst ⊢
  exact run?_of_first? rfl hfirst

theorem reads_string (text : String) : Reads (.string text) := by
  intro reader frames rest hbegins _
  rw [render, run?_quote, hbegins _ (by simp)]
  rfl

theorem reads_number {literal : String} (h : (number literal).isSound = true) :
    Reads (.number literal) := by
  intro reader frames rest hbegins hrest
  obtain ⟨n, hparse⟩ : ∃ n, Numeral.parse? literal.toList = some n := by
    rw [isSound] at h
    cases hparse : Numeral.parse? literal.toList with
    | none =>
        rw [hparse] at h
        cases h
    | some n => exact ⟨n, rfl⟩
  have hfirst := Token.first?_number hparse hrest
  obtain ⟨c, tail, hliteral, hc, -⟩ := Numeral.exists_cons_of_parse? hparse
  rw [hliteral, List.cons_append] at hfirst
  rw [render, hliteral, List.cons_append,
    run?_of_first? (Token.isBlank_of_begins hc) hfirst, hbegins _ (by simp)]
  rfl

/-- Goes on with the items after a value. -/
theorem run?_items (done items : List Json) (v : Json) (rest : List Char)
    (hitems : ∀ item ∈ items, Reads item) :
    (ended (.array done :: frames) v).run?
        ((items.map render).flatMap (fun text => ',' :: text.toList) ++ ']' :: rest) =
      (ended frames (.array (done.reverse ++ v :: items))).run? rest := by
  induction items generalizing done v with
  | nil =>
      rw [List.map_nil, List.flatMap_nil, List.nil_append, run?_of_first? rfl rfl, step?]
      simp
  | cons item items ih =>
      rw [List.forall_mem_cons] at hitems
      rw [List.map_cons, List.flatMap_cons, List.cons_append, List.cons_append,
        run?_of_first? rfl rfl, step?, Option.bind_some, List.append_assoc,
        hitems.1 _ _ _ (begins_wantValue _) (Token.stops_flatMap _ rfl), ih _ _ hitems.2]
      simp

theorem reads_array {items : List Json} (hitems : ∀ item ∈ items, Reads item) :
    Reads (.array items) := by
  intro reader frames rest hbegins _
  rw [toList_render_array, List.cons_append, List.cons_append, run?_of_first? rfl rfl,
    hbegins _ (by decide), start?, Option.bind_some]
  cases items with
  | nil =>
      change (wantItem frames).run? (']' :: rest) = _
      rw [run?_of_first? rfl rfl, step?, Option.bind_some]
  | cons item items =>
      rw [List.forall_mem_cons] at hitems
      -- Where the first item stands the list may also end, unlike after a comma.
      rw [List.map_cons, toList_intercalate_cons, List.append_assoc, List.append_assoc,
        List.singleton_append,
        hitems.1 _ _ _ (begins_wantItem frames) (Token.stops_flatMap _ rfl),
        run?_items [] items item rest hitems.2]
      rfl

/-- Reads a member of an object, up to the end of its value. -/
theorem run?_member {member : String × Json} (hmember : Reads member.2)
    (members : List OpenMember) (mayClose : Bool) (hrest : Token.Stops rest) :
    (wantName frames members mayClose).run? ((renderMember member).toList ++ rest) =
      (ended (.object members (some member.1) :: frames) member.2).run? rest := by
  have htext : (renderMember member).toList ++ rest =
      (quote member.1).toList ++ ':' :: (member.2.render.toList ++ rest) := by
    simp [renderMember]
  rw [htext, run?_quote, step?, Option.bind_some, run?_of_first? rfl rfl, step?, Option.bind_some,
    hmember _ _ _ (begins_wantValue _) hrest]

/-- Goes on with the members after a value. -/
theorem run?_members (done : List OpenMember) (name : String) (v : Json)
    (members : List (String × Json)) (rest : List Char)
    (hmembers : ∀ member ∈ members, Reads member.2) :
    (ended (.object done (some name) :: frames) v).run?
        ((members.map renderMember).flatMap (fun text => ',' :: text.toList) ++ '\x7d' :: rest) =
      (ended frames (ofOpenMembers
        ((members.map fun member => (some member.1, member.2)).reverse ++
          (some name, v) :: done))).run? rest := by
  induction members generalizing done name v with
  | nil =>
      rw [List.map_nil, List.flatMap_nil, List.nil_append, run?_of_first? rfl rfl, step?]
      rfl
  | cons member members ih =>
      rw [List.forall_mem_cons] at hmembers
      rw [List.map_cons, List.flatMap_cons, List.cons_append, List.cons_append,
        run?_of_first? rfl rfl, step?, Option.bind_some, List.append_assoc,
        run?_member hmembers.1 _ _ (Token.stops_flatMap _ rfl), ih _ _ _ hmembers.2]
      simp

/-- An object of members whose names stand for texts. -/
theorem ofOpenMembers_reverse (members : List (String × Json)) :
    ofOpenMembers (members.map fun member => (some member.1, member.2)).reverse =
      object members := by
  have hnames : (members.map fun member => ((some member.1, member.2) : OpenMember)).mapM
      (fun (name?, value) => name?.map fun name => (name, value)) = some members := by
    induction members with
    | nil => rfl
    | cons member members ih => simp [List.mapM_cons, ih]
  rw [ofOpenMembers, List.reverse_reverse, hnames]

theorem reads_object {members : List (String × Json)}
    (hmembers : ∀ member ∈ members, Reads member.2) : Reads (.object members) := by
  intro reader frames rest hbegins _
  rw [toList_render_object, List.cons_append, List.cons_append, run?_of_first? rfl rfl,
    hbegins _ (by decide), start?, Option.bind_some]
  cases members with
  | nil =>
      change (wantName frames [] true).run? ('\x7d' :: rest) = _
      rw [run?_of_first? rfl rfl, step?, Option.bind_some]
      rfl
  | cons member members =>
      rw [List.forall_mem_cons] at hmembers
      rw [List.map_cons, toList_intercalate_cons, List.append_assoc, List.append_assoc,
        List.singleton_append, run?_member hmembers.1 _ _ (Token.stops_flatMap _ rfl),
        run?_members _ _ _ _ _ hmembers.2, ← ofOpenMembers_reverse]
      simp

theorem reads_of_isSound {v : Json} (h : v.isSound = true) : Reads v := by
  induction v using nestedInduction with
  | null => exact reads_null
  | bool value => exact reads_bool value
  | number literal => exact reads_number h
  | string text => exact reads_string text
  | array items ih =>
      exact reads_array fun item hitem => ih item hitem (isSound_array_iff.mp h item hitem)
  | object members ih =>
      exact reads_object fun member hmember =>
        ih member hmember (isSound_object_iff.mp h member hmember)
  | garbled => cases h

end Reader

/-- The text of a sound value is read as that value. -/
theorem read?_render {v : Json} (h : v.isSound = true) : read? v.render = some v := by
  have hrun := Reader.reads_of_isSound h _ _ [] (Reader.begins_wantValue []) Token.stops_nil
  rw [List.append_nil] at hrun
  have hread : read? v.render =
      ((Reader.wantValue []).run? v.render.toList).bind Reader.value? := by
    rw [read?, Reader.run?, Option.bind_assoc]
    rfl
  rw [hread, hrun, Reader.run?, Token.scan]
  rfl

end Understudy.Json
