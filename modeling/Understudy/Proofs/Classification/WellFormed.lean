import Understudy.Mock
import Understudy.Proofs.Classification.Result
import Understudy.Proofs.Rule.WellFormed

/-! # Well-formed classifications

A classification combines a way of passing, a length, a copier, a modifier and an origin, and not
every combination makes sense. An output has a length or a copier and a compared buffer has a
length, which each way of passing says by itself. The length of a buffer is counted from its type or
given by a rule. A comparator, a copier or an expression is named only where a rule names it. Only
addresses are exchanged in place of a returned value, and the heuristics do so exactly where the
mock reads the value through a pointer.

The law holds of whatever rules a text can give, so it is carried from the reading of a rule to the
call of the mock.
-/

namespace Understudy

/-- Where the length of an output or of a buffer comes from. -/
inductive LengthSource where
  /-- Counted from the declared type. -/
  | counted (bytes : ByteCount)
  /-- Computed in the mock from an expression. -/
  | given (expression : String)
  /-- Given with the expectation. -/
  | caller
  deriving DecidableEq, Repr

namespace Passing

def length? : Passing → Option LengthSource
  | output (some bytes) => some (.counted bytes)
  | output none => some .caller
  | memoryBuffer (.counted bytes) => some (.counted bytes)
  | memoryBuffer (.given expression) => some (.given expression)
  | scalar _ | copiedOutput _ | object _ | skip => none

def copier? : Passing → Option String
  | copiedOutput tag => some tag
  | scalar _ | output _ | memoryBuffer _ | object _ | skip => none

def isOutput : Passing → Bool
  | output _ | copiedOutput _ => true
  | scalar _ | memoryBuffer _ | object _ | skip => false

def isMemoryBuffer : Passing → Bool
  | memoryBuffer _ => true
  | scalar _ | output _ | copiedOutput _ | object _ | skip => false

/-- Whether a type alone can ask for the passing: it names no comparator, copier or expression. -/
def isFromType : Passing → Bool
  | scalar _ | output _ | memoryBuffer (.counted _) | skip => true
  | copiedOutput _ | memoryBuffer (.given _) | object _ => false

variable {passing : Passing}

/-- A buffer has a length, an output has one unless it has a copier, and nothing else has one. -/
theorem isSome_length?_iff :
    passing.length?.isSome = true ↔
      passing.isMemoryBuffer = true ∨ passing.isOutput = true ∧ passing.copier? = none := by
  cases passing with
  | output size? => cases size? <;> simp [length?, isOutput, copier?]
  | memoryBuffer length => cases length <;> simp [length?, isMemoryBuffer]
  | scalar | copiedOutput | object | skip => simp [length?, isMemoryBuffer, isOutput, copier?]

/-- How lengths, outputs and copiers go together, whatever the rest of the classification is. -/
structure WellFormed (passing : Passing) : Prop where
  length_iff_of_output : passing.isOutput = true →
    (passing.length?.isSome = true ↔ passing.copier? = none)
  output_of_copier : passing.copier?.isSome = true → passing.isOutput = true
  output_or_buffer_of_length : passing.length?.isSome = true →
    passing.isOutput = true ∨ passing.isMemoryBuffer = true

theorem wellFormed (passing : Passing) : passing.WellFormed where
  length_iff_of_output := by
    intro houtput
    rw [isSome_length?_iff]
    constructor
    · rintro (hmemory | ⟨-, hcopier⟩)
      · cases passing <;> cases houtput <;> cases hmemory
      · exact hcopier
    · exact fun hcopier => .inr ⟨houtput, hcopier⟩
  output_of_copier := by
    intro h
    cases passing with
    | copiedOutput => rfl
    | scalar | output | memoryBuffer | object | skip => cases h
  output_or_buffer_of_length := by
    intro h
    rcases isSome_length?_iff.mp h with hmemory | ⟨houtput, -⟩
    · exact .inr hmemory
    · exact .inl houtput

end Passing

namespace Modifier

/-- Whether the value is read through a pointer. -/
def Dereferences (modifier : Modifier) : Prop :=
  "* static_cast<".toList <+: modifier.front.toList

theorem not_dereferences_none : ¬ none.Dereferences := by
  simp [Dereferences, none]

theorem not_dereferences_staticCast (target : String) : ¬ (staticCast target).Dereferences := by
  rintro ⟨rest, hrest⟩
  change _ = ("static_cast<" ++ target ++ ">( ").toList at hrest
  rw [String.toList_append, String.toList_append, List.append_assoc] at hrest
  have hhead := congrArg List.head? hrest
  cases hhead

theorem dereferences_dereferencedCast (target : String) :
    (dereferencedCast target).Dereferences := by
  change _ <+: ("* static_cast<" ++ target ++ ">( ").toList
  rw [String.toList_append, String.toList_append, List.append_assoc]
  exact List.prefix_append _ _

end Modifier

namespace Classification

/-- How the passing goes together with the origin and with the exchange of addresses. -/
structure WellFormed (c : Classification) : Prop where
  /-- A buffer has a length, which the heuristics count and a rule gives. -/
  length_of_buffer : c.passing.isMemoryBuffer = true →
    (c.origin = .heuristic ∧ ∃ bytes, c.passing.length? = some (.counted bytes)) ∨
      (c.origin ≠ .heuristic ∧ ∃ expression, c.passing.length? = some (.given expression) ∧
        Text.HasContent expression.toList)
  rule_of_object : ∀ tag, c.passing = .object tag → c.origin ≠ .heuristic
  pointer_of_byAddress : c.byAddress = true →
    c.passing = .scalar .pointer ∨ c.passing = .scalar .constPointer

/-- What holds of the classification of a return value besides. -/
structure WellFormedResult (c : Classification) : Prop extends WellFormed c where
  byAddress_iff : c.origin = .heuristic → (c.byAddress = true ↔ c.modifier.Dereferences)
  scalar_or_unsupported : c.isUnsupported = true ∨ ∃ s, c.passing = .scalar s

variable {c : Classification} {type : CType}

theorem WellFormed.of_passing
    (hbuffer : ∀ length, c.passing = .memoryBuffer length →
      (c.origin = .heuristic ∧ ∃ bytes, length = .counted bytes) ∨
        (c.origin ≠ .heuristic ∧ ∃ expression, length = .given expression ∧
          Text.HasContent expression.toList))
    (hobject : ∀ tag, c.passing = .object tag → c.origin ≠ .heuristic)
    (hpointer : c.byAddress = true →
      c.passing = .scalar .pointer ∨ c.passing = .scalar .constPointer) : c.WellFormed where
  length_of_buffer := by
    intro h
    cases hpassing : c.passing with
    | memoryBuffer length =>
        rcases hbuffer length hpassing with ⟨horigin, bytes, rfl⟩ | ⟨horigin, text, rfl, hcontent⟩
        · exact .inl ⟨horigin, bytes, rfl⟩
        · exact .inr ⟨horigin, text, rfl, hcontent⟩
    | scalar | output | copiedOutput | object | skip =>
        rw [hpassing] at h
        cases h
  rule_of_object := hobject
  pointer_of_byAddress := hpointer

/-! ## Heuristics -/

/-- A classification of a parameter that no rule had a part in. -/
structure Unruled (c : Classification) : Prop where
  isFromType : c.passing.isFromType = true
  origin : c.origin = .heuristic
  byAddress : c.byAddress = false

theorem unruled_ofValue (category : Category) : (ofValue category).Unruled := by
  cases category <;> exact ⟨rfl, rfl, rfl⟩

theorem unruled_ofArray (type : CType) : (ofArray type).Unruled := by
  unfold ofArray
  dsimp only
  split
  · exact ⟨rfl, rfl, rfl⟩
  split
  · split
    · split <;> exact ⟨rfl, rfl, rfl⟩
    · exact ⟨rfl, rfl, rfl⟩
  · split <;> exact ⟨rfl, rfl, rfl⟩

theorem unruled_ofIndirect (type : CType) (byReference : Bool) (pointee : Written) :
    (ofIndirect type byReference pointee).Unruled := by
  unfold ofIndirect
  dsimp only
  split
  · exact ⟨rfl, rfl, rfl⟩
  split
  · split <;> exact ⟨rfl, rfl, rfl⟩
  split
  · exact ⟨rfl, rfl, rfl⟩
  · split <;> exact ⟨rfl, rfl, rfl⟩

theorem unruled_ofParameterType (type : CType) : (ofParameterType type).Unruled := by
  unfold ofParameterType
  dsimp only
  split
  · exact ⟨rfl, rfl, rfl⟩
  split
  · split
    · exact unruled_ofValue _
    · exact ⟨rfl, rfl, rfl⟩
  split
  · exact unruled_ofArray type
  · split
    · exact unruled_ofValue _
    · exact unruled_ofIndirect type _ _

theorem Unruled.wellFormed (h : c.Unruled) : c.WellFormed := by
  apply WellFormed.of_passing
  · intro length hlength
    have hfrom := h.isFromType
    rw [hlength] at hfrom
    cases length with
    | counted bytes => exact .inl ⟨h.origin, bytes, rfl⟩
    | given => cases hfrom
  · intro tag htag
    have hfrom := h.isFromType
    rw [htag] at hfrom
    cases hfrom
  · intro haddress
    rw [h.byAddress] at haddress
    cases haddress

/-- A classification of a return value that no rule had a part in. -/
structure UnruledResult (c : Classification) : Prop where
  origin : c.origin = .heuristic
  pointer_of_byAddress : c.byAddress = true →
    c.passing = .scalar .pointer ∨ c.passing = .scalar .constPointer
  byAddress_iff : c.byAddress = true ↔ c.modifier.Dereferences

/-- A value that is returned as it is, under a modifier that reads through no pointer. -/
theorem UnruledResult.of_value (horigin : c.origin = .heuristic) (hvalue : c.byAddress = false)
    (hmodifier : ¬ c.modifier.Dereferences) : c.UnruledResult := by
  constructor
  · exact horigin
  · intro haddress
    rw [hvalue] at haddress
    cases haddress
  · simp [hvalue, hmodifier]

theorem unruledResult_unsupported : unsupported.UnruledResult :=
  .of_value rfl rfl Modifier.not_dereferences_none

theorem not_dereferences_ite (p : Prop) [Decidable p] (target : String) :
    ¬ (if p then Modifier.staticCast target else Modifier.none).Dereferences := by
  split
  · exact Modifier.not_dereferences_staticCast target
  · exact Modifier.not_dereferences_none

theorem unruledResult_ofReturnedValue (type : CType) (category : Category) :
    (ofReturnedValue type category).UnruledResult := by
  cases category with
  | arithmetic a => exact .of_value rfl rfl (not_dereferences_ite _ _)
  | enum => exact .of_value rfl rfl (Modifier.not_dereferences_staticCast _)
  | record => exact ⟨rfl, fun _ => .inr rfl, by
      simp [ofReturnedValue, Modifier.dereferences_dereferencedCast]⟩
  | void | typedef | template | functionPointer | incomplete => exact unruledResult_unsupported

theorem addressScalar_cases (pointee : CType) :
    addressScalar pointee = .pointer ∨ addressScalar pointee = .constPointer := by
  unfold addressScalar
  split
  · exact .inr rfl
  · exact .inl rfl

theorem unruledResult_ofReturnedReference (type pointee : CType) :
    (ofReturnedReference type pointee).UnruledResult := by
  refine ⟨rfl, fun _ => ?_, ?_⟩
  · exact (addressScalar_cases pointee).imp (congrArg Passing.scalar) (congrArg Passing.scalar)
  · simp [ofReturnedReference, Modifier.dereferences_dereferencedCast]

theorem unruledResult_ofReturnedPointer (type pointee : CType) :
    (ofReturnedPointer type pointee).UnruledResult := by
  unfold ofReturnedPointer
  split
  · exact .of_value rfl rfl (not_dereferences_ite _ _)
  · exact .of_value rfl rfl (not_dereferences_ite _ _)

theorem unruledResult_ofReturnType (type : CType) : (ofReturnType type).UnruledResult := by
  unfold ofReturnType
  dsimp only
  split
  · exact unruledResult_unsupported
  split
  · exact unruledResult_ofReturnedValue type _
  · split
    · exact unruledResult_ofReturnedReference type _
    · exact unruledResult_ofReturnedPointer type _

theorem UnruledResult.wellFormedResult (h : c.UnruledResult)
    (hscalar : c.isUnsupported = true ∨ ∃ s, c.passing = .scalar s) : c.WellFormedResult where
  toWellFormed := by
    have hplain : c.passing = .skip ∨ ∃ s, c.passing = .scalar s :=
      hscalar.imp_left fun hunsupported => (isUnsupported_iff.mp hunsupported).1
    apply WellFormed.of_passing
    · intro length hlength
      simp [hlength] at hplain
    · intro tag htag
      simp [htag] at hplain
    · exact h.pointer_of_byAddress
  byAddress_iff _ := h.byAddress_iff
  scalar_or_unsupported := hscalar

end Classification

/-! ## Rules -/

namespace Rule

variable {rule : Rule} {origin : Origin}

theorem wellFormed_classifyParameter (hrule : rule.WellFormed) (horigin : origin ≠ .heuristic)
    (type : CType) : (rule.classifyParameter type origin).WellFormed := by
  apply Classification.WellFormed.of_passing
  · intro length hlength
    change rule.treatment.passing type = .memoryBuffer length at hlength
    cases htreatment : rule.treatment with
    | memoryBuffer expression =>
        rw [htreatment] at hlength
        cases hlength
        exact .inr ⟨horigin, expression, rfl, hrule.hasContent_length _ (by rw [htreatment]; rfl)⟩
    | scalar | output | object | skip =>
        rw [htreatment] at hlength
        cases hlength
  · exact fun _ _ => horigin
  · intro haddress
    cases haddress

theorem wellFormed_of_typedParameter (hrule : rule.WellFormed) {type looked : CType}
    {c : Classification} (h : rule.classifyTypedParameter? type looked = some c) :
    c.WellFormed ∧ c.byAddress = false := by
  rcases classifyParameter_of_typed h with rfl | ⟨tag, -, rfl⟩
  · exact ⟨wellFormed_classifyParameter hrule (by simp) type, rfl⟩
  · refine ⟨Classification.WellFormed.of_passing ?_ ?_ ?_, rfl⟩
    · intro length hlength
      cases hlength
    · intro other hother
      cases hother
    · intro haddress
      cases haddress

theorem wellFormedResult_classifyResult (hrule : rule.WellFormed)
    (hrole : rule.selector.role = .result) (horigin : origin ≠ .heuristic) (type : CType) :
    (rule.classifyResult type origin).WellFormedResult := by
  obtain ⟨s, hs⟩ := hrule.scalar_of_result hrole
  have hpassing := classifyResult_passing hs type origin
  have hkept := rule.origin_classifyResult type origin
  refine ⟨Classification.WellFormed.of_passing ?_ ?_ ?_, ?_, .inr ⟨s, hpassing⟩⟩
  · intro length hlength
    rw [hpassing] at hlength
    cases hlength
  · intro tag htag
    rw [hpassing] at htag
    cases htag
  · intro haddress
    rw [hpassing]
    simp only [classifyResult, hs, Treatment.scalar?, Bool.and_eq_true] at haddress
    cases s with
    | pointer => exact .inl rfl
    | constPointer => exact .inr rfl
    | bool | int | unsignedInt | longInt | unsignedLongInt | double | string =>
        cases haddress.1
  · intro hheuristic
    exact absurd (hkept ▸ hheuristic) horigin

end Rule

/-! ## Rule books -/

/-- The length of a buffer in a mock's call is that of the parameter's classification. -/
theorem Analysis.exists_buffer_of_mem_links {a : Analysis} {name value text : String}
    (h : Link.memoryBuffer name value text ∈ a.mockCall.links) :
    ∃ entry ∈ a.parameters, ∃ length, entry.2.passing = .memoryBuffer length ∧
      text = length.render entry.1.name := by
  simp only [mockCall, List.mem_append] at h
  rcases h with (hreceiver | hparameter) | hresult
  · split at hreceiver
    · cases List.mem_singleton.mp hreceiver
    · cases hreceiver
  · obtain ⟨entry, hentry, hlink⟩ := List.mem_filterMap.mp hparameter
    refine ⟨entry, hentry, ?_⟩
    cases hpassing : entry.2.passing with
    | memoryBuffer length =>
        simp only [hpassing] at hlink
        cases hlink
        exact ⟨length, rfl, rfl⟩
    | scalar | output | copiedOutput | object | skip =>
        simp only [hpassing] at hlink
        cases hlink
  · cases hscalar : a.result?.bind fun c => c.passing.scalar? with
    | none =>
        rw [hscalar] at hresult
        cases hresult
    | some s =>
        rw [hscalar] at hresult
        cases List.mem_singleton.mp hresult

namespace RuleBook

variable {book : RuleBook} {resolveAliases : Bool} {parameters types : List String}

theorem wellFormed_of_mem (hbook : ofOptions resolveAliases parameters types = .ok book)
    {level : Level} {rule : Rule} (hmem : rule ∈ book.rules level) : rule.WellFormed :=
  forall_rules_of_ofOptions (fun _ _ _ => Rule.wellFormed_of_parse) hbook level rule hmem

theorem wellFormed_classifyType (hbook : ofOptions resolveAliases parameters types = .ok book)
    (type : CType) :
    (book.classifyType type .parameter).WellFormed ∧
      (book.classifyType type .parameter).byAddress = false := by
  rcases book.classifyType_cases type .parameter with ⟨rule, hmem, -, hgiven⟩ | hheuristic
  · exact Rule.wellFormed_of_typedParameter (wellFormed_of_mem hbook hmem) hgiven
  · rw [hheuristic]
    have hunruled := Classification.unruled_ofParameterType type
    exact ⟨hunruled.wellFormed, hunruled.byAddress⟩

theorem wellFormed_classifyParameter
    (hbook : ofOptions resolveAliases parameters types = .ok book) (function : String)
    (p : Parameter) :
    (book.classifyParameter function p).WellFormed ∧
      (book.classifyParameter function p).byAddress = false := by
  rcases book.classifyParameter_cases function p with ⟨rule, hmem, hgiven⟩ | htype
  · rw [hgiven]
    exact ⟨Rule.wellFormed_classifyParameter (wellFormed_of_mem hbook hmem) (by simp) p.type, rfl⟩
  · rw [htype]
    exact wellFormed_classifyType hbook p.type

theorem wellFormedResult_classifyType
    (hbook : ofOptions resolveAliases parameters types = .ok book) (type : CType) :
    (book.classifyType type .result).WellFormedResult := by
  have hscalar := scalar_of_classifyType hbook type
  rcases book.classifyType_cases type .result with ⟨rule, hmem, hrole, hgiven⟩ | hheuristic
  · rw [Rule.classifyResult_of_typed hgiven]
    exact Rule.wellFormedResult_classifyResult (wellFormed_of_mem hbook hmem) hrole (by simp) type
  · rw [hheuristic] at hscalar ⊢
    exact (Classification.unruledResult_ofReturnType type).wellFormedResult hscalar

theorem wellFormedResult_classifyResult?
    (hbook : ofOptions resolveAliases parameters types = .ok book) {function : String}
    {type : CType} {c : Classification} (h : book.classifyResult? function type = some c) :
    c.WellFormedResult := by
  rcases classifyResult?_cases h with ⟨rule, hmem, hrole, rfl⟩ | rfl
  · exact Rule.wellFormedResult_classifyResult (wellFormed_of_mem hbook hmem) hrole (by simp) type
  · exact wellFormedResult_classifyType hbook type

/-- Lengths, outputs and copiers go together in every way of passing, and every classification that
a book gives is well formed, whether a rule or the heuristics decide, and whether it is of a
parameter, of a return value or of a type alone. A mock therefore passes every buffer with the
length that goes with it. -/
theorem classifications_wellFormed
    (hbook : ofOptions resolveAliases parameters types = .ok book) :
    (∀ passing : Passing, passing.WellFormed) ∧
    (∀ function p, (book.classifyParameter function p).WellFormed ∧
      (book.classifyParameter function p).byAddress = false) ∧
    (∀ type, (book.classifyType type .parameter).WellFormed ∧
      (book.classifyType type .parameter).byAddress = false) ∧
    (∀ function type c, book.classifyResult? function type = some c → c.WellFormedResult) ∧
    (∀ type, (book.classifyType type .result).WellFormedResult) ∧
    ∀ d name value text, Link.memoryBuffer name value text ∈ (book.analyse d).mockCall.links →
      ∃ p ∈ d.parameters, ∃ length,
        (book.classifyParameter d.qualifiedName p).passing = .memoryBuffer length ∧
          text = length.render p.name := by
  refine ⟨Passing.wellFormed, wellFormed_classifyParameter hbook, wellFormed_classifyType hbook,
    fun _ _ _ => wellFormedResult_classifyResult? hbook, wellFormedResult_classifyType hbook, ?_⟩
  intro d name value text hlink
  obtain ⟨entry, hentry, length, hlength, htext⟩ := Analysis.exists_buffer_of_mem_links hlink
  obtain ⟨p, hp, rfl⟩ := List.mem_map.mp hentry
  exact ⟨p, hp, length, hlength, htext⟩

/-- A buffer whose length a rule gives, and a record that is returned through its address. -/
theorem classifications_wellFormed_of_buffer_rule :
    let d : Declaration :=
      { qualifiedName := "f"
        parameters := Parameter.ofList [("data", (CType.arithmetic .int).withConst.pointer)]
        returnType := .record "R" }
    ∃ book, ofOptions false ["#data=MemoryBuffer(4 * sizeof($[0]))"] [] = .ok book ∧
      (∃ c, book.classifyResult? "f" d.returnType = some c ∧ c.modifier.Dereferences ∧
        c.passing = .scalar .constPointer) ∧
      ∃ p ∈ d.parameters, ∃ length,
        (book.classifyParameter d.qualifiedName p).passing = .memoryBuffer length ∧
          length.render p.name = "4 * sizeof(data[0])" := by
  intro d
  have hbook : ofOptions false ["#data=MemoryBuffer(4 * sizeof($[0]))"] [] = .ok
      { parameterRules := [{
          selector := .parameterName "data"
          treatment := .memoryBuffer "4 * sizeof($[0])" }] } := by
    decide
  obtain ⟨-, -, -, hresult, -, hcall⟩ := classifications_wellFormed hbook
  refine ⟨_, hbook, ⟨_, rfl, ?_, by decide⟩, ?_⟩
  · exact ((hresult "f" d.returnType _ rfl).byAddress_iff (by decide)).mp (by decide)
  · obtain ⟨p, hp, length, hpassing, htext⟩ :=
      hcall d "data" "data" "4 * sizeof(data[0])" (by decide)
    exact ⟨p, hp, length, hpassing, htext.symm⟩

end RuleBook

end Understudy
