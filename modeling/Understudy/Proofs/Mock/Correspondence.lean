import Mathlib.Data.List.Forall2
import Understudy.Companion
import Understudy.Mock
import Understudy.Proofs.Classification.Result
import Understudy.Proofs.Mock.Mockable

/-! # Mocks and their companions

The call that a mock makes and the calls that its companions announce are made from the same
classifications by two different readings of them. As they are written, the chains correspond call
by call, so that a chain which a companion announces is one that the mock can make.
-/

namespace Understudy

/-- The words that the mock support has for the kinds of values, each with the type in which it
takes a value of that kind to return. -/
def valueKinds : List (String × String) :=
  [("Bool", "bool"), ("Int", "int"), ("UnsignedInt", "unsigned int"), ("LongInt", "long"),
    ("UnsignedLongInt", "unsigned long"), ("Double", "double"), ("String", "const char *"),
    ("Pointer", "void *"), ("ConstPointer", "const void *")]

theorem Scalar.mem_valueKinds (s : Scalar) : (s.token, s.valueType) ∈ valueKinds := by
  cases s <;> decide

namespace Invocation

/-- Whether a call retrieves a return value, or gives one. -/
def IsResult (call : Invocation) : Prop :=
  call.method = "andReturnValue" ∨ ∃ word, call.method = "return" ++ word ++ "Value"

theorem IsResult.head? {call : Invocation} (h : call.IsResult) :
    call.method.toList.head? = some 'a' ∨ call.method.toList.head? = some 'r' := by
  rcases h with h | ⟨word, h⟩
  · exact .inl (by rw [h]; rfl)
  · refine .inr ?_
    rw [h, String.toList_append, String.toList_append]
    rfl

end Invocation

/-- The call with which a companion announces the function. -/
def Quantity.announcement (function : String) : Quantity → Invocation
  | one => ⟨"expectOneCall", ["\"" ++ function ++ "\""]⟩
  | many => ⟨"expectNCalls", ["__numCalls__", "\"" ++ function ++ "\""]⟩

/-- A call of the mock with the call of its companions that stands for it. -/
structure CallPair where
  actual : Invocation
  expected : Invocation

namespace CallPair

/-- The mock passes the object that it is called on, and the companions one that they are given. -/
def receiver : CallPair where
  actual := ⟨"onObject", ["this"]⟩
  expected := ⟨"onObject", ["__object__"]⟩

/-- Both calls register the parameter of a name. Methods, names and tags are the same on both sides;
only an output parameter is registered under another method, because the expectation has the
data. -/
inductive Registers (name : String) : CallPair → Prop
  | value {word type : String} (hkind : (word, type) ∈ valueKinds) (value value' : String) :
    Registers name
      { actual := ⟨"with" ++ word ++ "Parameter", ["\"" ++ name ++ "\"", value]⟩
        expected := ⟨"with" ++ word ++ "Parameter", ["\"" ++ name ++ "\"", value']⟩ }
  | memoryBuffer (value value' length length' : String) :
    Registers name
      { actual := ⟨"withMemoryBufferParameter", ["\"" ++ name ++ "\"", value, length]⟩
        expected := ⟨"withMemoryBufferParameter", ["\"" ++ name ++ "\"", value', length']⟩ }
  | object (tag value value' : String) :
    Registers name
      { actual := ⟨"withParameterOfType", ["\"" ++ tag ++ "\"", "\"" ++ name ++ "\"", value]⟩
        expected := ⟨"withParameterOfType", ["\"" ++ tag ++ "\"", "\"" ++ name ++ "\"", value']⟩ }
  | output (value value' size : String) :
    Registers name
      { actual := ⟨"withOutputParameter", ["\"" ++ name ++ "\"", value]⟩
        expected := ⟨"withOutputParameterReturning", ["\"" ++ name ++ "\"", value', size]⟩ }
  | copiedOutput (tag value value' : String) :
    Registers name
      { actual :=
          ⟨"withOutputParameterOfType", ["\"" ++ tag ++ "\"", "\"" ++ name ++ "\"", value]⟩
        expected :=
          ⟨"withOutputParameterOfTypeReturning",
            ["\"" ++ tag ++ "\"", "\"" ++ name ++ "\"", value']⟩ }

/-- The mock retrieves a value of a kind, and the companions give one of the type for that kind. -/
inductive Returns : CallPair → Prop
  | value {word type : String} (hkind : (word, type) ∈ valueKinds) (value : String) :
    Returns
      { actual := ⟨"return" ++ word ++ "Value", []⟩
        expected := ⟨"andReturnValue", ["static_cast<" ++ type ++ ">(" ++ value ++ ")"]⟩ }

/-- Neither call is about a return value. -/
def SparesResult (pair : CallPair) : Prop := ¬ pair.actual.IsResult ∧ ¬ pair.expected.IsResult

theorem sparesResult_of_head? {pair : CallPair} {c : Char} (hc : c ≠ 'a' ∧ c ≠ 'r')
    (hactual : pair.actual.method.toList.head? = some c)
    (hexpected : pair.expected.method.toList.head? = some c) : pair.SparesResult := by
  have hother {call : Invocation} (hcall : call.method.toList.head? = some c) :
      ¬ call.IsResult := by
    intro h
    have hhead := h.head?
    rw [hcall] at hhead
    simp [hc] at hhead
  exact ⟨hother hactual, hother hexpected⟩

theorem sparesResult_receiver : receiver.SparesResult :=
  sparesResult_of_head? (c := 'o') (by decide) (by decide) (by decide)

/-- What registers a parameter begins with `with`. -/
theorem Registers.sparesResult {name : String} {pair : CallPair} (h : pair.Registers name) :
    pair.SparesResult := by
  apply sparesResult_of_head? (c := 'w') (by decide)
  · cases h <;> simp
  · cases h <;> simp

theorem sparesResult_of_forall₂ {entries : List (Parameter × Classification)}
    {registered : List CallPair}
    (h : List.Forall₂ (fun entry pair => Registers entry.1.name pair) entries registered) :
    ∀ pair ∈ registered, pair.SparesResult := by
  induction h with
  | nil => nofun
  | cons hfirst _ ih => exact List.forall_mem_cons.mpr ⟨hfirst.sparesResult, ih⟩

end CallPair

/-- The mock and the companions register a parameter by calls that stand for each other, or both
leave it out. -/
theorem Passing.registers_or_skips (passing : Passing) (type : CType) (name value : String) :
    (passing ≠ .skip ∧ ∃ actual expected, passing.mockLink? name value = some actual ∧
      (Slot.ofParameter? type passing name value).bind Slot.link? = some expected ∧
      CallPair.Registers name ⟨actual.invocation, expected.invocation⟩) ∨
    (passing = .skip ∧ passing.mockLink? name value = none ∧
      (Slot.ofParameter? type passing name value).bind Slot.link? = none) := by
  cases passing with
  | scalar s => exact .inl ⟨nofun, _, _, rfl, rfl, .value s.mem_valueKinds value value⟩
  | output size? =>
      cases size? with
      | none => exact .inl ⟨nofun, _, _, rfl, rfl, .output value name _⟩
      | some size => exact .inl ⟨nofun, _, _, rfl, rfl, .output value name _⟩
  | copiedOutput tag => exact .inl ⟨nofun, _, _, rfl, rfl, .copiedOutput tag value name⟩
  | memoryBuffer length =>
      cases length with
      | counted bytes => exact .inl ⟨nofun, _, _, rfl, rfl, .memoryBuffer _ _ _ _⟩
      | given expression => exact .inl ⟨nofun, _, _, rfl, rfl, .memoryBuffer _ _ _ _⟩
  | object tag => exact .inl ⟨nofun, _, _, rfl, rfl, .object tag value value⟩
  | skip => exact .inr ⟨rfl, rfl, rfl⟩

namespace Analysis

variable (a : Analysis)

def returnedScalar? : Option Scalar := a.result?.bind fun c => c.passing.scalar?

def mockLink? : Parameter × Classification → Option Link := fun (p, c) =>
  c.passing.mockLink? p.name (c.modifier.apply p.name)

def companionLink? : Parameter × Classification → Option Link := fun (p, c) =>
  (Slot.ofParameter? p.type c.passing p.name (c.modifier.apply p.name)).bind Slot.link?

/-- The parameters that are not skipped are registered in their order, on both sides. -/
theorem exists_registered (entries : List (Parameter × Classification)) :
    ∃ registered : List CallPair,
      (entries.filterMap mockLink?).map Link.invocation = registered.map CallPair.actual ∧
      (entries.filterMap companionLink?).map Link.invocation =
        registered.map CallPair.expected ∧
      List.Forall₂ (fun entry pair => pair.Registers entry.1.name)
        (entries.filter fun entry => entry.2.passing ≠ .skip) registered := by
  induction entries with
  | nil => exact ⟨[], rfl, rfl, .nil⟩
  | cons entry entries ih =>
      obtain ⟨registered, hmock, hcompanion, hregisters⟩ := ih
      rcases entry.2.passing.registers_or_skips entry.1.type entry.1.name
        (entry.2.modifier.apply entry.1.name) with
        ⟨hkept, actual, expected, hactual, hexpected, hpair⟩ | ⟨hskip, hactual, hexpected⟩
      · change mockLink? entry = _ at hactual
        change companionLink? entry = _ at hexpected
        refine ⟨⟨actual.invocation, expected.invocation⟩ :: registered, ?_, ?_, ?_⟩
        · rw [List.filterMap_cons_some hactual, List.map_cons, hmock, List.map_cons]
        · rw [List.filterMap_cons_some hexpected, List.map_cons, hcompanion, List.map_cons]
        · rw [List.filter_cons_of_pos (by simpa using hkept)]
          exact .cons hpair hregisters
      · change mockLink? entry = _ at hactual
        change companionLink? entry = _ at hexpected
        refine ⟨registered, ?_, ?_, ?_⟩
        · rw [List.filterMap_cons_none hactual, hmock]
        · rw [List.filterMap_cons_none hexpected, hcompanion]
        · rwa [List.filter_cons_of_neg (by simpa using hskip)]

/-- A companion gives a return value where the mock retrieves one, and nowhere else. -/
theorem exists_returned? :
    ∃ returned? : Option CallPair,
      (a.returnedScalar?.map Link.returned).toList.map Link.invocation =
        returned?.toList.map CallPair.actual ∧
      ((a.result?.map (Slot.ofResult a.declaration.returnType)).toList.filterMap
        Slot.link?).map Link.invocation = returned?.toList.map CallPair.expected ∧
      (∀ pair ∈ returned?, pair.Returns) ∧ (returned? = none ↔ a.returnedScalar? = none) := by
  rw [returnedScalar?]
  cases a.result? with
  | none => exact ⟨none, rfl, rfl, nofun, iff_of_true rfl rfl⟩
  | some c =>
      cases hscalar : c.passing.scalar? with
      | none =>
          refine ⟨none, ?_, ?_, nofun, iff_of_true rfl ?_⟩ <;> simp [hscalar, Slot.ofResult]
      | some s =>
          let value := if c.byAddress then "&" ++ Slot.returnName else Slot.returnName
          let pair : CallPair := ⟨(Link.returned s).invocation, (Link.returning s value).invocation⟩
          refine ⟨some pair, ?_, ?_, ?_, ?_⟩
          · simp [hscalar, pair]
          · simp [hscalar, Slot.ofResult, pair, value]
          · rintro _ ⟨⟩
            exact .value s.mem_valueKinds value
          · simp [hscalar]

theorem mockCall_links : a.mockCall.links =
    (if a.declaration.bindsObject then [.onObject "this"] else []) ++
      a.parameters.filterMap mockLink? ++ (a.returnedScalar?.map Link.returned).toList :=
  rfl

theorem companionCall_links (quantity : Quantity) : (a.companionCall quantity).links =
    (if a.declaration.bindsObject then [.onObject objectName] else []) ++
      a.parameters.filterMap companionLink? ++
        (a.result?.map (Slot.ofResult a.declaration.returnType)).toList.filterMap Slot.link? := by
  have hparameters : (a.parameters.filterMap fun (p, c) => Slot.ofParameter? p.type c.passing p.name
      (c.modifier.apply p.name)).filterMap Slot.link? = a.parameters.filterMap companionLink? := by
    rw [List.filterMap_filterMap]
    rfl
  rw [companionCall, slots, List.filterMap_append, hparameters, List.append_assoc]

/-- The mock and its companions make calls that stand for each other, after the first one. -/
theorem exists_calls :
    ∃ (registered : List CallPair) (returned? : Option CallPair),
      let calls := (if a.declaration.bindsObject then [CallPair.receiver] else []) ++ registered ++
        returned?.toList
      a.mockCall.links.map Link.invocation = calls.map CallPair.actual ∧
      (∀ quantity, (a.companionCall quantity).links.map Link.invocation =
        calls.map CallPair.expected) ∧
      List.Forall₂ (fun entry pair => pair.Registers entry.1.name)
        (a.parameters.filter fun entry => entry.2.passing ≠ .skip) registered ∧
      (∀ pair ∈ returned?, pair.Returns) ∧ (returned? = none ↔ a.returnedScalar? = none) := by
  obtain ⟨registered, hmock, hcompanion, hregisters⟩ := exists_registered a.parameters
  obtain ⟨returned?, hretrieved, hgiven, hreturns, hnone⟩ := a.exists_returned?
  refine ⟨registered, returned?, ?_, fun quantity => ?_, hregisters, hreturns, hnone⟩
  · rw [mockCall_links]
    simp only [List.map_append, hmock, hretrieved]
    congr 2
    split <;> rfl
  · rw [companionCall_links]
    simp only [List.map_append, hcompanion, hgiven]
    congr 2
    split <;> rfl

/-- The definition of the mock, for the calls after the one that names the function. -/
def mockWith (calls : List Invocation) : String :=
  a.mockHead ++ "\n\x7b\n    " ++ (if a.result?.isSome then "return " else "") ++
    a.resultModifier.apply (Invocation.chain
      (⟨"actualCall", ["\"" ++ a.declaration.qualifiedName ++ "\""]⟩ :: calls)) ++ ";\n\x7d\n"

/-- The definition of a companion, for the calls after the one that names the function. -/
def companionWith (quantity : Quantity) (calls : List Invocation) : String :=
  a.companionHead quantity ++ "\n\x7b\n    return " ++ Invocation.chain
    (quantity.announcement a.declaration.qualifiedName :: calls) ++ ";\n\x7d\n"

variable {a}

theorem mock?_eq (hmockable : a.isMockable = true) :
    a.mock? = some (a.mockWith (a.mockCall.links.map Link.invocation)) := by
  have htext : a.mock? = some (a.mockHead ++ "\n\x7b\n    " ++ a.mockStatement ++ ";\n\x7d\n") :=
    if_pos hmockable
  rw [htext, mockStatement_eq, Call.render_eq_chain, ← String.append_assoc]
  rfl

theorem companions?_eq (hmockable : a.isMockable = true) :
    a.companions? .defined = some (a.inNamespaces
      (a.companionWith .one ((a.companionCall .one).links.map Link.invocation) ++
        a.companionWith .many ((a.companionCall .many).links.map Link.invocation))) := by
  have htext : a.companions? .defined = some (a.companionsText .defined) := if_pos hmockable
  rw [htext, companionsText_eq, companionText_defined, companionText_defined,
    Call.render_eq_chain, Call.render_eq_chain]
  rfl

end Analysis

namespace RuleBook

variable {book : RuleBook} {resolveAliases : Bool} {parameters types : List String}

/-- A mockable declaration returns a scalar, or nothing at all. -/
theorem returnedScalar?_eq_none_iff
    (hbook : ofOptions resolveAliases parameters types = .ok book) {d : Declaration}
    (hmockable : (book.analyse d).isMockable = true) :
    (book.analyse d).returnedScalar? = none ↔ d.returnType.canonical.isVoid = true := by
  rw [← @classifyResult?_eq_none_iff book d.qualifiedName]
  change (book.classifyResult? d.qualifiedName d.returnType).bind _ = none ↔ _
  obtain ⟨-, hsupported, -⟩ := isMockable_analyse_iff.mp hmockable
  cases hresult : book.classifyResult? d.qualifiedName d.returnType with
  | none => simp
  | some c =>
      have hrepresented := Bool.eq_false_iff.mp (hsupported c hresult)
      obtain ⟨s, hscalar⟩ := (scalar_of_classifyResult? hbook hresult).resolve_left hrepresented
      simp [hscalar, Passing.scalar?]

/-- The mock of a mockable declaration and its two companions agree on the wire. Their chains are
written as calls that stand for each other, from the quoted name of the function to the last one:
both sides address an object or none does, both register the parameters that are not skipped in
their order, and only the last call is about a return value, which the mock retrieves and the
companions give unless the function returns nothing. -/
theorem companions_match_mock (hbook : ofOptions resolveAliases parameters types = .ok book)
    (d : Declaration) (hmockable : (book.analyse d).isMockable = true) :
    let a := book.analyse d
    ∃ (registered : List CallPair) (returned? : Option CallPair),
      let shared := (if d.bindsObject then [CallPair.receiver] else []) ++ registered
      let actual := (shared ++ returned?.toList).map CallPair.actual
      let expected := (shared ++ returned?.toList).map CallPair.expected
      a.mock? = some (a.mockWith actual) ∧
      a.companions? .defined = some
        (a.inNamespaces (a.companionWith .one expected ++ a.companionWith .many expected)) ∧
      List.Forall₂ (fun p pair => pair.Registers p.name)
        (d.parameters.filter fun p => (book.classifyParameter d.qualifiedName p).passing ≠ .skip)
        registered ∧
      (∀ pair ∈ shared, pair.SparesResult) ∧
      (∀ pair ∈ returned?, pair.Returns) ∧
      (returned? = none ↔ d.returnType.canonical.isVoid = true) := by
  intro a
  obtain ⟨registered, returned?, hmock, hcompanion, hregisters, hreturns, hnone⟩ := a.exists_calls
  refine ⟨registered, returned?, ?_, ?_, ?_, ?_, hreturns, ?_⟩
  · rw [Analysis.mock?_eq hmockable, hmock]
    rfl
  · rw [Analysis.companions?_eq hmockable, hcompanion, hcompanion]
    rfl
  · have hparameters : a.parameters =
        d.parameters.map fun p => (p, book.classifyParameter d.qualifiedName p) := rfl
    rw [hparameters, List.filter_map, List.forall₂_map_left_iff] at hregisters
    exact hregisters
  · intro pair hpair
    rcases List.mem_append.mp hpair with hreceiver | hregistered
    · split at hreceiver
      · rw [List.mem_singleton.mp hreceiver]
        exact CallPair.sparesResult_receiver
      · cases hreceiver
    · exact CallPair.sparesResult_of_forall₂ hregisters pair hregistered
  · exact hnone.trans (returnedScalar?_eq_none_iff hbook hmockable)

/-- A method that fills in an object by a copier and returns a record by address. -/
theorem companions_match_mock_of_object_rule :
    let d : Declaration :=
      { qualifiedName := "C::f"
        isMember := true
        returnType := CType.record "R"
        parameters :=
          Parameter.ofList [("r", (CType.record "R").pointer), ("n", .arithmetic .int)] }
    ∃ book, ofOptions false ["C::f@=Pointer"] ["#R=Object(Tag)"] = .ok book ∧
      (book.analyse d).isMockable = true ∧
      (book.analyse d).mock? = some ("R C::f(R * r, int n)\n\x7b\n" ++
        "    return mock().actualCall(\"C::f\").onObject(this)" ++
        ".withOutputParameterOfType(\"Tag\", \"r\", r).withIntParameter(\"n\", n)" ++
        ".returnPointerValue();\n\x7d\n") ∧
      (book.analyse d).companionText .defined .one =
        "MockExpectedCall& f(void *__object__, const R * r, int n, const R & __return__)\n\x7b\n" ++
        "    return mock().expectOneCall(\"C::f\").onObject(__object__)" ++
        ".withOutputParameterOfTypeReturning(\"Tag\", \"r\", r).withIntParameter(\"n\", n)" ++
        ".andReturnValue(static_cast<void *>(&__return__));\n\x7d\n" ∧
      ∃ (registered : List CallPair) (returned : CallPair),
        (book.analyse d).mock? = some ((book.analyse d).mockWith
          ((CallPair.receiver :: registered ++ [returned]).map CallPair.actual)) ∧
        List.Forall₂ (fun p pair => pair.Registers p.name) d.parameters registered ∧
        returned.Returns := by
  intro d
  have hbook : ofOptions false ["C::f@=Pointer"] ["#R=Object(Tag)"] = .ok
      { parameterRules := [{ selector := .functionResult "C::f", treatment := .scalar .pointer }]
        typeRules := [{ selector := .typeName .parameter "R", treatment := .object "Tag" }] } := by
    decide
  refine ⟨_, hbook, by decide, by decide +kernel, by decide +kernel, ?_⟩
  obtain ⟨registered, returned?, hmock, -, hregisters, -, hreturns, hvoid⟩ :=
    companions_match_mock hbook d (by decide)
  cases returned? with
  | none => exact absurd (hvoid.mp rfl) (by decide)
  | some returned => exact ⟨registered, returned, hmock, hregisters, hreturns _ rfl⟩

end RuleBook

end Understudy
